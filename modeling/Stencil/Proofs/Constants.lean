import Stencil.Proofs.Emission

/-!
# Constant code

What becomes of code that is evaluated at compile time. It pushes constants and calls pure
functions, so if it succeeds on a machine without values it pushes the same values on every machine,
and so does the code that pushes its results.
-/

namespace Stencil

/-- Whether code pushes the given values, the first one on top, on every machine. -/
def Pushes (schema : Schema) (t : Tables) (code : List Instr) (values : List Value) : Prop :=
  ∀ m : Machine, m.steps schema t code = .done { m with stack := values ++ m.stack }

/-- The values that code that succeeds leaves, in the order in which they have been pushed. -/
def Outcome.values? : Outcome → Option (List Value)
  | .done m => some m.stack.reverse
  | .failed .. => none

/-- Code leaves values exactly if it succeeds with them on its stack. -/
theorem Outcome.values?_eq_some {o : Outcome} {values : List Value} :
    o.values? = some values ↔ ∃ m, o = .done m ∧ values = m.stack.reverse := by
  cases o <;> simp [Outcome.values?, eq_comm]

namespace Machine

variable {schema : Schema} {t : Tables} {i : Instr} {code : List Instr} {l l' m m' : Machine}

/-- The machine on which an evaluation at compile time starts. -/
def blank : Machine := { (fresh .unlimited .none).bind Tables.rootVar .nil with dot := .nil }

/-- A constant instruction is a straight-line instruction. -/
theorem isStraight_of_isConstant (hi : Compile.isConstant t i) : i.isStraight := by
  cases i <;> first | rfl | cases hi

/-- One turn of an evaluation at an instruction of straight-line code. -/
theorem evaluateFrom_of_isStraight {code : Array Instr} {fuel pc : Nat} (hget : code[pc]? = some i)
    (hi : i.isStraight) :
    evaluateFrom schema t code (fuel + 1) pc m =
      match m.step schema t i with
      | .next m | .jump _ m => evaluateFrom schema t code fuel (pc + 1) m
      | .fail e m => .failed e m := by
  rw [evaluateFrom, hget]
  cases hstep : m.step schema t i with
  | jump k m₁ =>
    have hnone := Instr.distance?_of_isStraight hi
    rw [distance?_of_step_jump hstep] at hnone
    cases hnone
  | next m₁ => cases i <;> first | cases hi; done | simp only [hstep]
  | fail e m₁ => cases i <;> first | cases hi; done | simp only [hstep]

/-- An evaluation that succeeds does the steps of the code and leaves the values of the last one. -/
theorem evaluateFrom_eq_done {code : Array Instr} {fuel pc : Nat} {values : List Value}
    (hcode : Straight code.toList) (h : evaluateFrom schema t code fuel pc m = .done values m') :
    ∃ l, m.steps schema t (code.toList.drop pc) = .done l ∧ values = l.stack.reverse := by
  induction fuel generalizing pc m with
  | zero => cases h
  | succ fuel ih =>
    cases hi : code[pc]? with
    | none =>
      rw [evaluateFrom, hi] at h
      cases h
      have hlength : code.toList.length ≤ pc := by simpa using hi
      rw [List.drop_eq_nil_of_le hlength]
      exact ⟨m, rfl, rfl⟩
    | some i =>
      obtain ⟨hlt, hget⟩ := Array.getElem?_eq_some_iff.mp hi
      have hdrop : code.toList.drop pc = i :: code.toList.drop (pc + 1) := by
        rw [← hget, ← Array.getElem_toList, List.getElem_cons_drop]
      have hstraight : i.isStraight := hcode i (hget ▸ Array.getElem_mem_toList hlt)
      rw [evaluateFrom_of_isStraight hi hstraight] at h
      rw [hdrop, steps]
      generalize m.step schema t i = s at h
      cases s with
      | next m₁ | jump k m₁ => exact ih h
      | fail e m₁ => cases h

/-- An evaluation with enough fuel does the steps of straight-line code to their end. -/
theorem evaluateFrom_eq_steps {code : Array Instr} {pc : Nat} (schema : Schema) (t : Tables) (fuel : Nat)
    (m : Machine) (hcode : Straight code.toList) (hpc : pc ≤ code.size)
    (hfuel : code.size < pc + fuel) :
    (∃ l, m.steps schema t (code.toList.drop pc) = .done l ∧
      evaluateFrom schema t code fuel pc m = .done l.stack.reverse { l with stack := [] }) ∨
    ∃ e l, m.steps schema t (code.toList.drop pc) = .failed e l.sink l.streams ∧
      evaluateFrom schema t code fuel pc m = .failed e l := by
  induction fuel generalizing pc m with
  | zero => omega
  | succ fuel ih =>
    cases hi : code[pc]? with
    | none =>
      have hlength : code.toList.length ≤ pc := by simpa using hi
      rw [List.drop_eq_nil_of_le hlength, evaluateFrom, hi]
      exact .inl ⟨m, rfl, rfl⟩
    | some i =>
      obtain ⟨hlt, hget⟩ := Array.getElem?_eq_some_iff.mp hi
      have hdrop : code.toList.drop pc = i :: code.toList.drop (pc + 1) := by
        rw [← hget, ← Array.getElem_toList, List.getElem_cons_drop]
      have hstraight : i.isStraight := hcode i (hget ▸ Array.getElem_mem_toList hlt)
      rw [hdrop, steps, evaluateFrom_of_isStraight hi hstraight]
      cases m.step schema t i with
      | next m₁ => exact ih m₁ (by omega) (by omega)
      | jump k m₁ => exact ih m₁ (by omega) (by omega)
      | fail e m₁ => exact .inr ⟨e, m₁, rfl, rfl⟩

/-- An evaluation at compile time has the values that the steps of straight-line code leave. -/
theorem evaluate?_eq_steps (schema : Schema) (t : Tables) {code : Array Instr}
    (hcode : Straight code.toList) :
    Compile.evaluate? schema t code = (blank.steps schema t code.toList).values? := by
  have hstart : evaluate schema t (code.size + 1) code (.fresh .unlimited .none) =
      evaluateFrom schema t code (code.size + 1) 0 blank := rfl
  rw [Compile.evaluate?, hstart]
  rcases evaluateFrom_eq_steps schema t (code.size + 1) blank hcode (Nat.zero_le _)
    (by omega) with ⟨l, hsteps, hdone⟩ | ⟨e, l, hsteps, hfailed⟩
  · rw [List.drop_zero] at hsteps
    rw [hsteps, hdone]
    rfl
  · rw [List.drop_zero] at hsteps
    rw [hsteps, hfailed]
    rfl

/-- Code that is evaluated at compile time succeeds on a machine without values. -/
theorem evaluate?_eq_some {code : Array Instr} {values : List Value} (hcode : Straight code.toList)
    (h : Compile.evaluate? schema t code = some values) :
    ∃ l l' : Machine, l.stack = [] ∧ l.steps schema t code.toList = .done l' ∧ values = l'.stack.reverse := by
  rw [evaluate?_eq_steps schema t hcode] at h
  obtain ⟨l', hsteps, rfl⟩ := Outcome.values?_eq_some.mp h
  exact ⟨blank, l', rfl, hsteps, rfl⟩

/-- A constant instruction that succeeds does the same on every machine with its values on top. -/
theorem step_of_isConstant {t' : Tables} (hextends : t.Extends t') (hi : Compile.isConstant t i)
    (h : l.step schema t i = .next l') (m : Machine) (stack : List Value) :
    { m with stack := l.stack ++ stack }.step schema t' i =
      .next { m with stack := l'.stack ++ stack } := by
  have hadvances := step_eq_next.mp h
  refine Advances.step_eq ?_
  cases hadvances with
  | val hv => exact .val (hextends.values _ _ hv)
  | string hs => exact .string (hextends.texts _ _ hs)
  | @func argc index f result hf hle hresult =>
    have hlength : argc ≤ (l.stack ++ stack).length := by
      rw [List.length_append]
      omega
    have hargs : Call.function f ((l.stack ++ stack).take argc) = .ok result := by
      rw [List.take_append_of_le_length hle, hresult]
    have hfunc : { m with stack := l.stack ++ stack }.Advances schema t' (.func argc index) _ :=
      .func (hextends.funcs _ _ hf) hlength hargs
    rwa [List.drop_append_of_le_length hle] at hfunc
  | _ => cases hi

/-- Constant code that succeeds on a machine without values pushes the same values everywhere. -/
theorem pushes_of_isConstant {t' : Tables} (hextends : t.Extends t')
    (hcode : ∀ i ∈ code, Compile.isConstant t i) (hstack : l.stack = [])
    (h : l.steps schema t code = .done l') : Pushes schema t' code l'.stack := by
  have hsteps : ∀ m : Machine, ∀ stack, { m with stack := l.stack ++ stack }.steps schema t' code =
      .done { m with stack := l'.stack ++ stack } := by
    clear hstack
    induction code generalizing l with
    | nil =>
      cases h
      intro m stack
      rfl
    | cons i code ih =>
      intro m stack
      have hi : Compile.isConstant t i := hcode i List.mem_cons_self
      obtain ⟨l₁, hstep, hrest⟩ := (steps_cons_eq_done (isStraight_of_isConstant hi)).mp h
      rw [steps, step_of_isConstant hextends hi hstep]
      exact ih (fun j hj => hcode j (List.mem_cons_of_mem i hj)) hrest m stack
  intro m
  have hm := hsteps m m.stack
  rw [hstack] at hm
  exact hm

end Machine

/-- Code that pushes the entries of a table pushes their values. -/
theorem pushes_map_val {schema : Schema} {t : Tables} {indices : List Nat} {values : List Value}
    (h : indices.map (t.values[·]?) = values.map some) :
    Pushes schema t (indices.map .val) values.reverse := by
  induction indices generalizing values with
  | nil =>
    rw [List.map_nil, eq_comm, List.map_eq_nil_iff] at h
    subst h
    exact fun m => rfl
  | cons index indices ih =>
    match values with
    | v :: values =>
      rw [List.map_cons, List.map_cons, List.cons.injEq] at h
      intro m
      rw [List.map_cons, Machine.steps, Machine.step, h.1]
      simp only [Machine.push]
      rw [ih h.2]
      simp

/-- Entries stay where they are when tables grow. -/
theorem Tables.Extends.map_values {t t' : Tables} (hextends : t.Extends t') {indices : List Nat}
    {values : List Value} (h : indices.map (t.values[·]?) = values.map some) :
    indices.map (t'.values[·]?) = values.map some := by
  induction indices generalizing values with
  | nil => exact h
  | cons index indices ih =>
    match values with
    | v :: values =>
      rw [List.map_cons, List.map_cons, List.cons.injEq] at h
      rw [List.map_cons, List.map_cons, hextends.values _ _ h.1, ih h.2]

namespace Compile

variable {c : Context} {pos : Pos} {s s' : State} {f g body : Fragment} {code : List Instr}

/-- Whether code has been replaced by code that pushes the values it evaluates to. -/
structure Folded (schema : Schema) (s : State) (body : Fragment) (g : Fragment) (s' : State) :
    Prop where
  grows : Grows s s'
  constant : ∀ i ∈ body.instrs, isConstant s.tables i
  values : ∃ values, ∃ indices : List Nat, evaluate? schema s.tables body.code = some values ∧
    g.instrs = indices.map .val ∧ indices.map (s'.tables.values[·]?) = values.map some

/-- Values are pushed as constants, one instruction for each of them. -/
theorem ensures_pushValues (values : List Value) :
    Ensures (pushValues c pos f values) s fun g s' => Grows s s' ∧ ∃ indices : List Nat,
      g.instrs = f.instrs ++ indices.map .val ∧
        indices.map (s'.tables.values[·]?) = values.map some := by
  induction values generalizing f s with
  | nil => exact ensures_pure ⟨.refl s, [], by simp, rfl⟩
  | cons v values ih =>
    refine .bind (ensures_pushValue f v) fun g s₁ hv => ?_
    obtain ⟨index, rfl, hgrows, hindex⟩ := hv
    apply (ih).mono
    intro g s₂ hrest
    obtain ⟨hgrows', indices, hcode, hvalues⟩ := hrest
    refine ⟨hgrows.trans hgrows', index :: indices, by simp [hcode], ?_⟩
    rw [List.map_cons, List.map_cons, hvalues, hgrows'.extends_.values _ _ hindex]

/-- Folding keeps code as it is or replaces it by its values. -/
theorem ensures_fold (body : Fragment) :
    Ensures (fold c pos body) s fun g s' => (g = body ∧ s' = s) ∨ Folded c.schema s body g s' := by
  apply ensures_get_bind
  simp only
  split
  · next hfold =>
    simp only [Bool.and_eq_true] at hfold
    have hconstant : ∀ i ∈ body.instrs, isConstant s.tables i := by
      intro i hi
      exact Array.all_eq_true_iff_forall_mem.mp hfold.2 i (Array.mem_toList_iff.mp hi)
    split
    · next values hvalues =>
      refine (ensures_pushValues values).mono fun g s' hpush => Or.inr ?_
      obtain ⟨hgrows, indices, hcode, hentries⟩ := hpush
      exact ⟨hgrows, hconstant, values, indices, hvalues, hcode, hentries⟩
    · exact ensures_pure (Or.inl ⟨rfl, rfl⟩)
  · exact ensures_pure (Or.inl ⟨rfl, rfl⟩)

/-- Code and its values push the same. -/
theorem Folded.pushes {schema : Schema} (h : Folded schema s body g s') {t : Tables}
    (hextends : s'.tables.Extends t) :
    ∃ values, Pushes schema t body.instrs values ∧ Pushes schema t g.instrs values := by
  obtain ⟨hgrows, hconstant, values, indices, hvalues, hcode, hentries⟩ := h
  have hstraight : Straight body.instrs :=
    fun i hi => Machine.isStraight_of_isConstant (hconstant i hi)
  obtain ⟨l, l', hstack, hsteps, rfl⟩ := Machine.evaluate?_eq_some hstraight hvalues
  refine ⟨l'.stack,
    Machine.pushes_of_isConstant (hgrows.extends_.trans hextends) hconstant hstack hsteps, ?_⟩
  have hpushes : Pushes schema t (indices.map .val) l'.stack.reverse.reverse :=
    pushes_map_val (hextends.map_values hentries)
  rw [hcode]
  rwa [List.reverse_reverse] at hpushes

/-- A constant instruction declares nothing. -/
theorem declares_of_isConstant {t : Tables} {i : Instr} (hi : isConstant t i) : i.declares = [] := by
  cases i <;> first | rfl | cases hi

/-- Code that declares nothing instruction by instruction declares nothing. -/
theorem declaredBy_eq_nil (h : ∀ i ∈ code, i.declares = []) : declaredBy code = [] := by
  rw [declaredBy, List.flatMap_eq_nil_iff.mpr h, List.reverse_nil]

/-- Code that pushes constants leaves as many values as there are. -/
theorem leaves_map_val (indices : List Nat) : Leaves (indices.map .val) 0 indices.length := by
  induction indices with
  | nil => exact leaves_nil 0
  | cons index indices ih =>
    exact ⟨Nat.zero_le _, ih.mono (Nat.zero_le _) (by simp [Instr.takes, Instr.gives])⟩

/-- Folding does not change what code leaves. -/
theorem Folded.adds {schema : Schema} {s₀ : State} {wf : Prop} {after : Nat}
    (h : Folded schema s body g s') (hbody : Adds .empty s₀ wf 0 after body s) :
    Adds .empty s₀ wf 0 after g s' := by
  obtain ⟨code, hbodycode, hemits, hleaves⟩ := hbody
  have hbodycode : body.instrs = code := hbodycode
  subst hbodycode
  obtain ⟨hgrows, hconstant, values, indices, hvalues, hcode, hentries⟩ := h
  obtain ⟨l, l', hstack, hsteps, hresults⟩ := Machine.evaluate?_eq_some hemits.straight hvalues
  have hval : ∀ i ∈ g.instrs, ∃ index ∈ indices, .val index = i := by
    intro i hi
    rw [hcode] at hi
    exact List.mem_map.mp hi
  refine ⟨g.instrs, rfl, ⟨?_, ?_, ?_, ?_, ?_⟩, fun hwf hprint => ⟨?_, ?_⟩⟩
  · exact hemits.extends_.trans hgrows.extends_
  · exact fun hs => hgrows.sound (hemits.sound hs)
  · intro i hi
    obtain ⟨index, -, rfl⟩ := hval i hi
    rfl
  · intro hs i hi
    obtain ⟨index, hindex, rfl⟩ := hval i hi
    have hentry : s'.tables.values[index]? ∈ values.map some := by
      rw [← hentries]
      exact List.mem_map.mpr ⟨index, hindex, rfl⟩
    obtain ⟨v, -, hv⟩ := List.mem_map.mp hentry
    exact (Array.getElem?_eq_some_iff.mp hv.symm).1
  · have hnone : declaredBy g.instrs = [] := by
      apply declaredBy_eq_nil
      intro i hi
      obtain ⟨index, -, rfl⟩ := hval i hi
      rfl
    rw [hgrows.declared, hemits.declared, hnone,
      declaredBy_eq_nil fun i hi => declares_of_isConstant (hconstant i hi)]
  · rw [hgrows.noPrint]
    exact (hleaves hwf hprint).1
  · have hcount := Machine.le_length_steps hemits.straight (hleaves hwf hprint).2 (Nat.zero_le _) hsteps
    have hlength : indices.length = l'.stack.length := by
      have := congrArg List.length hentries
      simpa [hresults] using this
    rw [hcode]
    exact (leaves_map_val indices).weaken (by omega)

/-- Folding keeps what is known of the code of a pipeline. -/
theorem ensures_fold_adds {s₀ : State} {wf : Prop} {after : Nat}
    (hbody : Adds .empty s₀ wf 0 after body s) :
    Ensures (fold c pos body) s (Adds .empty s₀ wf 0 after) := by
  apply (ensures_fold body).mono
  intro g s' hfold
  rcases hfold with ⟨rfl, rfl⟩ | hfolded
  · exact hbody
  · exact hfolded.adds hbody

end Compile
end Stencil
