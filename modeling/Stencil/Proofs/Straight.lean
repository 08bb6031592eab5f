import Stencil.Proofs.Frame

/-!
# Straight-line code

The code of pipelines neither jumps nor calls templates, so running it is doing one step after the
other. How many values an instruction leaves is known up to the arguments that a field access may
take.
-/

namespace Stencil

namespace Instr

/-- The variables that an instruction declares. -/
def declares : Instr → List Nat
  | setVar name false => [name]
  | _ => []

/-- Whether the operands of an instruction are indices into the tables. -/
def Valid (t : Tables) : Instr → Prop
  | field _ name => name < t.strings.size
  | func _ index => index < t.funcs.size
  | string index => index < t.texts.size
  | val index => index < t.values.size
  | wb index => index < t.chunks.size
  | _ => True

/-- A straight-line instruction does not jump. -/
theorem distance?_of_isStraight {i : Instr} (hi : i.isStraight) : i.distance? = none := by
  cases i <;> first | rfl | cases hi

/-- Whether an instruction neither jumps nor calls a template. -/
def isLocal : Instr → Bool
  | template .. | jmp _ | jmpf _ | jmpt _ | next _ => false
  | _ => true

/-- A local instruction does not jump. -/
theorem distance?_of_isLocal {i : Instr} (hi : i.isLocal) : i.distance? = none := by
  cases i <;> first | rfl | cases hi

/-- A local instruction calls no template. -/
theorem ne_template_of_isLocal {i : Instr} (hi : i.isLocal) (ns index : Nat) :
    i ≠ .template ns index := by
  rintro rfl
  cases hi

/-- A straight-line instruction is local. -/
theorem isLocal_of_isStraight {i : Instr} (hi : i.isStraight) : i.isLocal := by
  cases i <;> first | rfl | cases hi

end Instr

namespace Machine

variable {schema : Schema} {t : Tables} {i : Instr} {code : List Instr} {l m : Machine} {F : Frame}

/-- Run straight-line code. -/
def steps (schema : Schema) (t : Tables) : List Instr → Machine → Outcome
  | [], m => .done m
  | i :: code, m =>
    match m.step schema t i with
    | .next m | .jump _ m => steps schema t code m
    | .fail e m => .failed e m.sink m.streams

/-- Steps go on after steps that succeed. -/
theorem steps_append (code rest : List Instr) (m : Machine) :
    m.steps schema t (code ++ rest) =
      match m.steps schema t code with
      | .done m' => m'.steps schema t rest
      | .failed e sink streams => .failed e sink streams := by
  induction code generalizing m with
  | nil => rfl
  | cons i code ih =>
    simp only [List.cons_append, steps]
    cases m.step schema t i with
    | next m' => exact ih m'
    | jump k m' => exact ih m'
    | fail e m' => rfl

/-- Code behind other code succeeds where the other code has ended. -/
theorem steps_append_eq_done {m' : Machine} (rest : List Instr) :
    m.steps schema t (code ++ rest) = .done m' ↔
      ∃ m₁, m.steps schema t code = .done m₁ ∧ m₁.steps schema t rest = .done m' := by
  rw [steps_append]
  cases m.steps schema t code <;> simp

/-! ### What an instruction leaves alone -/

/-- Whether a machine differs from an earlier one only in its values, its output and its streams,
in the values of its variables and by the given new variables. -/
structure Follows (declared : List Nat) (m m' : Machine) : Prop where
  dot : m'.dot = m.dot
  marks : m'.marks = m.marks
  dots : m'.dots = m.dots
  iterations : m'.iterations = m.iterations
  names : m'.names = declared ++ m.names

/-- A machine differs from itself in nothing. -/
theorem Follows.refl (m : Machine) : Follows [] m m := ⟨rfl, rfl, rfl, rfl, rfl⟩

/-- What differs twice differs by the variables declared in both. -/
theorem Follows.trans {first second : List Nat} {m m' m'' : Machine} (h : Follows first m m')
    (h' : Follows second m' m'') : Follows (second ++ first) m m'' where
  dot := h'.dot.trans h.dot
  marks := h'.marks.trans h.marks
  dots := h'.dots.trans h.dots
  iterations := h'.iterations.trans h.iterations
  names := by rw [h'.names, h.names, List.append_assoc]

/-- An assignment changes no names. -/
theorem map_fst_assign? {name : Nat} {v : Value} {bindings bindings' : List (Nat × Value)}
    (h : Bindings.assign? name v bindings = some bindings') :
    bindings'.map Prod.fst = bindings.map Prod.fst := by
  induction bindings generalizing bindings' with
  | nil => cases h
  | cons b rest ih =>
    rw [Bindings.assign?] at h
    split at h
    · next hname =>
      cases h
      simp [hname]
    · obtain ⟨rest', hrest, rfl⟩ := Option.map_eq_some_iff.mp h
      simp [ih hrest]

/-- An instruction leaves the stacks below its values alone. -/
theorem follows_step {l l' : Machine} (hi : i.isStraight) (h : l.step schema t i = .next l') :
    Follows i.declares l l' ∧ l.stack.length + i.gives ≤ l'.stack.length + i.takes := by
  have hadvances := step_eq_next.mp h
  cases hadvances with
  | dot | string | val | var => exact ⟨⟨rfl, rfl, rfl, rfl, rfl⟩, by simp [Instr.gives, Instr.takes, push]⟩
  | wb | print => exact ⟨⟨rfl, rfl, rfl, rfl, rfl⟩, by simp [Instr.gives, Instr.takes]⟩
  | func _ hle =>
    refine ⟨⟨rfl, rfl, rfl, rfl, rfl⟩, ?_⟩
    simp only [Instr.gives, Instr.takes, List.length_cons, List.length_drop]
    omega
  | field _ hstack hfinds =>
    have hle := hfinds.taken_le
    refine ⟨⟨rfl, rfl, rfl, rfl, rfl⟩, ?_⟩
    simp only [Instr.gives, Instr.takes, hstack, List.length_cons, List.length_drop]
    omega
  | declare hstack => exact ⟨⟨rfl, rfl, rfl, rfl, rfl⟩, by simp [Instr.gives, Instr.takes, hstack]⟩
  | assign hstack hassign =>
    exact ⟨⟨rfl, rfl, rfl, rfl, map_fst_assign? hassign⟩, by simp [Instr.gives, Instr.takes, hstack]⟩
  | _ => cases hi

end Machine

/-! ### Code -/

/-- Whether all instructions can be part of a pipeline. -/
def Straight (code : List Instr) : Prop := ∀ i ∈ code, i.isStraight

/-- The variables that code declares, the last one first. -/
def declaredBy (code : List Instr) : List Nat := (code.flatMap Instr.declares).reverse

/-- Whether straight-line code finds the values it may take when there are `before` of them, and
then leaves at least `after`. -/
def Leaves : (code : List Instr) → (before after : Nat) → Prop
  | [], before, after => after ≤ before
  | i :: code, before, after =>
    i.takes ≤ before ∧ Leaves code (before - i.takes + i.gives) after

/-- Straight-line code behind straight-line code is such code. -/
theorem Straight.append {code rest : List Instr} (hcode : Straight code) (hrest : Straight rest) :
    Straight (code ++ rest) := by
  intro i hi
  rcases List.mem_append.mp hi with hi | hi
  · exact hcode i hi
  · exact hrest i hi

/-- No code is straight-line code. -/
theorem straight_nil : Straight [] := fun _ hi => nomatch hi

/-- A straight-line instruction alone is straight-line code. -/
theorem straight_singleton {i : Instr} (hi : i.isStraight) : Straight [i] := by
  simp [Straight, hi]

/-- What is left of straight-line code behind its first instruction is such code. -/
theorem Straight.tail {i : Instr} {code : List Instr} (h : Straight (i :: code)) : Straight code :=
  fun j hj => h j (List.mem_cons_of_mem i hj)

/-- A part in front of straight-line code is such code. -/
theorem Straight.take {code : List Instr} (h : Straight code) (n : Nat) : Straight (code.take n) :=
  fun i hi => h i (List.mem_of_mem_take hi)

/-- The first instruction of straight-line code is a straight-line instruction. -/
theorem Straight.head {i : Instr} {code : List Instr} (h : Straight (i :: code)) : i.isStraight :=
  h i List.mem_cons_self

/-- Straight-line code is closed. -/
theorem Straight.closed {code : List Instr} (h : Straight code) : Closed code :=
  closed_of_distance? fun i hi => Instr.distance?_of_isStraight (h i hi)

/-- Code declares its variables behind those of the code in front of it. -/
@[simp]
theorem declaredBy_append (code rest : List Instr) :
    declaredBy (code ++ rest) = declaredBy rest ++ declaredBy code := by
  simp [declaredBy]

/-- An instruction in front declares its variable first. -/
theorem declaredBy_cons (i : Instr) (code : List Instr) :
    declaredBy (i :: code) = declaredBy code ++ i.declares := by
  cases i
  case setVar name assign => cases assign <;> simp [declaredBy, Instr.declares]
  all_goals simp [declaredBy, Instr.declares]

/-- More values in front leave more values behind. -/
theorem Leaves.mono {code : List Instr} {before after before' after' : Nat}
    (h : Leaves code before after) (hbefore : before ≤ before')
    (hafter : after' + before ≤ after + before') : Leaves code before' after' := by
  induction code generalizing before before' with
  | nil =>
    simp only [Leaves] at h ⊢
    omega
  | cons i code ih =>
    obtain ⟨htakes, hcode⟩ := h
    exact ⟨by omega, ih hcode (by omega) (by omega)⟩

/-- What code leaves may be used by the code behind it. -/
theorem Leaves.append {code rest : List Instr} {before between after : Nat}
    (hcode : Leaves code before between) (hrest : Leaves rest between after) :
    Leaves (code ++ rest) before after := by
  induction code generalizing before with
  | nil =>
    have hle : between ≤ before := hcode
    exact hrest.mono hle (by omega)
  | cons i code ih => exact ⟨hcode.1, ih hcode.2⟩

/-- Code that leaves at least as many values as another amount asks for. -/
theorem Leaves.weaken {code : List Instr} {before after after' : Nat} (h : Leaves code before after)
    (hle : after' ≤ after) : Leaves code before after' := h.mono (Nat.le_refl _) (by omega)

/-- An instruction leaves what it gives for what it takes. -/
theorem leaves_singleton {i : Instr} : Leaves [i] i.takes i.gives :=
  ⟨Nat.le_refl _, by simp [Leaves]⟩

/-- No code leaves what was there. -/
theorem leaves_nil (n : Nat) : Leaves [] n n := Nat.le_refl n

namespace Machine

variable {schema : Schema} {t : Tables} {i : Instr} {code : List Instr} {l l' m : Machine}
  {F : Frame} {before after : Nat}

/-- An instruction that does not jump is followed by the code behind it if it succeeds. -/
theorem steps_cons_eq_done_of_distance? (hi : i.distance? = none) :
    l.steps schema t (i :: code) = .done l' ↔
      ∃ l₁, l.step schema t i = .next l₁ ∧ l₁.steps schema t code = .done l' := by
  rw [steps]
  cases hstep : l.step schema t i with
  | next l₁ => simp
  | jump k l₁ =>
    rw [distance?_of_step_jump hstep] at hi
    cases hi
  | fail e l₁ => simp

/-- A straight-line instruction is followed by the code behind it if it succeeds. -/
theorem steps_cons_eq_done (hi : i.isStraight) :
    l.steps schema t (i :: code) = .done l' ↔
      ∃ l₁, l.step schema t i = .next l₁ ∧ l₁.steps schema t code = .done l' :=
  steps_cons_eq_done_of_distance? (Instr.distance?_of_isStraight hi)

/-- The step of an instruction that is on its own. -/
theorem steps_singleton_eq_done (hi : i.isStraight) :
    l.steps schema t [i] = .done l' ↔ l.step schema t i = .next l' := by
  rw [steps_cons_eq_done hi]
  constructor
  · rintro ⟨l₁, hstep, hend⟩
    cases hend
    exact hstep
  · exact fun hstep => ⟨l', hstep, rfl⟩

/-- Straight-line code leaves the stacks below its values alone. -/
theorem follows_steps (hcode : Straight code) (h : l.steps schema t code = .done l') :
    Follows (declaredBy code) l l' := by
  induction code generalizing l with
  | nil =>
    cases h
    exact Follows.refl _
  | cons i code ih =>
    obtain ⟨l₁, hstep, hrest⟩ := (steps_cons_eq_done hcode.head).mp h
    rw [declaredBy_cons]
    exact (follows_step hcode.head hstep).1.trans (ih hcode.tail hrest)

/-- Straight-line code leaves as many values as it is known to leave. -/
theorem le_length_steps (hcode : Straight code) (hleaves : Leaves code before after)
    (hbefore : before ≤ l.stack.length) (h : l.steps schema t code = .done l') :
    l.stack.length + after ≤ l'.stack.length + before := by
  induction code generalizing l before with
  | nil =>
    cases h
    have hle : after ≤ before := hleaves
    omega
  | cons i code ih =>
    obtain ⟨l₁, hstep, hrest⟩ := (steps_cons_eq_done hcode.head).mp h
    obtain ⟨htakes, hleaves⟩ := hleaves
    have hfirst := (follows_step hcode.head hstep).2
    have := ih hcode.tail hleaves (by omega) hrest
    omega

/-- Straight-line code that finds the values it may take does the same on top of other stacks. -/
theorem steps_above (hcode : Straight code) (hleaves : Leaves code before after)
    (hbefore : before ≤ l.stack.length) :
    (l.above F).steps schema t code = (l.steps schema t code).map (·.above F) := by
  induction code generalizing l before with
  | nil => rfl
  | cons i code ih =>
    obtain ⟨htakes, hleaves⟩ := hleaves
    rw [steps, steps, step_above hcode.head (by omega)]
    cases hstep : l.step schema t i with
    | next l₁ =>
      have hfirst := (follows_step hcode.head hstep).2
      exact ih hcode.tail hleaves (by omega)
    | jump k l₁ =>
      have := Instr.distance?_of_isStraight hcode.head
      rw [distance?_of_step_jump hstep] at this
      cases this
    | fail e l₁ => rfl

end Machine

/-- Running code that neither jumps nor calls templates is doing its steps. -/
theorem Env.runs_local (env : Env) {code : List Instr} (hcode : ∀ i ∈ code, i.isLocal) {m : Machine}
    {o : Outcome} : env.Runs code m o ↔ o = m.steps env.schema env.tables code := by
  induction code generalizing m with
  | nil =>
    rw [Env.runs_nil]
    exact Iff.rfl
  | cons i code ih =>
    rw [List.forall_mem_cons] at hcode
    obtain ⟨hi, hrest⟩ := hcode
    have hnone := Instr.distance?_of_isLocal hi
    have hclosed := closed_of_distance? fun j hj => Instr.distance?_of_isLocal (hrest j hj)
    rw [Machine.steps]
    cases hstep : m.step env.schema env.tables i with
    | next m' =>
      rw [runs_cons_of_step env hnone (Instr.ne_template_of_isLocal hi) (by rw [hstep]; rfl) hclosed]
      exact ih hrest
    | jump k m' =>
      rw [Machine.distance?_of_step_jump hstep] at hnone
      cases hnone
    | fail e m' =>
      rw [runs_cons_of_step env hnone (Instr.ne_template_of_isLocal hi) (by rw [hstep]; rfl) hclosed]
      exact Iff.rfl

/-- Running straight-line code is doing its steps. -/
theorem Env.runs_straight (env : Env) {code : List Instr} (hcode : Straight code) {m : Machine}
    {o : Outcome} : env.Runs code m o ↔ o = m.steps env.schema env.tables code :=
  env.runs_local fun i hi => Instr.isLocal_of_isStraight (hcode i hi)

end Stencil
