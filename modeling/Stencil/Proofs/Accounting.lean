import Stencil.Proofs.Balance
import Stencil.Proofs.Points

/-!
# Exact stack accounting

What the accounting of stacks says of code is what happens when it runs. If no instruction is a field access,
the depth of the stack changes by exactly as much as counted, so code that has been balanced leaves it as it
was. With field accesses only the run knows how many values are taken; between a `MARK` and a `POP 0` such
code leaves the stack as it was, provided it did not touch what lay there.
-/

namespace Stencil

namespace Instr

/-- Whether an instruction may be part of code that the accounting is about. -/
def isAccounted (i : Instr) : Bool := i.isCounted || i.isField

/-- The number of values that an instruction pushes behind those that it has taken. -/
def results (i : Instr) : Nat := if i.isField then 1 else i.pushes

/-- Instructions that are accounted for do not leave their code. -/
theorem isLocal_of_isAccounted {i : Instr} (hi : i.isAccounted) : i.isLocal := by
  cases i <;> first | rfl | cases hi

end Instr

/-- Whether a run never has fewer values than `depth` on its stack. An instruction takes its operands before
it pushes its results, so what counts is the depth in between: a call that takes a value from below and
pushes its result in its place has been below. -/
def Program.StaysAbove (p : Program) (depth : Nat) (start : Point) : Prop :=
  ∀ P i m, p.Reaches start P → P.code[P.pc]? = some i →
    P.machine.step p.schema p.tables i = .next m → depth + i.results ≤ m.stack.length

variable {p : Program} {schema : Schema} {t : Tables} {i : Instr} {code : List Instr} {f g : Fragment}
  {m l l' : Machine}

/-! ### Counting -/

namespace Instr

/-- What is counted is accounted for. -/
theorem isAccounted_of_isCounted (hi : i.isCounted) : i.isAccounted := by
  rw [isAccounted, hi, Bool.true_or]

/-- What is counted is no field access. -/
theorem isField_of_isCounted (hi : i.isCounted) : i.isField = false := by
  cases i <;> first | rfl | cases hi

/-- An instruction that is counted pushes as many results as counted. -/
theorem results_of_isCounted (hi : i.isCounted) : i.results = i.pushes := by
  rw [results, isField_of_isCounted hi]
  rfl

end Instr

namespace Fragment

/-- The instructions of a fragment are those in its code. -/
theorem mem_instrs (f : Fragment) : i ∈ f.instrs ↔ i ∈ f.code := Array.mem_toList_iff

/-- Code that is accounted for has no MARK at its end. -/
theorem endsAtMark_of_isAccounted (hcode : ∀ i ∈ f.code, i.isAccounted) : f.endsAtMark = false := by
  rw [endsAtMark, last?_eq, beq_eq_false_iff_ne]
  intro hlast
  have hpop := hcode _ (f.mem_instrs.mp (List.mem_of_getLast? hlast))
  cases hpop

/-- Code that is counted has no field access. -/
theorem any_isField_of_isCounted (hcode : ∀ i ∈ f.code, i.isCounted) :
    f.instrs.any Instr.isField = false := by
  rw [List.any_eq_false]
  intro i hi
  rw [Instr.isField_of_isCounted (hcode i (f.mem_instrs.mp hi))]
  exact Bool.false_ne_true

/-- The pushes of counted code are known, and they are the sum over its instructions. -/
theorem pushes_of_isCounted (hcode : ∀ i ∈ f.code, i.isCounted) : f.pushes = some (pushed f.instrs) := by
  have hend : f.endsAtMark = false :=
    endsAtMark_of_isAccounted fun i hi => Instr.isAccounted_of_isCounted (hcode i hi)
  rw [pushes_of_endsAtMark hend, any_isField_of_isCounted hcode]
  rfl

/-- The pops of counted code are the sum over its instructions. -/
theorem pops_of_isCounted (hcode : ∀ i ∈ f.code, i.isCounted) : f.pops = popped f.instrs :=
  pops_of_endsAtMark (endsAtMark_of_isAccounted fun i hi => Instr.isAccounted_of_isCounted (hcode i hi))

/-- Balancing adds a `POP` of as many values as are left, if there are any. -/
theorem balance_of_isCounted (hcode : ∀ i ∈ f.code, i.isCounted) (h : f.balance = .ok g) :
    (∀ i ∈ g.code, i.isCounted) ∧ pushed g.instrs = popped g.instrs := by
  rw [balance, pushes_of_isCounted hcode, pops_of_isCounted hcode] at h
  simp only at h
  split at h
  · cases h
  split at h
  · next hequal =>
    cases h
    exact ⟨hcode, hequal⟩
  split at h
  · cases h
    obtain ⟨n, hn⟩ : ∃ n, pushed f.instrs - popped f.instrs = n + 1 :=
      Nat.exists_eq_add_one.mpr (by omega)
    rw [hn]
    constructor
    · intro i hi
      rcases Array.mem_push.mp hi with hi | rfl
      · exact hcode i hi
      · rfl
    · have hpushed : pushed (f.instrs ++ [.pop (n + 1)]) = pushed f.instrs := total_append _ _ _
      have hpopped : popped (f.instrs ++ [.pop (n + 1)]) = popped f.instrs + (n + 1) := total_append _ _ _
      rw [instrs_push, hpushed, hpopped]
      omega
  · cases h

/-- Only code that takes more values than it pushes cannot be balanced for that reason. -/
theorem balance_eq_unbalanced_iff (hcode : ∀ i ∈ f.code, i.isCounted) {effect : Int} :
    f.balance = .error (.unbalanced effect) ↔
      effect = (pushed f.instrs : Int) - popped f.instrs ∧ effect < 0 := by
  rw [balance, pushes_of_isCounted hcode, pops_of_isCounted hcode]
  simp only
  split
  · constructor
    · intro h
      cases h
      omega
    · rintro ⟨rfl, -⟩
      rfl
  · have hnot : ¬(effect = (pushed f.instrs : Int) - popped f.instrs ∧ effect < 0) := by omega
    split
    · simpa using hnot
    split <;> simpa using hnot

/-- Code with a field access is put between a `MARK` and a `POP` back to it. -/
theorem balance_of_isField (hcode : ∀ i ∈ f.code, i.isAccounted) (hfield : f.code.any Instr.isField) :
    f.balance = .ok ((f.prepend .mark).push (.pop 0)) := by
  have hinstrs : f.instrs.any Instr.isField = true := by
    rw [← hfield, instrs, Array.any_toList]
  rw [balance, pushes_of_endsAtMark (endsAtMark_of_isAccounted hcode), hinstrs]
  rfl

end Fragment

/-! ### Running -/

/-- Running a template whose code neither jumps nor calls templates is doing its steps. -/
theorem Program.steps_of_runFrom {name : String} {u : CompiledTemplate} {fuel : Nat}
    (hcode : ∀ i ∈ u.code, i.isLocal) (h : p.runFrom fuel name u 0 l = .done l') :
    l.steps p.schema p.tables u.code.toList = .done l' := by
  have hruns : p.RunsFrom name u 0 l (.done l') := ⟨fuel, by rw [RunsWithin, h]; rfl⟩
  rw [Program.runsFrom_eq] at hruns
  exact ((p.env.runs_local fun i hi => hcode i (Array.mem_toList_iff.mp hi)).mp hruns).symm

namespace Machine

/-- What lies below the values that an instruction leaves in between is still there. -/
theorem Exchanges.suffix {taken given : Nat} {below : List Value} (h : Exchanges taken given l l')
    (hbelow : below <:+ l.stack) (hdepth : below.length + given ≤ l'.stack.length) :
    below <:+ l'.stack := by
  obtain ⟨top, hstack⟩ := hbelow
  obtain ⟨results, hresults, hstack'⟩ := h.stack
  have hlength := h.length
  have htaken : taken ≤ top.length := by
    rw [← hstack, List.length_append] at hlength
    omega
  rw [hstack', ← hstack, List.drop_append_of_le_length htaken, ← List.append_assoc]
  exact List.suffix_append _ _

/-- An instruction takes so many values as it takes and pushes as many as it is known to push. -/
theorem exchanges_of_isAccounted (hi : i.isAccounted) (h : l.step schema t i = .next l') :
    ∃ taken, Exchanges taken i.results l l' := by
  rcases Bool.or_eq_true_iff.mp hi with hcounted | hfield
  · rw [Instr.results_of_isCounted hcounted]
    exact ⟨_, exchanges_step hcounted h⟩
  · cases i with
    | field argc name => exact exchanges_field h
    | _ => cases hfield

end Machine

namespace Program

/-- Wherever a run through code that neither jumps nor calls templates gets, it has done the steps of the code
in front. -/
theorem Reaches.steps_take {chain : List String} {P : Point} (hcode : ∀ i ∈ code, i.isLocal)
    (h : p.Reaches ⟨chain, code, 0, l⟩ P) :
    P.code = code ∧ l.steps p.schema p.tables (code.take P.pc) = .done P.machine := by
  induction h with
  | refl => exact ⟨rfl, rfl⟩
  | @next P i m _ hi hdo ih =>
    obtain ⟨hsame, hsteps⟩ := ih
    rw [hsame] at hi
    have hlocal := hcode i (List.mem_of_getElem? hi)
    have hstep := (Env.instr_eq_done (Instr.ne_template_of_isLocal hlocal)).mp hdo
    refine ⟨hsame, ?_⟩
    rw [List.take_add_one, hi, Machine.steps_append_eq_done]
    exact ⟨P.machine, hsteps,
      (Machine.steps_cons_eq_done_of_distance? (Instr.distance?_of_isLocal hlocal)).mpr ⟨m, hstep, rfl⟩⟩
  | @jump P i m k target _ hi hstep _ ih =>
    rw [ih.1] at hi
    have hnone := Instr.distance?_of_isLocal (hcode i (List.mem_of_getElem? hi))
    rw [Machine.distance?_of_step_jump hstep] at hnone
    cases hnone
  | call _ hi _ _ ih =>
    rw [ih.1] at hi
    exact absurd rfl (Instr.ne_template_of_isLocal (hcode _ (List.mem_of_getElem? hi)) _ _)

/-- A run through code of which the accounting knows what each instruction pushes keeps what lay below the
depth that it stays above, and the depths that were marked. -/
theorem StaysAbove.keeps {start : Point} {chain : List String} {front rest : List Instr} {below : List Value}
    (habove : p.StaysAbove below.length start)
    (hreach : p.Reaches start ⟨chain, front ++ code ++ rest, front.length, l⟩)
    (hcode : ∀ i ∈ code, i.isAccounted) (hbelow : below <:+ l.stack)
    (h : l.steps p.schema p.tables code = .done l') : below <:+ l'.stack ∧ l'.marks = l.marks := by
  induction code generalizing front l with
  | nil =>
    cases h
    exact ⟨hbelow, rfl⟩
  | cons i code ih =>
    obtain ⟨hi, hcode⟩ := List.forall_mem_cons.mp hcode
    have hlocal := Instr.isLocal_of_isAccounted hi
    obtain ⟨l₁, hstep, hrest⟩ :=
      (Machine.steps_cons_eq_done_of_distance? (Instr.distance?_of_isLocal hlocal)).mp h
    have hget : (front ++ i :: code ++ rest)[front.length]? = some i := by simp
    obtain ⟨taken, hexchange⟩ := Machine.exchanges_of_isAccounted hi hstep
    have hbelow : below <:+ l₁.stack := hexchange.suffix hbelow (habove _ _ _ hreach hget hstep)
    have hnext := hreach.next hget
      ((Env.instr_eq_done (Instr.ne_template_of_isLocal hlocal)).mpr hstep)
    have hwhole : front ++ i :: code ++ rest = (front ++ [i]) ++ code ++ rest := by simp
    have hlength : front.length + 1 = (front ++ [i]).length := by simp
    simp only [hwhole, hlength] at hnext
    obtain ⟨hkept, hmarks⟩ := ih hnext hcode hbelow hrest
    exact ⟨hkept, hmarks.trans hexchange.marks⟩

/-- Between a `MARK` and a `POP` back to it code leaves the stack and the marks as they were, if it keeps
what lies below. -/
theorem StaysAbove.marked {name : String} {u : CompiledTemplate} {fuel : Nat}
    (habove : p.StaysAbove l.stack.length ⟨[name], u.code.toList, 0, l⟩)
    (hu : u.code.toList = [.mark] ++ code ++ [.pop 0]) (hcode : ∀ i ∈ code, i.isAccounted)
    (h : p.runFrom fuel name u 0 l = .done l') : l'.stack = l.stack ∧ l'.marks = l.marks := by
  have hlocal : ∀ i ∈ u.code, i.isLocal := by
    intro i hi
    rw [← Array.mem_toList_iff, hu] at hi
    rcases List.mem_append.mp hi with hi | hi
    · rcases List.mem_cons.mp hi with rfl | hi
      · rfl
      · exact Instr.isLocal_of_isAccounted (hcode i hi)
    · rw [List.mem_singleton.mp hi]
      rfl
  have hsteps := steps_of_runFrom hlocal h
  rw [hu, Machine.steps_append_eq_done] at hsteps
  obtain ⟨l₁, hinner, hpop⟩ := hsteps
  have hinner : Machine.steps p.schema p.tables code { l with marks := l.stack.length :: l.marks } =
      .done l₁ := hinner
  rw [hu] at habove
  have hget : ([.mark] ++ code ++ [.pop 0])[0]? = some Instr.mark := by simp
  have hstart : p.Reaches ⟨[name], [.mark] ++ code ++ [.pop 0], 0, l⟩
      ⟨[name], [.mark] ++ code ++ [.pop 0], [Instr.mark].length,
        { l with marks := l.stack.length :: l.marks }⟩ :=
    .next .refl hget ((Env.instr_eq_done (fun _ _ => Instr.noConfusion)).mpr rfl)
  obtain ⟨⟨top, hstack⟩, hmarks⟩ := habove.keeps hstart hcode (List.suffix_refl _) hinner
  simp only [Machine.steps, Machine.step, hmarks] at hpop
  cases hpop
  exact ⟨by rw [← hstack, keepBottom_append], rfl⟩

end Program

/-- Wherever code without a field access runs to its end, the depth of the stack changes as counted. -/
theorem Fragment.length_of_runFrom {fuel : Nat} {name : String} {u : CompiledTemplate}
    (hcode : ∀ i ∈ f.code, i.isCounted) (hu : u.code = f.code) (h : p.runFrom fuel name u 0 l = .done l') :
    l'.stack.length + popped f.instrs = l.stack.length + pushed f.instrs := by
  have hlocal : ∀ i ∈ u.code, i.isLocal := fun i hi =>
    Instr.isLocal_of_isAccounted (Instr.isAccounted_of_isCounted (hcode i (hu ▸ hi)))
  have hsteps := Program.steps_of_runFrom hlocal h
  rw [hu] at hsteps
  exact Machine.length_steps_of_isCounted (fun i hi => hcode i (f.mem_instrs.mp hi)) hsteps

/-- The accounting of stacks is exact.

If no instruction of code is a field access, then wherever the code runs to its end the depth of the stack
changes by what it is known to push less what it is known to pop. So it stays the same if the code has been
balanced, and balancing is refused as unbalanced just if the depth would get smaller.

If there are field accesses, balancing puts the code between a `MARK` and a `POP` back to it. Wherever that
runs to its end without ever having fewer values on the stack than at its start, it leaves the stack and the
marked depths as they were. -/
theorem stack_accounting_is_exact (p : Program) (f : Fragment) :
    ((∀ i ∈ f.code, i.isCounted) →
      ∃ pushed, f.pushes = some pushed ∧
        (∀ fuel name u m m', u.code = f.code → p.runFrom fuel name u 0 m = .done m' →
          m'.stack.length + f.pops = m.stack.length + pushed) ∧
        (∀ g fuel name u m m', f.balance = .ok g → u.code = g.code →
          p.runFrom fuel name u 0 m = .done m' → m'.stack.length = m.stack.length) ∧
        ∀ effect, f.balance = .error (.unbalanced effect) ↔
          effect = (pushed : Int) - f.pops ∧ effect < 0) ∧
    ((∀ i ∈ f.code, i.isCounted ∨ i.isField) → f.code.any Instr.isField →
      ∃ g, f.balance = .ok g ∧ g.code = #[.mark] ++ f.code ++ #[.pop 0] ∧
        ∀ fuel name u m m', u.code = g.code → p.runFrom fuel name u 0 m = .done m' →
          p.StaysAbove m.stack.length ⟨[name], u.code.toList, 0, m⟩ →
          m'.stack = m.stack ∧ m'.marks = m.marks) := by
  constructor
  · intro hcode
    refine ⟨_, Fragment.pushes_of_isCounted hcode, ?_, ?_, ?_⟩
    · intro fuel name u m m' hu h
      rw [Fragment.pops_of_isCounted hcode]
      exact Fragment.length_of_runFrom hcode hu h
    · intro g fuel name u m m' hbalance hu h
      obtain ⟨hcode', hequal⟩ := Fragment.balance_of_isCounted hcode hbalance
      have hcount := Fragment.length_of_runFrom hcode' hu h
      omega
    · intro effect
      rw [Fragment.pops_of_isCounted hcode]
      exact Fragment.balance_eq_unbalanced_iff hcode
  · intro hcode hfield
    have hcode : ∀ i ∈ f.code, i.isAccounted := fun i hi => Bool.or_eq_true_iff.mpr (hcode i hi)
    refine ⟨_, Fragment.balance_of_isField hcode hfield, rfl, ?_⟩
    intro fuel name u m m' hu h habove
    have hcode : ∀ i ∈ f.instrs, i.isAccounted := fun i hi => hcode i (f.mem_instrs.mp hi)
    have hu : u.code.toList = [.mark] ++ f.instrs ++ [.pop 0] := by
      rw [hu, Fragment.push, Fragment.prepend, Array.toList_push, Array.toList_append]
      rfl
    exact habove.marked hu hcode h

namespace Sample

/-- A program without templates that has a name and a constant. -/
def named : Program :=
  ⟨.plain, { Tables.empty with strings := #["a"], values := #[.int 1] }, .empty, "main"⟩

/-- A constant is pushed twice and popped once. -/
def surplus : Fragment := .ofCode #[.val 0, .val 0, .pop 1]

/-- An entry of the dot is looked up. -/
def lookup : Fragment := .ofCode #[.dot, .field 0 0]

/-- A machine with a value on its stack and an entry in its dot. -/
def entered : Machine :=
  { Machine.fresh .unlimited .none with stack := [.int 5], dot := .map .text [(.text "a", .int 2)] }

/-- A look-up of a field stays above the mark. -/
theorem staysAbove_lookup :
    named.StaysAbove 1 ⟨["main"], [.mark, .dot, .field 0 0, .pop 0], 0, entered⟩ := by
  intro P i m hreach hi hstep
  have hlocal : ∀ i ∈ [Instr.mark, .dot, .field 0 0, .pop 0], i.isLocal := by decide
  obtain ⟨hcode, hsteps⟩ := hreach.steps_take hlocal
  rw [hcode] at hi
  obtain ⟨pc, hpc⟩ : ∃ pc, P.pc = pc := ⟨_, rfl⟩
  rw [hpc] at hi hsteps
  match pc with
  | 0 | 1 | 2 | 3 =>
    obtain rfl := Option.some.inj hi
    rw [← Outcome.done.inj hsteps] at hstep
    rw [← Step.next.inj hstep]
    decide
  | _ + 4 => cases hi

end Sample

/-- One of two constants is left if the other one is popped. Looking up an entry between a `MARK` and a `POP`
back to it leaves the value that was there. -/
theorem stack_accounting_is_exact_sample :
    (∀ i ∈ Sample.surplus.code, i.isCounted) ∧
    Sample.named.runFrom 4 "main" ⟨Sample.surplus.code, #[], none⟩ 0 Sample.entered =
      .done { Sample.entered with stack := [.int 1, .int 5] } ∧
    (∃ pushed, Sample.surplus.pushes = some pushed ∧ 2 + Sample.surplus.pops = 1 + pushed) ∧
    (∀ i ∈ Sample.lookup.code, i.isCounted ∨ i.isField) ∧
    ∃ g, Sample.lookup.balance = .ok g ∧ ∃ m, m.stack = [.int 5] ∧ m.marks = [] ∧
      Sample.named.runFrom 5 "main" ⟨g.code, #[], none⟩ 0 Sample.entered = .done m := by
  obtain ⟨hcounted, -⟩ := stack_accounting_is_exact Sample.named Sample.surplus
  obtain ⟨-, haccounted⟩ := stack_accounting_is_exact Sample.named Sample.lookup
  have hconstants : ∀ i ∈ Sample.surplus.code, i.isCounted := by decide
  have hlookup : ∀ i ∈ Sample.lookup.code, i.isCounted ∨ i.isField := by decide
  have hrun : Sample.named.runFrom 4 "main" ⟨Sample.surplus.code, #[], none⟩ 0 Sample.entered =
      .done { Sample.entered with stack := [.int 1, .int 5] } := rfl
  obtain ⟨pushed, hpushes, hdepth, -⟩ := hcounted hconstants
  have hfield : Sample.lookup.code.any Instr.isField := by
    simp [Sample.lookup, Fragment.ofCode, Instr.isField]
  obtain ⟨g, hbalance, hcode, hkeeps⟩ := haccounted hlookup hfield
  have hrun' : Sample.named.runFrom 5 "main" ⟨g.code, #[], none⟩ 0 Sample.entered =
      .done { Sample.entered with marks := [] } := by
    rw [hcode]
    rfl
  have habove : Sample.named.StaysAbove 1 ⟨["main"], g.code.toList, 0, Sample.entered⟩ := by
    rw [hcode]
    exact Sample.staysAbove_lookup
  obtain ⟨hstack, hmarks⟩ := hkeeps _ _ _ _ _ rfl hrun' habove
  exact ⟨hconstants, hrun, ⟨pushed, hpushes, hdepth _ _ _ _ _ rfl hrun⟩, hlookup,
    g, hbalance, _, hstack, hmarks, hrun'⟩

end Stencil
