import Stencil.Proofs.Straight

/-!
# Arguments of calls

Which values a call takes. A call takes what lies on top of the stack, or on top of the receiver of a
method, and nothing tells where the values of one operand end. So it takes the values of its operands
if each of them has left its value and no more. How many values are left is not known for method calls
with arguments before they are run, but it is for all other code of pipelines.
-/

namespace Stencil

namespace Instr

/-- The number of arguments that an instruction takes if it is a call. -/
def argc : Instr → Nat
  | func argc _ | field argc _ => argc
  | _ => 0

/-- The number of receivers that lie on the arguments of an instruction. -/
def receivers : Instr → Nat
  | field .. => 1
  | _ => 0

/-- Whether an instruction looks a value up and does nothing else. -/
def isLookup : Instr → Bool
  | dot | val _ | string _ | var _ => true
  | _ => false

end Instr

namespace Machine

variable {schema : Schema} {t : Tables} {i : Instr} {m m' m₁ m₂ : Machine} {v : Value}
  {args values : List Value} {code rest : List Instr} {codes : List (List Instr)} {n : Nat}

/-- Whether an instruction calls a function or a method with the given arguments. A field access calls
the method that its name stands for on the value on top of the stack, if there is one. -/
inductive Calls (schema : Schema) (t : Tables) (m : Machine) : Instr → List Value → Prop where
  | function {argc index : Nat} {f : Function} {args : List Value} {m' : Machine}
      (hf : t.funcs[index]? = some f) (hargs : m.popArgs? argc = some (args, m')) :
      Calls schema t m (.func argc index) args
  | method {argc index : Nat} {name : String} {v receiver : Value} {stack args : List Value}
      {method : Method} {m' : Machine} (hname : t.strings[index]? = some name)
      (hstack : m.stack = v :: stack) (hmap : ∀ entries, v ≠ .map .text entries)
      (hmethod : v.method? schema name = some (method, receiver))
      (hargs : { m with stack := stack }.popArgs? argc = some (args, m')) :
      Calls schema t m (.field argc index) args

/-- The arguments of a call are checked and converted by the function or the method. -/
theorem Calls.step_eq (h : m.Calls schema t i args) :
    (∃ (f : Function) (m' : Machine), m.step schema t i = m'.pushResult (Call.function f args)) ∨
      ∃ (method : Method) (receiver : Value) (m' : Machine),
        m.step schema t i = m'.pushResult (Call.method method receiver args) := by
  cases h with
  | @function _ _ f _ m' hf hargs => exact .inl ⟨f, m', by simp only [step, hf, hargs]⟩
  | @method argc index name v receiver stack args method m' hname hstack hmap hmethod hargs =>
    refine .inr ⟨method, receiver, m', ?_⟩
    simp only [step, hname, hstack]
    unfold fieldOf
    split
    · next entries => exact absurd rfl (hmap entries)
    · simp only [hmethod, hargs]

/-- A call takes its arguments from the top of the stack, below the receiver. -/
theorem Calls.args_eq (h : m.Calls schema t i args) :
    i.receivers + i.argc ≤ m.stack.length ∧ args = (m.stack.drop i.receivers).take i.argc := by
  cases h with
  | function hf hargs =>
    obtain ⟨hle, hargs, -⟩ := popArgs?_eq_some hargs
    exact ⟨by simpa [Instr.receivers, Instr.argc] using hle, hargs⟩
  | @method argc _ _ _ _ stack _ _ _ _ hstack _ _ hargs =>
    obtain ⟨hle, hargs, -⟩ := popArgs?_eq_some hargs
    have hle : argc ≤ stack.length := hle
    rw [hstack, List.length_cons]
    exact ⟨by simp only [Instr.receivers, Instr.argc]; omega, hargs⟩

/-- Whether a machine has as many receivers on top of the values of an earlier one as an instruction
takes. -/
def Receives (i : Instr) (m m' : Machine) : Prop :=
  ∃ receivers : List Value, receivers.length = i.receivers ∧ m'.stack = receivers ++ m.stack

/-! ### Operands -/

/-- Whether codes, run from the last to the first, leave a value each and nothing else. -/
inductive Evaluates (schema : Schema) (t : Tables) :
    List (List Instr) → List Value → Machine → Machine → Prop where
  | nil (m : Machine) : Evaluates schema t [] [] m m
  | cons {code : List Instr} {codes : List (List Instr)} {v : Value} {values : List Value}
      {m m₁ m₂ : Machine} (hcodes : Evaluates schema t codes values m m₁)
      (hcode : m₁.steps schema t code = .done m₂) (hvalue : m₂.stack = v :: m₁.stack) :
      Evaluates schema t (code :: codes) (v :: values) m m₂

/-- Evaluated arguments lie on the stack. -/
theorem Evaluates.stack (h : Evaluates schema t codes values m m') : m'.stack = values ++ m.stack := by
  induction h with
  | nil => rfl
  | cons _ _ hvalue ih => rw [hvalue, ih, List.cons_append]

/-- Each code has one value. -/
theorem Evaluates.length (h : Evaluates schema t codes values m m') : values.length = codes.length := by
  induction h with
  | nil => rfl
  | cons _ _ _ ih => rw [List.length_cons, List.length_cons, ih]

/-- A call gets the values of its operands, and behind them what lies below. -/
theorem Calls.args_of_evaluates (h : m₂.Calls schema t i args)
    (hoperands : Evaluates schema t codes values m m₁) (hreceives : Receives i m₁ m₂)
    (hargc : i.argc = codes.length + n) :
    n ≤ m.stack.length ∧ args = values ++ m.stack.take n := by
  obtain ⟨receivers, hreceivers, hstack⟩ := hreceives
  obtain ⟨hle, hargs⟩ := h.args_eq
  have hlength := hoperands.length
  rw [hstack, hoperands.stack] at hle hargs
  simp only [List.length_append] at hle
  refine ⟨by omega, ?_⟩
  rw [hargs, ← hreceivers, List.drop_left, hargc, ← hlength, List.take_length_add_append]

/-! ### Code that leaves one value -/

/-- Whether code that finds `n` values has, wherever it comes to its end, put one value in their
place. -/
def Replaces (n : Nat) (code : List Instr) : Prop :=
  ∀ (schema : Schema) (t : Tables) (m m' : Machine), n ≤ m.stack.length →
    m.steps schema t code = .done m' → ∃ v, m'.stack = v :: m.stack.drop n

/-- No code leaves the one value that it finds. -/
theorem replaces_nil : Replaces 1 [] := by
  intro schema t m m' hle hsteps
  cases hsteps
  obtain ⟨v, stack, hstack⟩ := List.exists_cons_of_length_pos hle
  exact ⟨v, by rw [hstack, List.drop_one, List.tail_cons]⟩

/-- Code that needs what other code leaves can be put behind it. -/
theorem Replaces.append {k : Nat} (h : Replaces n code) (h' : Replaces (k + 1) rest) :
    Replaces (n + k) (code ++ rest) := by
  intro schema t m m' hle hsteps
  obtain ⟨m₁, hcode, hrest⟩ := (steps_append_eq_done rest).mp hsteps
  obtain ⟨v, hstack⟩ := h schema t m m₁ (by omega) hcode
  have hlength : k + 1 ≤ m₁.stack.length := by
    rw [hstack, List.length_cons, List.length_drop]
    omega
  obtain ⟨v', hstack'⟩ := h' schema t m₁ m' hlength hrest
  exact ⟨v', by rw [hstack', hstack, List.drop_succ_cons, List.drop_drop]⟩

/-- An instruction that looks a value up leaves it. -/
theorem replaces_lookup (hi : i.isLookup) : Replaces 0 [i] := by
  intro schema t m m' _ hsteps
  have hstraight : i.isStraight := by cases i <;> first | rfl | cases hi
  have hadvances := step_eq_next.mp ((steps_singleton_eq_done hstraight).mp hsteps)
  cases hadvances with
  | dot | val | string | var => exact ⟨_, rfl⟩
  | _ => cases hi

/-- A call of a function leaves its result in the place of its arguments. -/
theorem replaces_func (argc index : Nat) : Replaces argc [.func argc index] := by
  intro schema t m m' _ hsteps
  have hadvances := step_eq_next.mp ((steps_singleton_eq_done rfl).mp hsteps)
  cases hadvances with
  | func => exact ⟨_, rfl⟩

/-- A field access without arguments leaves its result in the place of the value. -/
theorem replaces_field (index : Nat) : Replaces 1 [.field 0 index] := by
  intro schema t m m' _ hsteps
  have hadvances := step_eq_next.mp ((steps_singleton_eq_done rfl).mp hsteps)
  cases hadvances with
  | field _ hstack hfinds =>
    obtain rfl := Nat.le_zero.mp hfinds.taken_le.1
    exact ⟨_, by rw [hstack]; rfl⟩

/-- A value that is bound to a variable is replaced by what is bound to a variable then. -/
theorem replaces_setVar (name other : Nat) (assign : Bool) :
    Replaces 1 [.setVar name assign, .var other] := by
  intro schema t m m' _ hsteps
  obtain ⟨m₁, hset, hvar⟩ := (steps_cons_eq_done rfl).mp hsteps
  obtain ⟨v, hstack⟩ := replaces_lookup rfl schema t m₁ m' (Nat.zero_le _) hvar
  have hadvances := step_eq_next.mp hset
  have hpopped : m₁.stack = m.stack.drop 1 := by
    cases hadvances with
    | declare htop | assign htop => rw [htop]; rfl
  exact ⟨v, by rw [hstack, hpopped, List.drop_zero]⟩

/-- Operands that leave one value each evaluate to their values. -/
theorem exists_evaluates (hcodes : ∀ code ∈ codes, Replaces 0 code)
    (h : m.steps schema t codes.reverse.flatten = .done m') :
    ∃ values, Evaluates schema t codes values m m' := by
  induction codes generalizing m' with
  | nil =>
    cases h
    exact ⟨[], .nil m⟩
  | cons code codes ih =>
    obtain ⟨hcode, hrest⟩ := List.forall_mem_cons.mp hcodes
    rw [List.reverse_cons, List.flatten_append, List.flatten_singleton] at h
    obtain ⟨m₁, hsteps, hlast⟩ := (steps_append_eq_done code).mp h
    obtain ⟨values, hvalues⟩ := ih hrest hsteps
    obtain ⟨v, hv⟩ := hcode schema t m₁ m' (Nat.zero_le _) hlast
    exact ⟨v :: values, .cons hvalues hlast hv⟩

/-- What takes the values of operands that leave one value each leaves its result in the place of
those below. -/
theorem replaces_operands (hcodes : ∀ code ∈ codes, Replaces 0 code)
    (hrest : Replaces (codes.length + n) rest) : Replaces n (codes.reverse.flatten ++ rest) := by
  intro schema t m m' hle hsteps
  obtain ⟨m₁, hoperands, hlast⟩ := (steps_append_eq_done rest).mp hsteps
  obtain ⟨values, hvalues⟩ := exists_evaluates hcodes hoperands
  have hlength := hvalues.length
  have hle₁ : codes.length + n ≤ m₁.stack.length := by
    rw [hvalues.stack, List.length_append, hlength]
    omega
  obtain ⟨v, hstack⟩ := hrest schema t m₁ m' hle₁ hlast
  exact ⟨v, by rw [hstack, hvalues.stack, ← hlength, List.drop_length_add_append]⟩

end Machine

end Stencil
