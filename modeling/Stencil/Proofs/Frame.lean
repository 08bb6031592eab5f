import Stencil.Proofs.Execution

/-!
# Frames

What lies on the stacks of a machine below the values that a piece of code works on. The code of
pipelines works on the values it has pushed itself, so it does the same on top of any other stacks
as long as it takes no more values than it has pushed.
-/

namespace Stencil

/-- The stacks of a machine without its variables. -/
structure Frame where
  stack : List Value
  marks : List Nat
  dots : List Value
  iterations : List Iteration

namespace Frame

/-- Empty stacks. -/
def empty : Frame := ⟨[], [], [], []⟩

end Frame

namespace Machine

/-- The stacks of a machine without its variables. -/
def frame (m : Machine) : Frame := ⟨m.stack, m.marks, m.dots, m.iterations⟩

/-- The machine with other stacks. -/
def within (m : Machine) (F : Frame) : Machine :=
  { m with stack := F.stack, marks := F.marks, dots := F.dots, iterations := F.iterations }

/-- The machine with its values on top of other stacks. -/
def above (m : Machine) (F : Frame) : Machine := { m.within F with stack := m.stack ++ F.stack }

/-- The machine with nothing on its stacks but its variables. -/
def bare (m : Machine) : Machine := m.within .empty

/-- The names of the variables of a machine, the innermost first. -/
def names (m : Machine) : List Nat := m.bindings.map Prod.fst

section

variable (m : Machine) (F G : Frame)

/-- A machine that has been given stacks has them. -/
@[simp]
theorem frame_within : (m.within F).frame = F := rfl

/-- A machine with its own stacks is unchanged. -/
@[simp]
theorem within_frame : m.within m.frame = m := rfl

/-- Only the stacks given last count. -/
@[simp]
theorem within_within : (m.within F).within G = m.within G := rfl

/-- Without its stacks a machine is what it was without others. -/
@[simp]
theorem bare_within : (m.within F).bare = m.bare := rfl

/-- What lies above other values is in front of them. -/
@[simp]
theorem stack_above : (m.above F).stack = m.stack ++ F.stack := rfl

/-- The stacks have no say in which variables are bound. -/
@[simp]
theorem names_within : (m.within F).names = m.names := rfl

/-- Neither does taking the stacks away. -/
@[simp]
theorem names_bare : m.bare.names = m.names := rfl

/-- On top of its own stacks a machine without values is itself. -/
theorem bare_above_frame : m.bare.above m.frame = m := rfl

end

end Machine

namespace Step

/-- Change the machine of a step. -/
def map (f : Machine → Machine) : Step → Step
  | next m => next (f m)
  | jump k m => jump k (f m)
  | fail e m => fail e (f m)

end Step

namespace Instr

/-- Whether an instruction can be part of a pipeline. -/
def isStraight : Instr → Bool
  | field .. | func .. | dot | print | setVar .. | string _ | val _ | var _ | wb _ => true
  | _ => false

/-- Whether an instruction does nothing but to replace values by another one, which they tell. -/
def computes : Instr → Bool
  | field .. | func .. | string _ | val _ => true
  | _ => false

/-- The most values that an instruction of a pipeline takes. -/
def takes : Instr → Nat
  | field argc _ => argc + 1
  | func argc _ => argc
  | print | setVar .. => 1
  | _ => 0

/-- The number of values that an instruction of a pipeline leaves if it takes as many as it can. -/
def gives : Instr → Nat
  | field .. | func .. | dot | print | string _ | val _ | var _ => 1
  | _ => 0

end Instr

namespace Machine

variable {schema : Schema} {t : Tables} {i : Instr} {code : List Instr} {l m : Machine} {F : Frame}

/-! ### Values on top of others -/

/-- Whether a change of machines puts the values of a machine on top of others. -/
def Overlays (g : Machine → Machine) (base : List Value) : Prop :=
  ∀ (m : Machine) (stack : List Value), g { m with stack := stack } = { g m with stack := stack ++ base }

/-- Whether a change of machines leaves the output to the machine that is changed. -/
def WritesThrough (g : Machine → Machine) : Prop :=
  ∀ (m : Machine) (sink : Sink), (g m).sink = m.sink ∧ g { m with sink := sink } = { g m with sink := sink }

/-- Putting a machine above stacks puts its values on top of those of the stacks. -/
theorem overlays_above (F : Frame) : Overlays (above · F) F.stack := fun _ _ => rfl

/-- A machine writes the same above other stacks. -/
theorem writesThrough_above (F : Frame) : WritesThrough (above · F) := fun _ _ => ⟨rfl, rfl⟩

section

variable {g : Machine → Machine} {base : List Value}

/-- Writing goes through to the sink, whatever lies below. -/
theorem WritesThrough.write (hg : WritesThrough g) (bytes : ByteArray) :
    (g m).write bytes = (m.write bytes).map g := by
  unfold Machine.write
  rw [(hg m m.sink).1]
  cases m.sink.write bytes with
  | mk sink failure =>
    have hsink := (hg m sink).2
    cases failure with
    | none => exact congrArg Step.next hsink.symm
    | some failure => exact congrArg (Step.fail (.write failure)) hsink.symm

/-- What is printed is told by the output alone. -/
theorem WritesThrough.print (hg : WritesThrough g) (v : Value) :
    (g m).print schema v = (m.print schema v).map g := by
  rw [print_eq, print_eq]
  cases v.printed schema with
  | error e => rfl
  | ok s => exact hg.write s.toUTF8

namespace Overlays

/-- The stack has the values that have been put below. -/
theorem stack_eq (hg : Overlays g base) (m : Machine) : (g m).stack = m.stack ++ base :=
  congrArg (·.stack) (hg m m.stack)

/-- A value is pushed on top, whatever lies below. -/
theorem push (hg : Overlays g base) (v : Value) : (g m).push v = g (m.push v) := by
  rw [Machine.push, hg.stack_eq]
  exact (hg m (v :: m.stack)).symm

/-- A result is pushed on top, whatever lies below. -/
theorem pushResult (hg : Overlays g base) (r : Except RuntimeError Value) :
    (g m).pushResult r = (m.pushResult r).map g := by
  cases r with
  | ok v => exact congrArg Step.next (hg.push v)
  | error e => rfl

/-- Where nothing lies below, or enough values are on top, the same arguments are popped. -/
theorem popArgs? {argc : Nat} (hg : Overlays g base) (h : base = [] ∨ argc ≤ m.stack.length) :
    (g m).popArgs? argc = (m.popArgs? argc).map fun r => (r.1, g r.2) := by
  by_cases hargc : argc ≤ m.stack.length
  · have hargc' : argc ≤ (g m).stack.length := by
      rw [hg.stack_eq, List.length_append]
      omega
    rw [Machine.popArgs?, Machine.popArgs?, if_pos hargc, if_pos hargc', hg.stack_eq,
      List.take_append_of_le_length hargc, List.drop_append_of_le_length hargc]
    exact congrArg (fun m' => some (m.stack.take argc, m')) (hg m (m.stack.drop argc)).symm
  · have hbase : base = [] := h.resolve_right hargc
    have hargc' : ¬argc ≤ (g m).stack.length := by rwa [hg.stack_eq, hbase, List.append_nil]
    rw [Machine.popArgs?, Machine.popArgs?, if_neg hargc, if_neg hargc', Option.map_none]

/-- A look-up does the same, unless it calls a method on values that lie below. -/
theorem fieldOf {name : String} {argc : Nat} {v : Value} (hg : Overlays g base) :
    (g m).fieldOf schema name argc v = (m.fieldOf schema name argc v).map g ∨
      base ≠ [] ∧ m.stack.length < argc ∧ (v.method? schema name).isSome ∧
        m.fieldOf schema name argc v = m.invalid "stack underflow" := by
  unfold Machine.fieldOf
  split
  · exact .inl (congrArg Step.next (hg.push _))
  · split
    · next hmethod =>
      by_cases h : base = [] ∨ argc ≤ m.stack.length
      · rw [hg.popArgs? h]
        left
        cases m.popArgs? argc with
        | none => rfl
        | some r => exact hg.pushResult _
      · rw [not_or, Nat.not_le] at h
        right
        refine ⟨h.1, h.2, by rw [hmethod]; rfl, ?_⟩
        rw [Machine.popArgs?, if_neg (Nat.not_le.mpr h.2)]
    · split
      · exact .inl (congrArg Step.next (hg.push _))
      · exact .inl (hg.pushResult _)

/-- An instruction that computes a value does the same, unless it takes values that lie below. -/
theorem step (hg : Overlays g base) (hi : i.computes) :
    (g m).step schema t i = (m.step schema t i).map g ∨
      base ≠ [] ∧ m.stack.length < i.takes ∧
        ∃ reason m', m.step schema t i = .fail (.invalidCode reason) m' := by
  cases i <;> simp only [Instr.computes, Bool.false_eq_true] at hi
  case string index =>
    simp only [Machine.step]
    cases t.texts[index]? with
    | none => exact .inl rfl
    | some s => exact .inl (congrArg Step.next (hg.push _))
  case val index =>
    simp only [Machine.step]
    cases t.values[index]? with
    | none => exact .inl rfl
    | some v => exact .inl (congrArg Step.next (hg.push _))
  case func argc index =>
    simp only [Machine.step]
    cases t.funcs[index]? with
    | none => exact .inl rfl
    | some f =>
      by_cases h : base = [] ∨ argc ≤ m.stack.length
      · simp only [hg.popArgs? h]
        left
        cases m.popArgs? argc with
        | none => rfl
        | some r => exact hg.pushResult _
      · rw [not_or, Nat.not_le] at h
        simp only [Machine.popArgs?, if_neg (Nat.not_le.mpr h.2)]
        exact .inr ⟨h.1, h.2, _, _, rfl⟩
  case field argc index =>
    simp only [Machine.step]
    cases t.strings[index]? with
    | none => exact .inl rfl
    | some name =>
      simp only
      cases hstack : m.stack with
      | nil =>
        by_cases hbase : base = []
        · rw [hg.stack_eq, hstack, hbase]
          exact .inl rfl
        · exact .inr ⟨hbase, Nat.succ_pos _, _, _, rfl⟩
      | cons v below =>
        rw [hg.stack_eq, hstack, List.cons_append]
        rcases hg.fieldOf (m := { m with stack := below }) with h | ⟨hbase, hlt, -, hinvalid⟩
        · rw [hg m below] at h
          exact .inl h
        · exact .inr ⟨hbase, Nat.succ_lt_succ hlt, _, _, hinvalid⟩

end Overlays

end

/-- An instruction that finds the values it may take does the same on top of other stacks. -/
theorem step_above (hi : i.isStraight) (htakes : i.takes ≤ l.stack.length) :
    (l.above F).step schema t i = (l.step schema t i).map (·.above F) := by
  have hcomputes (hi : i.computes) :
      (l.above F).step schema t i = (l.step schema t i).map (·.above F) :=
    ((overlays_above F).step hi).resolve_right fun h => Nat.not_le.mpr h.2.1 htakes
  cases i <;> simp only [Instr.isStraight, Bool.false_eq_true] at hi
  case dot => rfl
  case string | val | func | field => exact hcomputes rfl
  case wb index =>
    simp only [step]
    cases t.chunks[index]? with
    | none => rfl
    | some bytes => exact (writesThrough_above F).write bytes
  case var name =>
    have hbindings : (l.above F).bindings = l.bindings := rfl
    simp only [step, hbindings]
    cases Bindings.get? name l.bindings <;> rfl
  case print =>
    obtain ⟨v, stack, hstack⟩ : ∃ v stack, l.stack = v :: stack :=
      List.exists_cons_of_length_pos htakes
    have hstop : (l.above F).stack = v :: (stack ++ F.stack) := by simp [hstack]
    simp only [step, hstop, hstack]
    exact (writesThrough_above F).print v
  case setVar name assign =>
    obtain ⟨v, stack, hstack⟩ : ∃ v stack, l.stack = v :: stack :=
      List.exists_cons_of_length_pos htakes
    have hstop : (l.above F).stack = v :: (stack ++ F.stack) := by simp [hstack]
    have hbindings : (l.above F).bindings = l.bindings := rfl
    simp only [step, hstop, hstack, hbindings]
    cases assign with
    | false => rfl
    | true => cases Bindings.assign? name v l.bindings <;> rfl

end Machine
end Stencil
