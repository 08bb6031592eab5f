import Stencil.Machine.Step
import Stencil.Program

/-!
# Runs

Running a template to its end, and running a piece of code on its own. A template call runs the
callee on the same machine with a dot and bindings of its own, which are given up when it returns.
The fuel bounds the number of instructions on any path of nested calls, so it only has to be large
enough; a run that has ended does not depend on it.
-/

namespace Stencil

/-- The outcome of a run. -/
inductive Run where
  | done (m : Machine)
  | failed (error : ExecutionError) (m : Machine)
  | outOfFuel

/-- The outcome of running detached code: the values it leaves, the lowest first. -/
inductive Evaluation where
  | done (values : List Value) (m : Machine)
  | failed (error : RuntimeError) (m : Machine)
  | outOfFuel

/-- The offset that a jump leads to, if it is in the code or right behind it. -/
def jumpTarget? (pc : Nat) (distance : Int) (size : Nat) : Option Nat :=
  let target := (pc : Int) + distance + 1
  if 0 ≤ target ∧ target ≤ size then some target.toNat else none

namespace Machine

/-- The error for a jump that leaves the code. -/
def jumpOutOfRange : RuntimeError := .invalidCode "jump out of range"

/-- Run detached code from an offset on. -/
def evaluateFrom (schema : Schema) (t : Tables) (code : Array Instr) :
    (fuel pc : Nat) → Machine → Evaluation
  | 0, _, _ => .outOfFuel
  | fuel + 1, pc, m =>
    match code[pc]? with
    | none => .done m.stack.reverse { m with stack := [] }
    | some (.template _ _) => .failed (.invalidCode "template call in detached code") m
    | some i =>
      match m.step schema t i with
      | .next m => evaluateFrom schema t code fuel (pc + 1) m
      | .jump distance m =>
        match jumpTarget? pc distance code.size with
        | some pc => evaluateFrom schema t code fuel pc m
        | none => .failed jumpOutOfRange m
      | .fail e m => .failed e m

/-- Run detached code with nil as the dot and as the root data. -/
def evaluate (schema : Schema) (t : Tables) (fuel : Nat) (code : Array Instr) (m : Machine) :
    Evaluation :=
  evaluateFrom schema t code fuel 0 { m.bind Tables.rootVar .nil with dot := .nil }

/-- Prepare the activation of a template: bind the root data and, in a namespace, its view of the
render variables. -/
def activate (ns : String) (dot : Value) (m : Machine) : Machine :=
  let m := { m.bind Tables.rootVar dot with dot := dot }
  if ns.isEmpty then m
  else
    match Bindings.get? Tables.varsVar m.bindings with
    | some (.map kind entries) => m.bind Tables.varsVar (Value.unpackMap kind entries ns)
    | _ => m

/-- Return from a template call to the activation that made it. -/
def leave (caller callee : Machine) : Machine :=
  { callee with
    bindings := keepBottom caller.bindings.length callee.bindings
    dot := caller.dot }

/-- The namespace and the template that a call names, and the data it passes. -/
def callee (p : Program) (ns name : Nat) (m : Machine) :
    Except RuntimeError (String × String × Value) :=
  match p.tables.strings[ns]?, p.tables.strings[name]?, m.stack with
  | some ns, some name, v :: _ => .ok (ns, name, v)
  | some _, some _, [] => .error (.invalidCode "stack underflow")
  | _, _, _ => .error (.invalidCode "template operand out of range")

end Machine

namespace Program

/-- Run the template `t` of the given name from an offset on. -/
def runFrom (p : Program) : (fuel : Nat) → (name : String) → (t : CompiledTemplate) →
    (pc : Nat) → Machine → Run
  | 0, _, _, _, _ => .outOfFuel
  | fuel + 1, name, t, pc, m =>
    match t.code[pc]? with
    | none => .done m
    | some (.template ns index) =>
      match m.callee p ns index with
      | .error e => .failed ⟨e, t.locate name pc⟩ m
      | .ok (ns, target, v) =>
        match p.templates[target]? with
        | none => .failed ⟨.undefinedTemplate target, t.locate name pc⟩ m
        | some u =>
          match runFrom p fuel target u 0 (m.activate ns v) with
          | .done after => runFrom p fuel name t (pc + 1) (m.leave after)
          | .failed e after => .failed (e.orLocate (t.locate name pc)) after
          | .outOfFuel => .outOfFuel
    | some i =>
      match m.step p.schema p.tables i with
      | .next m => runFrom p fuel name t (pc + 1) m
      | .jump distance m =>
        match jumpTarget? pc distance t.code.size with
        | some pc => runFrom p fuel name t pc m
        | none => .failed ⟨Machine.jumpOutOfRange, t.locate name pc⟩ m
      | .fail e m => .failed ⟨e, t.locate name pc⟩ m

/-- More fuel does not change a run that has ended. -/
theorem runFrom_succ {p : Program} {fuel pc : Nat} {name : String} {t : CompiledTemplate}
    {m : Machine} (h : p.runFrom fuel name t pc m ≠ .outOfFuel) :
    p.runFrom (fuel + 1) name t pc m = p.runFrom fuel name t pc m := by
  induction fuel generalizing name t pc m with
  | zero => exact absurd rfl h
  | succ fuel ih =>
    rw [runFrom] at h ⊢
    conv => rhs; rw [runFrom]
    split at h
    · rfl
    · split at h
      · rfl
      · split at h
        · rfl
        · split at h
          · next inner =>
            rw [ih (by rw [inner]; simp), inner]
            exact ih h
          · next inner => rw [ih (by rw [inner]; simp), inner]
          · exact absurd rfl h
    · split at h
      · exact ih h
      · split at h
        · exact ih h
        · rfl
      · rfl

/-- A run that has ended with some fuel ends in the same way with more. -/
theorem runFrom_of_le {p : Program} {fuel more pc : Nat} {name : String} {t : CompiledTemplate}
    {m : Machine} (hle : fuel ≤ more) (h : p.runFrom fuel name t pc m ≠ .outOfFuel) :
    p.runFrom more name t pc m = p.runFrom fuel name t pc m := by
  induction hle with
  | refl => rfl
  | step _ ih => rw [runFrom_succ (by rw [ih]; exact h), ih]

/-- Run a template with the given data and render variables on a machine. -/
def run (p : Program) (fuel : Nat) (name : String) (data vars : Value) (m : Machine) : Run :=
  let m := m.bind Tables.varsVar vars
  match p.templates[name]? with
  | none => .failed ⟨.undefinedTemplate name, none⟩ m
  | some t => p.runFrom fuel name t 0 (m.activate "" data)

end Program
end Stencil
