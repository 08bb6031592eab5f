import Stencil.Compile.Error
import Stencil.Fragment

/-!
# Stack accounting

How many values a fragment pushes and pops, and the instruction that makes up the difference. A
`FIELD` may or may not consume arguments, so a fragment that contains one is instead put between a
`MARK` and a `POP 0`.
-/

namespace Stencil

namespace Instr

/-- The number of values an instruction pushes, for all instructions but `FIELD`. -/
def pushes : Instr → Nat
  | string _ | dot | val _ | var _ | func .. => 1
  | next _ => 2
  | _ => 0

/-- The number of values an instruction pops, for all instructions but `FIELD` and `POP 0`. -/
def pops : Instr → Nat
  | pop n => n
  | setVar .. => 1
  | func argc _ => argc
  | _ => 0

/-- Whether an instruction is a `FIELD`. -/
def isField : Instr → Bool
  | field .. => true
  | _ => false

end Instr

namespace Fragment

/-- Whether the fragment returns to a mark at its end. -/
def endsAtMark (f : Fragment) : Bool := f.last? == some (.pop 0)

/-- The number of values the fragment pushes, unknown if it contains a `FIELD`. -/
def pushes (f : Fragment) : Option Nat :=
  if f.endsAtMark then some 0
  else if f.code.any Instr.isField then none
  else some (f.code.foldl (fun n i => n + i.pushes) 0)

/-- The number of values the fragment pops. -/
def pops (f : Fragment) : Nat :=
  if f.endsAtMark then 0 else f.code.foldl (fun n i => n + i.pops) 0

/-- Make the net effect of the fragment on the stack zero. -/
def balance (f : Fragment) : Except CompileErrorKind Fragment :=
  match f.pushes with
  | none => .ok ((f.prepend .mark).push (.pop 0))
  | some pushed =>
    let popped := f.pops
    if pushed < popped then .error (.unbalanced ((pushed : Int) - popped))
    else if pushed = popped then .ok f
    else if pushed - popped < Nat.pow 2 32 then .ok (f.push (.pop (pushed - popped)))
    else .error (.tableOverflow "pop")

end Fragment
end Stencil
