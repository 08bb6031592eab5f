import Stencil.Fragment
import Stencil.Tree

/-!
# Branch layout

How the code of a condition, of a body and of an alternative is put together with jumps. Each
layout is a fragment without a table of its own around the fragments it is given. The condition
leaves its value on the stack, and both ways out pop it.
-/

namespace Stencil.Compile

/-- The parts of a branch, its condition apart. -/
structure BranchParts where
  body : Fragment
  orElse : Option Fragment
  /-- The count of the `POP` after both ways through the branch, if there is one. -/
  pop : Option Nat

/-- Code for the variables of a range: bind position and element, or drop them. -/
def bindElement (assign : Bool) (decl : List Nat) (body : Fragment) : Fragment :=
  match decl with
  | [] => body.prepend (.pop 2)
  | [value] => (body.prepend (.pop 1)).prepend (.setVar value assign)
  | key :: value :: _ => (body.prepend (.setVar key assign)).prepend (.setVar value assign)

/-- Add an `UNSETVAR` for each name. -/
def unsetAll (f : Fragment) (names : List Nat) : Fragment :=
  names.foldl (fun f name => f.push (.unsetVar name)) f

/-- Let the condition of an `if` or `with` be bound to a variable for the body. Binding consumes
the value, so the body pops one value less than the alternative. -/
def bindCondition (assign : Bool) (decl : List Nat) (parts : BranchParts) : BranchParts :=
  match decl with
  | [] => parts
  | name :: _ =>
    let body := parts.body.prepend (.setVar name assign)
    let body := if assign then body else body.push (.unsetVar name)
    let bodyPop := match parts.pop with
      | some 0 => some 0
      | some (n + 2) => some (n + 1)
      | _ => none
    { body := body.addPop bodyPop
      orElse :=
        if parts.pop.isSome then some ((parts.orElse.getD .empty).addPop parts.pop)
        else parts.orElse
      pop := none }

/-- The number of instructions from the jump of a condition to the alternative. -/
def BranchParts.skip (parts : BranchParts) : Nat :=
  parts.body.size + parts.orElse.isSome.toNat

/-- The alternative behind a jump over it, and the final `POP`. -/
def closeBranch (f : Fragment) (parts : BranchParts) : Fragment :=
  let f := match parts.orElse with
    | some g => (f.push (.jmp g.size)).append g
    | none => f
  f.addPop parts.pop

/-- The code of an `if` after its condition. -/
def layoutIf (f : Fragment) (parts : BranchParts) : Fragment :=
  closeBranch ((f.push (.jmpf parts.skip)).append parts.body) parts

/-- The code of a `with` after its condition. -/
def layoutWith (f : Fragment) (parts : BranchParts) : Fragment :=
  let f := (f.push (.jmpf (parts.skip + 2 : Nat))).push .pushDot
  closeBranch ((f.append parts.body).push .popDot) parts

/-- The body of a range as a loop: it binds the element, makes it the dot and jumps back to the
`NEXT` in front of it. -/
def loopBody (assign : Bool) (decl : List Nat) (body : Fragment) : Fragment :=
  let body := if assign then body else unsetAll body decl
  let body := (bindElement assign decl (body.push .popDot)).prepend .pushDot
  body.push (.jmp (-(body.size + 2 : Nat)))

/-- The code of a range after its pipeline. With an alternative there is a second `NEXT` in front
of the loop, which leads to the alternative if there is no element at all. -/
def layoutRange (f : Fragment) (assign : Bool) (decl : List Nat) (parts : BranchParts) :
    Fragment :=
  let loop := loopBody assign decl parts.body
  let f := f.push .iter
  let f := match parts.orElse with
    | none => f.push (.next loop.size)
    | some g =>
      ((f.push (.next (loop.size + 3 : Nat))).push (.jmp 1)).push
        (.next (loop.size + 1 + g.size : Nat))
  closeBranch (f.append loop) parts

/-- The code of a branch after the code `f` of its condition. -/
def layout (kind : BranchKind) (f : Fragment) (assign : Bool) (decl : List Nat)
    (parts : BranchParts) : Fragment :=
  match kind with
  | .ifThen => layoutIf f (bindCondition assign decl parts)
  | .withDot => layoutWith f (bindCondition assign decl parts)
  | .range => layoutRange f assign decl parts

/-- Whether all jumps of a fragment fit their operands. -/
def jumpsFit (f : Fragment) : Bool :=
  f.code.all fun i => i.distance?.all fun k => -Int.pow 2 31 ≤ k && k < Int.pow 2 31

end Stencil.Compile
