import Stencil.Fragment

/-!
# Splicing

Replacing a range of instructions. Every jump across the range keeps its target, and entries of the
table behind the range move with the instructions they belong to.
-/

namespace Stencil.Fragment

/-- The distance of a jump at `pc` after the range from `start` to `stop` has grown by `growth`. -/
def spliceDistance (start stop : Nat) (growth : Int) (pc : Nat) (distance : Int) : Int :=
  let target := (pc : Int) + distance + 1
  if pc < start ∧ (stop : Int) ≤ target then distance + growth
  else if stop ≤ pc ∧ target ≤ start then distance - growth
  else distance

/-- A jump with its distance adjusted, provided the result fits its operand. -/
def spliceInstr (start stop : Nat) (growth : Int) (pc : Nat) (i : Instr) : Instr :=
  match i.distance? with
  | none => i
  | some distance =>
    let moved := spliceDistance start stop growth pc distance
    if -Int.pow 2 31 ≤ moved ∧ moved < Int.pow 2 31 then i.withDistance moved else i

/-- An entry of the table after the range that ends at `stop` has grown by `growth`. -/
def spliceMark (stop : Nat) (growth : Int) (m : Mark) : Mark :=
  if stop ≤ m.pc then ⟨((m.pc : Int) + growth).toNat, m.pos⟩ else m

/-- Replace `count` instructions from `start` on by `replacement`. -/
def splice (f : Fragment) (start count : Nat) (replacement : Array Instr) : Fragment :=
  let stop := start + count
  let growth := (replacement.size : Int) - count
  let moved := f.code.mapIdx (spliceInstr start stop growth)
  ⟨moved.extract 0 start ++ replacement ++ moved.extract stop moved.size,
    f.marks.map (spliceMark stop growth)⟩

end Stencil.Fragment
