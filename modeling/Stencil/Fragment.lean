import Stencil.Instr
import Stencil.Location

/-!
# Code fragments

A piece of code with a table that tells which node each instruction belongs to. Offsets in the
table count from the start of the fragment and are renumbered when something is put in front of
it. Jumps are relative, so moving a whole fragment leaves them alone.
-/

namespace Stencil

/-- The instructions up to offset `pc`, as far as no earlier entry claims them, belong to the node
at `pos`. -/
structure Mark where
  pc : Nat
  pos : Pos
deriving DecidableEq, Inhabited

namespace Mark

/-- The entry for the same instruction after `n` others have been put in front of it. -/
def shift (n : Nat) (m : Mark) : Mark := ⟨m.pc + n, m.pos⟩

/-- A mark that is shifted by nothing stays where it is. -/
@[simp]
theorem shift_zero (m : Mark) : m.shift 0 = m := rfl

/-- Shifting twice is shifting by both distances. -/
theorem shift_shift (m : Mark) (j k : Nat) : (m.shift j).shift k = m.shift (j + k) := by
  simp [shift, Nat.add_assoc]

end Mark

/-- Instructions and the table of their nodes. -/
structure Fragment where
  code : Array Instr
  marks : Array Mark
deriving DecidableEq, Inhabited

namespace Fragment

/-- The fragment without instructions. -/
def empty : Fragment := ⟨#[], #[]⟩

/-- A fragment of given instructions, with no table. -/
def ofCode (code : Array Instr) : Fragment := ⟨code, #[]⟩

/-- The number of instructions. -/
def size (f : Fragment) : Nat := f.code.size

/-- Whether there is no instruction. -/
def isEmpty (f : Fragment) : Bool := f.code.isEmpty

/-- The last instruction. -/
def last? (f : Fragment) : Option Instr := f.code.back?

/-- Add an instruction at the end. -/
def push (f : Fragment) (i : Instr) : Fragment := ⟨f.code.push i, f.marks⟩

/-- Add an instruction in front. -/
def prepend (f : Fragment) (i : Instr) : Fragment :=
  ⟨#[i] ++ f.code, f.marks.map (Mark.shift 1)⟩

/-- Two fragments one after the other. -/
def append (f g : Fragment) : Fragment :=
  let marks := f.marks ++ g.marks.map (Mark.shift f.code.size)
  ⟨f.code ++ g.code, marks⟩

/-- Attribute the code up to here to the node at `pos`. -/
def mark (f : Fragment) (pos : Pos) : Fragment := ⟨f.code, f.marks.push ⟨f.code.size, pos⟩⟩

/-- Remove a `POP` at the end and answer its count. -/
def takePop (f : Fragment) : Fragment × Option Nat :=
  match f.code.back? with
  | some (.pop n) => (⟨f.code.pop, f.marks⟩, some n)
  | _ => (f, none)

/-- Add a `POP` of the given count, if there is one. -/
def addPop (f : Fragment) : Option Nat → Fragment
  | some n => f.push (.pop n)
  | none => f

/-- A pushed instruction makes a fragment longer by one. -/
@[simp]
theorem size_push (f : Fragment) (i : Instr) : (f.push i).size = f.size + 1 := by
  simp [size, push]

/-- An instruction put in front makes a fragment longer by one. -/
@[simp]
theorem size_prepend (f : Fragment) (i : Instr) : (f.prepend i).size = f.size + 1 := by
  simp [size, prepend, Nat.add_comm]

/-- Two fragments together are as long as both. -/
@[simp]
theorem size_append (f g : Fragment) : (f.append g).size = f.size + g.size := by
  simp [size, append]

/-- A mark takes no room in the code. -/
@[simp]
theorem size_mark (f : Fragment) (pos : Pos) : (f.mark pos).size = f.size := rfl

/-- Nothing in front of a fragment changes nothing. -/
@[simp]
theorem empty_append (f : Fragment) : empty.append f = f := by
  have h : Mark.shift 0 = id := funext fun m => rfl
  simp [append, empty, h]

/-- Nothing behind a fragment changes nothing. -/
@[simp]
theorem append_empty (f : Fragment) : f.append empty = f := by
  simp [append, empty]

/-- Renumbering in two steps is renumbering in one. -/
theorem append_assoc (f g h : Fragment) : (f.append g).append h = f.append (g.append h) := by
  have shifts : Mark.shift f.code.size ∘ Mark.shift g.code.size =
      Mark.shift (f.code.size + g.code.size) :=
    funext fun m => by simp [Mark.shift_shift, Nat.add_comm]
  simp [append, shifts]

/-- An instruction is pushed as code of its own without marks. -/
theorem push_eq_append (f : Fragment) (i : Instr) : f.push i = f.append (ofCode #[i]) := by
  simp [push, append, ofCode]

/-- A POP that has just been pushed can be taken back. -/
theorem takePop_push_pop (f : Fragment) (n : Nat) : (f.push (.pop n)).takePop = (f, some n) := by
  simp [takePop, push]

/-- The position an instruction belongs to: that of the first entry at or after its offset. -/
def positionOf (marks : Array Mark) (pc : Nat) : Option Pos :=
  (marks.find? fun m => pc ≤ m.pc).map Mark.pos

end Fragment
end Stencil
