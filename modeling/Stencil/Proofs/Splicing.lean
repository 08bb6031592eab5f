import Mathlib.Data.List.Find
import Stencil.Fragment.Splice
import Stencil.Proofs.Execution

/-!
# Spliced code

What replacing a range of instructions does to the code around it. All other instructions move with the
length of the replacement, and jumps between them lead to where their targets have moved, whether they
cross the range or not. The entries of the table move along, so an instruction is looked up as before, with
one exception: nothing is left between an entry where a removed range began and the instruction behind it,
which is therefore looked up as what had ended there.
-/

namespace Stencil

namespace Instr

/-- A jump that is given a distance has it. -/
theorem distance?_withDistance {i : Instr} {k : Int} (h : i.distance? = some k) (k' : Int) :
    (i.withDistance k').distance? = some k' := by
  cases i <;> first | rfl | cases h

end Instr

namespace Fragment

/-- Where an offset outside a range of `count` instructions from `start` on is when `size` others have
taken their place. -/
def movedOffset (start count size pc : Nat) : Nat := if pc ≤ start then pc else pc + size - count

variable {f : Fragment} {start count pc target : Nat} {replacement : Array Instr} {i : Instr} {k : Int}
  {m : Mark}

/-- Moving keeps the order of what lies behind an offset. -/
theorem movedOffset_lt_iff {size pc' : Nat} (hcount : 1 ≤ count) (hpc : pc < start ∨ start + count ≤ pc)
    (hpc' : pc' ≤ start ∨ start + count ≤ pc') :
    movedOffset start count size pc < movedOffset start count size pc' ↔ pc < pc' := by
  unfold movedOffset
  split <;> split <;> omega

/-- The start of a range and the offset right behind it move to the same place if nothing is left between
them. -/
theorem movedOffset_le_iff {size pc' : Nat} (hcount : 1 ≤ count) (hpc : pc < start ∨ start + count ≤ pc)
    (hpc' : pc' ≤ start ∨ start + count ≤ pc') :
    movedOffset start count size pc ≤ movedOffset start count size pc' ↔
      (if size = 0 ∧ pc = start + count then start else pc) ≤ pc' := by
  unfold movedOffset
  split <;> split <;> split <;> omega

/-! ### Code -/

/-- Splicing changes the size by the difference between what comes and what goes. -/
theorem size_splice (hrange : start + count ≤ f.size) :
    (f.splice start count replacement).size = f.size - count + replacement.size := by
  simp only [size] at hrange
  simp only [splice, size, Array.size_append, Array.size_extract, Array.size_mapIdx]
  omega

/-- The range holds the replacement. -/
theorem getElem?_splice_inside (hrange : start + count ≤ f.size) {j : Nat} (hj : j < replacement.size) :
    (f.splice start count replacement).code[start + j]? = replacement[j]? := by
  simp only [size] at hrange
  have hfront : min start f.code.size = start := by omega
  simp [splice, Array.getElem?_append, hfront, hj]

/-- The instructions outside the range have moved and are adjusted. -/
theorem getElem?_splice_outside (hcount : 1 ≤ count) (hrange : start + count ≤ f.size)
    (hpc : pc < start ∨ start + count ≤ pc) :
    (f.splice start count replacement).code[movedOffset start count replacement.size pc]? =
      f.code[pc]?.map (spliceInstr start (start + count) ((replacement.size : Int) - count) pc) := by
  simp only [size] at hrange
  have hfront : min start f.code.size = start := by omega
  rcases hpc with hbefore | hbehind
  · have hmoved : movedOffset start count replacement.size pc = pc := if_pos (Nat.le_of_lt hbefore)
    have hsize : pc < f.code.size := by omega
    simp [splice, hmoved, Array.getElem?_append, hfront, hbefore, hsize]
  · have hlength : ((f.code.mapIdx (spliceInstr start (start + count)
        ((replacement.size : Int) - count))).extract 0 start ++ replacement).size =
        start + replacement.size := by
      simp [hfront]
    obtain ⟨rest, rfl⟩ := Nat.exists_eq_add_of_le hbehind
    have hmoved : movedOffset start count replacement.size (start + count + rest) =
        start + replacement.size + rest := by
      unfold movedOffset
      split <;> omega
    rw [hmoved, splice]
    simp only
    rw [Array.getElem?_append_right (by rw [hlength]; omega), hlength, Nat.add_sub_cancel_left,
      Array.getElem?_extract]
    by_cases hsize : start + count + rest < f.code.size
    · have hrest : rest < f.code.size - (start + count) := by omega
      simp [hsize, hrest]
    · have hrest : ¬rest < f.code.size - (start + count) := by omega
      simp [hsize, hrest]

/-! ### Jumps -/

/-- An instruction is adjusted in nothing but the distance of a jump. -/
theorem exists_spliceInstr (start stop : Nat) (growth : Int) (pc : Nat) (i : Instr) :
    ∃ k, spliceInstr start stop growth pc i = i.withDistance k := by
  unfold spliceInstr
  cases hdistance : i.distance? with
  | none => exact ⟨0, by cases i <;> first | rfl | cases hdistance⟩
  | some k =>
    simp only
    split
    · exact ⟨_, rfl⟩
    · exact ⟨k, (Instr.withDistance_of_distance? hdistance).symm⟩

/-- A jump outside the range leads to where its target has moved, if that is not inside the range. -/
theorem jumpTarget?_spliceDistance (size : Nat) (hcount : 1 ≤ count) (hrange : start + count ≤ f.size)
    (hpc : pc < start ∨ start + count ≤ pc) (htarget : jumpTarget? pc k f.size = some target)
    (houtside : target ≤ start ∨ start + count ≤ target) :
    jumpTarget? (movedOffset start count size pc)
        (spliceDistance start (start + count) ((size : Int) - count) pc k) (f.size - count + size) =
      some (movedOffset start count size target) := by
  rw [jumpTarget?_eq_some_iff] at htarget ⊢
  unfold movedOffset spliceDistance
  simp only
  -- Either end of the jump lies in front of the range or behind it.
  rcases hpc with hbefore | hbehind <;> rcases houtside with htbefore | htbehind <;>
    split <;> split <;> (try split) <;> (try split) <;> omega

/-- The adjusted distance of a jump in short code fits its operand. -/
theorem spliceInstr_of_jumpTarget? {start stop size pc' : Nat} {growth : Int}
    (hk : i.distance? = some k) (hsize : size < Nat.pow 2 31) (hpc : pc' ≤ size)
    (htarget : jumpTarget? pc' (spliceDistance start stop growth pc k) size = some target) :
    spliceInstr start stop growth pc i = i.withDistance (spliceDistance start stop growth pc k) := by
  have hpow : Int.pow 2 31 = 2147483648 := rfl
  have hsize : size < 2147483648 := hsize
  rw [jumpTarget?_eq_some_iff] at htarget
  simp only [spliceInstr, hk, hpow]
  rw [if_pos (by omega)]

/-! ### Positions -/

/-- An entry outside the range has moved, and its position stays. -/
theorem spliceMark_eq {size : Nat} (hcount : 1 ≤ count) (hm : m.pc ≤ start ∨ start + count ≤ m.pc) :
    spliceMark (start + count) ((size : Int) - count) m = ⟨movedOffset start count size m.pc, m.pos⟩ := by
  unfold spliceMark movedOffset
  rcases hm with hbefore | hbehind
  · rw [if_neg (by omega), if_pos hbefore]
  · rw [if_pos hbehind, if_neg (by omega)]
    congr 1
    omega

/-- Splicing moves marks and keeps what they say. -/
theorem pos_spliceMark (stop : Nat) (growth : Int) (m : Mark) : (spliceMark stop growth m).pos = m.pos := by
  unfold spliceMark
  split <;> rfl

/-- Offsets for which the same entries count are looked up alike. -/
theorem positionOf_splice {pc' : Nat} (h : ∀ m ∈ f.marks,
      pc' ≤ (spliceMark (start + count) ((replacement.size : Int) - count) m).pc ↔ pc ≤ m.pc) :
    positionOf (f.splice start count replacement).marks pc' = positionOf f.marks pc := by
  have hfind : f.marks.toList.find? ((fun m => decide (pc' ≤ m.pc)) ∘
        spliceMark (start + count) ((replacement.size : Int) - count)) =
      f.marks.toList.find? fun m => pc ≤ m.pc :=
    List.find?_congr fun m hm => decide_eq_decide.mpr (h m (Array.mem_toList_iff.mp hm))
  have hfound : (f.marks.map (spliceMark (start + count) ((replacement.size : Int) - count))).find?
        (fun m => decide (pc' ≤ m.pc)) =
      (f.marks.find? fun m => pc ≤ m.pc).map
        (spliceMark (start + count) ((replacement.size : Int) - count)) := by
    rw [← Array.find?_toList, ← Array.find?_toList, Array.toList_map, List.find?_map, hfind]
  rw [positionOf, positionOf, splice, hfound, Option.map_map]
  congr 1
  exact funext fun m => pos_spliceMark _ _ m

/-- Splicing keeps control flow, and all but one of the places that instructions are looked up at.

The replacement stands where the range began. Every instruction outside the range is there, adjusted in
nothing but the distance of a jump, and a jump to a target that is not inside the range, be it at either of
its ends, leads to where the target has moved. The entries of the table that are not inside the range move
along, with their positions.

If no entry is inside the range, looking up the offset behind an instruction, which is what the entries
record, gives what it gave before. Looking up its own offset does so too, unless nothing replaces the range
and the instruction stood right behind it: it is then looked up as the first instruction of the range was,
since an entry that ends where the range began counts for the offset that it ends at. -/
theorem splicing_keeps_control_flow (f : Fragment) (replacement : Array Instr) (hcount : 1 ≤ count)
    (hrange : start + count ≤ f.size) (hsize : f.size - count + replacement.size < Nat.pow 2 31) :
    (f.splice start count replacement).size = f.size - count + replacement.size ∧
    (∀ j < replacement.size, (f.splice start count replacement).code[start + j]? = replacement[j]?) ∧
    (∀ pc i, f.code[pc]? = some i → pc < start ∨ start + count ≤ pc →
      ∃ i', (f.splice start count replacement).code[movedOffset start count replacement.size pc]? =
          some i' ∧
        (∃ k', i' = i.withDistance k') ∧
        ∀ k target, i.distance? = some k → jumpTarget? pc k f.size = some target →
          target ≤ start ∨ start + count ≤ target →
          ∃ k', i'.distance? = some k' ∧
            jumpTarget? (movedOffset start count replacement.size pc) k'
                (f.splice start count replacement).size =
              some (movedOffset start count replacement.size target)) ∧
    (∀ (j : Nat) (m : Mark), f.marks[j]? = some m → m.pc ≤ start ∨ start + count ≤ m.pc →
      (f.splice start count replacement).marks[j]? =
        some ⟨movedOffset start count replacement.size m.pc, m.pos⟩) ∧
    ((∀ m ∈ f.marks, m.pc ≤ start ∨ start + count ≤ m.pc) →
      ∀ pc, pc < start ∨ start + count ≤ pc →
        positionOf (f.splice start count replacement).marks
            (movedOffset start count replacement.size pc + 1) = positionOf f.marks (pc + 1) ∧
        positionOf (f.splice start count replacement).marks
            (movedOffset start count replacement.size pc) =
          positionOf f.marks (if replacement.isEmpty ∧ pc = start + count then start else pc)) := by
  refine ⟨size_splice hrange, fun j hj => getElem?_splice_inside hrange hj,
    fun pc i hi hpc => ?_, fun j m hm houtside => ?_, fun hmarks pc hpc => ⟨?_, ?_⟩⟩
  · refine ⟨_, by rw [getElem?_splice_outside hcount hrange hpc, hi]; rfl, exists_spliceInstr _ _ _ _ _,
      fun k target hk htarget houtside => ?_⟩
    have hmoved := jumpTarget?_spliceDistance replacement.size hcount hrange hpc htarget houtside
    have hpc' : pc < f.size := (Array.getElem?_eq_some_iff.mp hi).1
    have hle : movedOffset start count replacement.size pc ≤ f.size - count + replacement.size := by
      unfold movedOffset
      split <;> omega
    rw [size_splice hrange, spliceInstr_of_jumpTarget? hk hsize hle hmoved]
    exact ⟨_, Instr.distance?_withDistance hk _, hmoved⟩
  · simp only [splice, Array.getElem?_map, hm, Option.map_some, spliceMark_eq hcount houtside]
  · refine positionOf_splice fun m hm => ?_
    rw [spliceMark_eq hcount (hmarks m hm)]
    exact movedOffset_lt_iff hcount hpc (hmarks m hm)
  · refine positionOf_splice fun m hm => ?_
    have hempty : replacement.isEmpty = true ↔ replacement.size = 0 := by simp
    rw [spliceMark_eq hcount (hmarks m hm)]
    simp only [hempty]
    exact movedOffset_le_iff hcount hpc (hmarks m hm)

end Fragment

/-! ### Samples -/

namespace Sample

/-- A loop around a template call. -/
def looping : Fragment :=
  ⟨#[.jmpf 3, .template 0 1, .wb 0, .jmp (-4), .wb 1], #[⟨2, 10⟩, ⟨4, 20⟩]⟩

/-- Three chunks, of which the first one belongs to one node and the others to another one. -/
def chunks : Fragment := ⟨#[.wb 0, .wb 1, .wb 2], #[⟨1, 10⟩, ⟨3, 20⟩]⟩

end Sample

namespace Fragment

/-- Two instructions take the place of the call in the loop: the jump out of the loop leads one further, the
jump back comes from one further, and the chunk behind the call is still looked up as its node. -/
theorem splicing_keeps_control_flow_sample :
    1 + 1 ≤ Sample.looping.size ∧ (Sample.looping.splice 1 1 #[.wb 5, .wb 6]).size = 6 ∧
      (∃ i k, (Sample.looping.splice 1 1 #[.wb 5, .wb 6]).code[0]? = some i ∧ i.distance? = some k ∧
        jumpTarget? 0 k 6 = some 5) ∧
      (∃ i k, (Sample.looping.splice 1 1 #[.wb 5, .wb 6]).code[4]? = some i ∧ i.distance? = some k ∧
        jumpTarget? 4 k 6 = some 0) ∧
      positionOf (Sample.looping.splice 1 1 #[.wb 5, .wb 6]).marks 3 = some 10 := by
  have hrange : 1 + 1 ≤ Sample.looping.size := by decide
  obtain ⟨hsize, -, hcode, -, hpositions⟩ :=
    splicing_keeps_control_flow Sample.looping #[.wb 5, .wb 6] (Nat.le_refl 1) hrange (by decide)
  have hsize : (Sample.looping.splice 1 1 #[.wb 5, .wb 6]).size = 6 := hsize
  rw [hsize] at hcode
  obtain ⟨i, hi, -, hleave⟩ := hcode 0 (.jmpf 3) rfl (.inl (by decide))
  obtain ⟨j, hj, -, hback⟩ := hcode 3 (.jmp (-4)) rfl (.inr (by decide))
  obtain ⟨k, hk, hout⟩ := hleave 3 4 rfl (by decide) (.inr (by decide))
  obtain ⟨l, hl, hto⟩ := hback (-4) 0 rfl (by decide) (.inl (by decide))
  have hmarks : ∀ m ∈ Sample.looping.marks, m.pc ≤ 1 ∨ 1 + 1 ≤ m.pc := by decide
  exact ⟨hrange, hsize, ⟨i, k, hi, hk, hout⟩, ⟨j, l, hj, hl, hto⟩,
    (hpositions hmarks 2 (.inr (by decide))).2⟩

/-- The second chunk is removed, and an entry ends in front of it. Its node keeps its entry, and so the third
chunk, which stands there now, is looked up as the node of the first one, in place of its own. -/
theorem splicing_loses_position :
    (∀ m ∈ Sample.chunks.marks, m.pc ≤ 1 ∨ 1 + 1 ≤ m.pc) ∧ Sample.chunks.code[2]? = some (.wb 2) ∧
      (Sample.chunks.splice 1 1 #[]).code[movedOffset 1 1 0 2]? = some (.wb 2) ∧
      positionOf Sample.chunks.marks 2 = some 20 ∧
      positionOf (Sample.chunks.splice 1 1 #[]).marks (movedOffset 1 1 0 2) = some 10 := by
  decide +kernel

end Fragment
end Stencil
