import Stencil.Proofs.Points
import Stencil.Proofs.Structure

/-!
# Guarded decisions

Where the code of a well-formed template decides on a value. The jump is right behind the code of its
condition, which leaves a value and can only be entered at its start. So wherever a run is about to
decide, there is a value of its own on the stack, whatever has been there when the run has started.
-/

namespace Stencil

open Compile (conditionalCode loopCode alternativeCode loopStart)

variable {code rest whole : List Instr} {n pc offset : Nat} {k : Int}

/-- An instruction of two codes is in the first or in the second of them. -/
theorem getElem?_append_cases {i : Instr} (h : (code ++ rest)[pc]? = some i) :
    code[pc]? = some i ∨ ∃ j, pc = code.length + j ∧ rest[j]? = some i := by
  rcases Nat.lt_or_ge pc code.length with hlt | hge
  · rw [List.getElem?_append_left hlt] at h
    exact .inl h
  · rw [List.getElem?_append_right hge] at h
    exact .inr ⟨pc - code.length, by omega, h⟩

/-- An alternative begins behind the jump over it. -/
theorem getElem?_alternativeCode {orElse : Option (List Instr)}
    (h : (alternativeCode orElse)[pc]? = some (.jmpf k)) :
    ∃ code j, orElse = some code ∧ pc = 1 + j ∧ code[j]? = some (.jmpf k) := by
  cases orElse with
  | none => cases h
  | some code =>
    cases pc with
    | zero => cases h
    | succ j => exact ⟨code, j, rfl, Nat.add_comm j 1, h⟩

/-- The code of a loop decides in its bodies. -/
theorem getElem?_loopCode {body : List Instr} {orElse : Option (List Instr)}
    (h : (loopCode body orElse)[pc]? = some (.jmpf k)) :
    (∃ j, pc = loopStart orElse + j ∧ body[j]? = some (.jmpf k)) ∨
      ∃ code j, orElse = some code ∧ pc = 3 + body.length + 2 + j ∧ code[j]? = some (.jmpf k) := by
  unfold loopCode at h
  rcases getElem?_append_cases h with hstart | ⟨j, rfl, hrest⟩
  · have hmem := List.mem_of_getElem? hstart
    cases orElse <;> simp at hmem
  · rcases getElem?_append_cases hrest with hbody | ⟨l, rfl, hback⟩
    · refine .inl ⟨j, ?_, hbody⟩
      cases orElse <;> rfl
    · cases l with
      | zero => cases hback
      | succ l =>
        have hother : (alternativeCode orElse)[l]? = some (.jmpf k) := hback
        obtain ⟨code, l, rfl, rfl, hcode⟩ := getElem?_alternativeCode hother
        refine .inr ⟨code, l, rfl, ?_, hcode⟩
        simp only [List.length_cons, List.length_nil]
        omega

/-- Whether what is at an offset of code decides on the value of straight-line code right in front of it,
which can only be entered at its start. -/
def GuardedAt (code : List Instr) (pc : Nat) : Prop :=
  ∃ n condition k, EnclosedAt n (condition ++ [.jmpf k]) code ∧ 0 ≤ k ∧ pc = n + condition.length ∧
    Straight condition ∧ Leaves condition 0 1

/-- All decisions of structured code are guarded if its conditions leave a value. -/
theorem Structured.guardedAt (h : Structured True code) (hcode : EnclosedAt n code whole)
    (hi : code[pc]? = some (.jmpf k)) (hat : offset = n + pc) : GuardedAt whole offset := by
  induction h generalizing n pc with
  | nil => cases hi
  | instr hplain =>
    cases List.mem_singleton.mp (List.mem_of_getElem? hi)
    cases hplain
  | append hfirst hsecond ihfirst ihsecond =>
    rcases getElem?_append_cases hi with hpart | ⟨j, rfl, hpart⟩
    · exact ihfirst ((EnclosedAt.append_left _ hsecond.closed).trans hcode) hpart hat
    · exact ihsecond ((EnclosedAt.append_right hfirst.closed _).trans hcode) hpart (by omega)
  | @conditional condition body orElse hstraight hleaves hbody hother ihbody ihother =>
    have hinner := (EnclosedAt.append_right hstraight.closed (conditionalCode body orElse)).trans hcode
    rcases getElem?_append_cases hi with hpart | ⟨j, rfl, hpart⟩
    · cases hstraight _ (List.mem_of_getElem? hpart)
    · cases j with
      | zero =>
        have hrest : Closed (body ++ alternativeCode orElse) :=
          hbody.closed.append (Compile.closed_alternativeCode hother.closed)
        have hguard := EnclosedAt.append_left
          (condition ++ [.jmpf (body.length + orElse.isSome.toNat : Nat)]) hrest
        rw [List.append_assoc] at hguard
        exact ⟨n, condition, _, hguard.trans hcode, Int.natCast_nonneg _, hat, hstraight, hleaves trivial⟩
      | succ j =>
        have hbodies : (body ++ alternativeCode orElse)[j]? = some (.jmpf k) := hpart
        rcases getElem?_append_cases hbodies with htaken | ⟨l, rfl, hother'⟩
        · exact ihbody ((Compile.body_enclosed_conditionalCode hother.closed).trans hinner) htaken
            (by omega)
        · obtain ⟨code, l, rfl, rfl, hcode'⟩ := getElem?_alternativeCode hother'
          exact ihother ((Compile.other_enclosed_conditionalCode hbody.closed code).trans hinner) hcode'
            (by omega)
  | @range body orElse hbody hother ihbody ihother =>
    have hiter : Closed [.iter] := closed_cons rfl closed_nil
    have hinner := (EnclosedAt.append_right hiter (loopCode body orElse)).trans hcode
    cases pc with
    | zero => cases hi
    | succ pc =>
      rcases getElem?_loopCode hi with ⟨j, rfl, hpart⟩ | ⟨code, j, rfl, rfl, hpart⟩
      · exact ihbody ((Compile.body_enclosed_loopCode hother.closed).trans hinner) hpart
          (by simp only [List.length_singleton]; omega)
      · exact ihother ((Compile.other_enclosed_loopCode hbody.closed code).trans hinner) hpart
          (by simp only [List.length_singleton]; omega)

/-- Structured code makes no other decisions than those of its conditionals. -/
theorem Structured.not_jmpt {guarded : Prop} (h : Structured guarded code) : .jmpt k ∉ code := by
  induction h with
  | nil => exact List.not_mem_nil
  | instr hplain =>
    intro hmem
    cases List.mem_singleton.mp hmem
    cases hplain
  | append _ _ ihfirst ihsecond => exact fun hmem => (List.mem_append.mp hmem).elim ihfirst ihsecond
  | @conditional condition body orElse hstraight _ _ _ ihbody ihother =>
    have hcondition : .jmpt k ∉ condition := fun hmem => nomatch hstraight _ hmem
    cases orElse <;> simp_all [conditionalCode, alternativeCode]
  | @range body orElse _ _ ihbody ihother =>
    cases orElse <;> simp_all [loopCode, alternativeCode]

/-- Wherever a run is about to decide on a value, there is one on the stack. -/
theorem Program.Reaches.exists_decided {p : Program} {start P : Point} (h : p.Reaches start P)
    (hzero : start.pc = 0) (hguarded : GuardedAt P.code P.pc) :
    ∃ v stack, P.machine.stack = v :: stack := by
  obtain ⟨n, condition, k, ⟨front, rest, hwhole, rfl, hfront, hrest⟩, hk, hpc, hstraight, hleaves⟩ :=
    hguarded
  have hpiece : Skips 0 (condition.length + 1 : Nat) (condition ++ [.jmpf k]) := by
    refine (hstraight.skips _ _).append (.cons (fun j hj => ?_) skips_nil)
    cases hj
    omega
  have hskips : Skips front.length (front.length + (condition ++ [Instr.jmpf k]).length : Nat)
      (front ++ (condition ++ [.jmpf k]) ++ rest) := by
    rw [List.length_append, List.length_singleton] at hfront hrest ⊢
    refine (hfront.append (hpiece.mono (by omega) (by omega))).append (hrest.mono ?_ ?_)
    all_goals
      simp only [List.length_append, List.length_singleton]
      omega
  have htake : (condition ++ [Instr.jmpf k]).take condition.length = condition := List.take_left
  obtain ⟨m, -, hsteps⟩ := h.exists_entry hskips (htake.symm ▸ hstraight) hzero hwhole hpc (by simp)
  rw [htake] at hsteps
  have hlength := Machine.le_length_steps hstraight hleaves (Nat.zero_le _) hsteps
  exact List.exists_cons_of_length_pos (by omega)

end Stencil
