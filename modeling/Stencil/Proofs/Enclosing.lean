import Stencil.Proofs.Layout

/-!
# Enclosed code

Pieces of code that can only be entered at their start. The jumps around such a piece lead to its
start, to its end or past it, and never between two of its instructions. The bodies of a branch are
enclosed in its code.
-/

namespace Stencil

variable {n : Nat} {i : Instr} {code front rest whole other : List Instr} {low high : Int}

/-- Whether no jump of code leads strictly between two offsets, counted from its start. -/
def Skips (low high : Int) (code : List Instr) : Prop :=
  ∀ (pc : Nat) (i : Instr) (k : Int), code[pc]? = some i → i.distance? = some k →
    (pc : Int) + k + 1 ≤ low ∨ high ≤ (pc : Int) + k + 1

/-- Jumps that lead around some code lead around a part of it. -/
theorem Skips.mono {low' high' : Int} (h : Skips low high code) (hlow : low ≤ low')
    (hhigh : high' ≤ high) : Skips low' high' code := by
  intro pc i k hi hk
  have := h pc i k hi hk
  omega

/-- Jumps of two codes lead around what both of them lead around. -/
theorem Skips.append (hcode : Skips low high code)
    (hrest : Skips (low - code.length) (high - code.length) rest) : Skips low high (code ++ rest) := by
  intro pc i k hi hk
  rcases Nat.lt_or_ge pc code.length with hlt | hge
  · rw [List.getElem?_append_left hlt] at hi
    exact hcode pc i k hi hk
  · rw [List.getElem?_append_right hge] at hi
    have := hrest _ i k hi hk
    omega

/-- Closed code skips what is behind it. -/
theorem Closed.skips_behind (h : Closed code) (hlow : code.length ≤ low) : Skips low high code := by
  intro pc i k hi hk
  have := h pc i k hi hk
  omega

/-- Closed code skips what is in front of it. -/
theorem Closed.skips_front (h : Closed code) (hhigh : high ≤ 0) : Skips low high code := by
  intro pc i k hi hk
  have := h pc i k hi hk
  omega

/-- No code has no jumps. -/
theorem skips_nil : Skips low high [] := by
  intro pc i k hi
  cases hi

/-- A jump in front is one more that has to lead around. -/
theorem Skips.cons (hi : ∀ k, i.distance? = some k → k + 1 ≤ low ∨ high ≤ k + 1)
    (hcode : Skips (low - 1) (high - 1) code) : Skips low high (i :: code) := by
  intro pc j k hj hk
  cases pc with
  | zero =>
    cases hj
    have := hi k hk
    omega
  | succ pc =>
    have := hcode pc j k hj hk
    omega

/-- Whether a piece of code is at an offset of other code and can only be entered at its start from the
code around it. -/
def EnclosedAt (n : Nat) (code whole : List Instr) : Prop :=
  ∃ front rest, whole = front ++ code ++ rest ∧ front.length = n ∧
    Skips n (n + code.length : Nat) front ∧ Skips (-code.length) 0 rest

namespace EnclosedAt

variable {k : Nat}

/-- Code is enclosed in itself. -/
theorem refl (code : List Instr) : EnclosedAt 0 code code :=
  ⟨[], [], by simp, rfl, closed_nil.skips_behind (Int.le_refl _), closed_nil.skips_front (Int.le_refl _)⟩

/-- What is enclosed in enclosed code is enclosed. -/
theorem trans (h : EnclosedAt k code whole) (h' : EnclosedAt n whole other) :
    EnclosedAt (n + k) code other := by
  obtain ⟨front, rest, rfl, rfl, hfront, hrest⟩ := h
  obtain ⟨front', rest', rfl, rfl, hfront', hrest'⟩ := h'
  have hwhole : (front ++ code ++ rest).length = front.length + code.length + rest.length := by
    rw [List.length_append, List.length_append]
  refine ⟨front' ++ front, rest ++ rest', by simp, List.length_append, ?_, ?_⟩
  · exact (hfront'.mono (by omega) (by omega)).append (hfront.mono (by omega) (by omega))
  · exact hrest.append (hrest'.mono (by omega) (by omega))

/-- Code between closed code is enclosed. -/
theorem between (hfront : Closed front) (hrest : Closed rest) (code : List Instr) :
    EnclosedAt front.length code (front ++ code ++ rest) :=
  ⟨front, rest, rfl, rfl, hfront.skips_behind (Int.le_refl _), hrest.skips_front (Int.le_refl _)⟩

/-- Closed code in front encloses. -/
theorem append_right (hfront : Closed front) (code : List Instr) :
    EnclosedAt front.length code (front ++ code) := by
  have h := between hfront closed_nil code
  rwa [List.append_nil] at h

/-- Closed code behind encloses. -/
theorem append_left (code : List Instr) (hrest : Closed rest) : EnclosedAt 0 code (code ++ rest) :=
  between closed_nil hrest code

end EnclosedAt

/-- Whether a piece of code can only be entered at its start from the code around it. -/
def Enclosed (code whole : List Instr) : Prop :=
  ∃ front rest, whole = front ++ code ++ rest ∧
    Skips front.length (front.length + code.length : Nat) front ∧ Skips (-code.length) 0 rest

/-- What is enclosed at an offset is enclosed. -/
theorem EnclosedAt.enclosed (h : EnclosedAt n code whole) : Enclosed code whole := by
  obtain ⟨front, rest, hwhole, rfl, hskips⟩ := h
  exact ⟨front, rest, hwhole, hskips⟩

namespace Enclosed

/-- What is enclosed is enclosed at some offset. -/
theorem exists_enclosedAt (h : Enclosed code whole) : ∃ n, EnclosedAt n code whole := by
  obtain ⟨front, rest, hwhole, hskips⟩ := h
  exact ⟨front.length, front, rest, hwhole, rfl, hskips⟩

/-- Code is enclosed in itself, wherever that is. -/
theorem refl (code : List Instr) : Enclosed code code := (EnclosedAt.refl code).enclosed

/-- Enclosing code may be enclosed itself. -/
theorem trans (h : Enclosed code whole) (h' : Enclosed whole other) : Enclosed code other := by
  obtain ⟨_, hat⟩ := h.exists_enclosedAt
  obtain ⟨_, hat'⟩ := h'.exists_enclosedAt
  exact (hat.trans hat').enclosed

/-- Code is enclosed between closed codes. -/
theorem between (hfront : Closed front) (hrest : Closed rest) (code : List Instr) :
    Enclosed code (front ++ code ++ rest) := (EnclosedAt.between hfront hrest code).enclosed

/-- Code is enclosed behind closed code. -/
theorem append_right (hfront : Closed front) (code : List Instr) : Enclosed code (front ++ code) :=
  (EnclosedAt.append_right hfront code).enclosed

/-- Code is enclosed in front of closed code. -/
theorem append_left (code : List Instr) (hrest : Closed rest) : Enclosed code (code ++ rest) :=
  (EnclosedAt.append_left code hrest).enclosed

/-- Nothing is anywhere. -/
theorem nil (whole : List Instr) : Enclosed [] whole := by
  refine ⟨whole, [], by simp, fun pc i k hi hk => ?_, closed_nil.skips_front (Int.le_refl _)⟩
  simp only [List.length_nil, Nat.add_zero]
  omega

/-- An alternative is enclosed where its code is, and anywhere if it is missing. -/
theorem getD {orElse : Option (List Instr)} (h : ∀ code, orElse = some code → Enclosed code whole) :
    Enclosed (orElse.getD []) whole := by
  cases orElse with
  | none => exact nil whole
  | some code => exact h code rfl

/-- Instructions may be replaced by others that jump over the same distances. -/
theorem map {φ : Instr → Instr} (hφ : ∀ i, (φ i).distance? = i.distance?) (h : Enclosed code whole) :
    Enclosed (code.map φ) (whole.map φ) := by
  have hskips {low high : Int} {code : List Instr} (h : Skips low high code) :
      Skips low high (code.map φ) := by
    intro pc i' k hi' hk
    rw [List.getElem?_map, Option.map_eq_some_iff] at hi'
    obtain ⟨i, hi, rfl⟩ := hi'
    exact h pc i k hi (hφ i ▸ hk)
  obtain ⟨front, rest, rfl, hfront, hrest⟩ := h
  refine ⟨front.map φ, rest.map φ, by simp, ?_, ?_⟩
  · simpa only [List.length_map] using hskips hfront
  · simpa only [List.length_map] using hskips hrest

end Enclosed

namespace Compile

/-! ### Bodies inside the code of a branch -/

section

variable {body : List Instr} {orElse : Option (List Instr)}

/-- The code of an alternative is closed if what is in it is. -/
theorem closed_alternativeCode (horElse : Closed (orElse.getD [])) : Closed (alternativeCode orElse) :=
  closed_iff_jumpsWithin.mpr (jumpsWithin_alternativeCode horElse)

/-- The body of a conditional lies between the two jumps, which both lead to its end or past it. -/
theorem body_enclosed_conditionalCode (horElse : Closed (orElse.getD [])) :
    EnclosedAt 1 body (conditionalCode body orElse) := by
  refine ⟨[.jmpf (body.length + orElse.isSome.toNat : Nat)], alternativeCode orElse, rfl, rfl,
    .cons (fun k hk => ?_) skips_nil, (closed_alternativeCode horElse).skips_front (Int.le_refl _)⟩
  cases hk
  omega

/-- The alternative of a conditional is what both jumps lead to the start or to the end of. -/
theorem other_enclosed_conditionalCode (hbody : Closed body) (code : List Instr) :
    EnclosedAt (1 + body.length + 1) code (conditionalCode body (some code)) := by
  refine ⟨.jmpf (body.length + 1 : Nat) :: (body ++ [.jmp code.length]), [],
    by simp [conditionalCode, alternativeCode], ?_, ?_, skips_nil⟩
  · simp only [List.length_cons, List.length_append, List.length_nil]
    omega
  · refine .cons (fun k hk => ?_) ((hbody.skips_behind (by omega)).append
      (.cons (fun k hk => ?_) skips_nil))
    all_goals
      cases hk
      omega

/-- The offset of the body of a loop. -/
def loopStart (orElse : Option (List Instr)) : Nat := if orElse.isSome then 3 else 1

/-- The body of a loop lies between jumps past its end and the jump back to the start. -/
theorem body_enclosed_loopCode (horElse : Closed (orElse.getD [])) :
    EnclosedAt (loopStart orElse) body (loopCode body orElse) := by
  have hback : Skips (-body.length) 0 (.jmp (-(body.length + 2 : Nat)) :: alternativeCode orElse) := by
    refine .cons (fun k hk => ?_) ((closed_alternativeCode horElse).skips_front (by omega))
    cases hk
    omega
  cases orElse with
  | none =>
    refine ⟨[.next (body.length + 1 : Nat)], _, by simp [loopCode], rfl, .cons (fun k hk => ?_) skips_nil,
      hback⟩
    cases hk
    simp only [loopStart, Option.isSome_none, Bool.false_eq_true, if_false]
    omega
  | some code =>
    refine ⟨[.next (body.length + 4 : Nat), .jmp 1, .next (body.length + 2 + code.length : Nat)], _,
      by simp [loopCode], rfl, ?_, hback⟩
    simp only [loopStart, Option.isSome_some, if_true]
    refine .cons (fun k hk => ?_) (.cons (fun k hk => ?_) (.cons (fun k hk => ?_) skips_nil))
    all_goals
      cases hk
      omega

/-- The alternative of a loop is at its end, where no jump leads but to its start. -/
theorem other_enclosed_loopCode (hbody : Closed body) (code : List Instr) :
    EnclosedAt (3 + body.length + 2) code (loopCode body (some code)) := by
  refine ⟨.next (body.length + 4 : Nat) :: .jmp 1 :: .next (body.length + 2 + code.length : Nat) ::
    (body ++ [.jmp (-(body.length + 2 : Nat)), .jmp code.length]), [],
    by simp [loopCode, alternativeCode], ?_, ?_, skips_nil⟩
  · simp only [List.length_cons, List.length_append, List.length_nil]
    omega
  · refine .cons (fun k hk => ?_) (.cons (fun k hk => ?_) (.cons (fun k hk => ?_)
      ((hbody.skips_behind (by omega)).append
        (.cons (fun k hk => ?_) (.cons (fun k hk => ?_) skips_nil)))))
    all_goals
      cases hk
      omega

/-- A body is enclosed in the code that binds its variables. -/
theorem enclosed_boundCode (assign : Bool) (decl : List Nat) (pop : Option Nat) (body : List Instr) :
    Enclosed body (boundCode assign decl pop body) := by
  cases decl with
  | nil => exact .refl body
  | cons name names =>
    have hunset : Closed (if assign then [] else unsetCode [name]) := by
      cases assign
      · exact closed_unsetCode [name]
      · exact closed_nil
    have hset : Closed [.setVar name assign] := closed_cons rfl closed_nil
    exact (Enclosed.between hset hunset body).trans (.append_left _ (closed_popCode _))

/-- A body is enclosed in the code of a turn. -/
theorem enclosed_turnCode (assign : Bool) (decl : List Nat) (body : List Instr) :
    Enclosed body (turnCode assign decl body) := by
  have hunset : Closed (if assign then [] else unsetCode decl) := by
    cases assign
    · exact closed_unsetCode decl
    · exact closed_nil
  have hinner := Enclosed.between (closed_bindCode assign decl) hunset body
  have hpopDot : Closed [.popDot] := closed_cons rfl closed_nil
  have hpushDot : Closed [.pushDot] := closed_cons rfl closed_nil
  exact (hinner.trans (.append_left _ hpopDot)).trans (.append_right hpushDot _)

/-- An alternative is enclosed in the code of the other way through a branch. -/
theorem enclosed_otherCode (decl : List Nat) (pop : Option Nat) (orElse : Option (List Instr)) :
    Enclosed (orElse.getD []) ((otherCode decl pop orElse).getD []) := by
  rw [getD_otherCode]
  apply Enclosed.append_left
  split
  · exact closed_nil
  · exact closed_popCode pop

/-- The body of a branch can only be entered at its start. -/
theorem body_enclosed_branchCode (kind : BranchKind) (assign : Bool) (decl : List Nat)
    (pop : Option Nat) (horElse : Closed (orElse.getD [])) :
    Enclosed body (branchCode kind assign decl pop body orElse) := by
  have hbound := enclosed_boundCode assign decl pop body
  have hother := closed_otherCode decl pop horElse
  cases kind with
  | ifThen =>
    exact (hbound.trans (body_enclosed_conditionalCode hother).enclosed).trans
      (.append_left _ (closed_popCode _))
  | withDot =>
    have hdots : Enclosed (boundCode assign decl pop body)
        (.pushDot :: (boundCode assign decl pop body ++ [.popDot])) :=
      .between (closed_cons rfl closed_nil) (closed_cons rfl closed_nil) _
    exact ((hbound.trans hdots).trans (body_enclosed_conditionalCode hother).enclosed).trans
      (.append_left _ (closed_popCode _))
  | range =>
    have hloop := (enclosed_turnCode assign decl body).trans (body_enclosed_loopCode horElse).enclosed
    have hiter : Closed [.iter] := closed_cons rfl closed_nil
    exact hloop.trans (.between hiter (closed_popCode pop) _)

/-- The alternative of a branch can only be entered at its start. -/
theorem other_enclosed_branchCode (kind : BranchKind) (assign : Bool) (decl : List Nat)
    (pop : Option Nat) (hbody : Closed body) :
    Enclosed (orElse.getD []) (branchCode kind assign decl pop body orElse) := by
  have hbound := closed_boundCode assign decl pop hbody
  have hother := enclosed_otherCode decl pop orElse
  have hconditional {body : List Instr} (hbody : Closed body) (orElse : Option (List Instr)) :
      Enclosed (orElse.getD []) (conditionalCode body orElse) :=
    .getD fun code hcode => hcode ▸ (other_enclosed_conditionalCode hbody code).enclosed
  cases kind with
  | ifThen => exact (hother.trans (hconditional hbound _)).trans (.append_left _ (closed_popCode _))
  | withDot =>
    have hdots : Closed (.pushDot :: (boundCode assign decl pop body ++ [.popDot])) :=
      closed_cons rfl (hbound.append (closed_cons rfl closed_nil))
    exact (hother.trans (hconditional hdots _)).trans (.append_left _ (closed_popCode _))
  | range =>
    have hloop : Enclosed (orElse.getD []) (loopCode (turnCode assign decl body) orElse) :=
      .getD fun code hcode =>
        hcode ▸ (other_enclosed_loopCode (closed_turnCode assign decl hbody) code).enclosed
    have hiter : Closed [.iter] := closed_cons rfl closed_nil
    exact hloop.trans (.between hiter (closed_popCode pop) _)

end

end Compile
end Stencil
