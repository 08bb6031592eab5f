import Stencil.Decimal.Notation

/-!
# Numerals in script data

The texts of integers and of finite numbers in script source are numerals of script data: a whole number
without needless zeros, which may have a sign, a fraction and an exponent. For the shortest digits of a
number this needs that the first of them is not zero, and so that the search for them never ends at zero.
-/

namespace Stencil

namespace Numeral

/-- A whole number, which starts with zero only if it is zero. -/
inductive IsWhole : List Char → Prop where
  | zero : IsWhole ['0']
  | digits {d : Char} {ds : List Char} (hzero : d ≠ '0') (hdigits : ∀ c ∈ d :: ds, c.isDigit) :
      IsWhole (d :: ds)

/-- The digits after the point, if there are any. -/
inductive IsFraction : List Char → Prop where
  | none : IsFraction []
  | digits {ds : List Char} (hne : ds ≠ []) (hdigits : ∀ c ∈ ds, c.isDigit) : IsFraction ('.' :: ds)

/-- The exponent, if there is one. -/
inductive IsExponent : List Char → Prop where
  | none : IsExponent []
  | digits {letter : Char} {sign ds : List Char} (hletter : letter = 'e' ∨ letter = 'E')
      (hsign : sign = [] ∨ sign = ['+'] ∨ sign = ['-']) (hne : ds ≠ [])
      (hdigits : ∀ c ∈ ds, c.isDigit) : IsExponent (letter :: (sign ++ ds))

/-- A numeral of script data. -/
structure IsNumeral (sign whole fraction exponent : List Char) : Prop where
  sign : sign = [] ∨ sign = ['-']
  whole : IsWhole whole
  fraction : IsFraction fraction
  exponent : IsExponent exponent

/-- Whether a text is a numeral. -/
def Is (cs : List Char) : Prop :=
  ∃ sign whole fraction exponent, cs = sign ++ (whole ++ (fraction ++ exponent)) ∧
    IsNumeral sign whole fraction exponent

variable {cs whole fraction exponent : List Char} {c : Char}

/-- A whole number has digits. -/
theorem IsWhole.ne_nil (h : IsWhole whole) : whole ≠ [] := by
  cases h <;> exact List.cons_ne_nil _ _

/-- A whole number has digits only. -/
theorem IsWhole.isDigit (h : IsWhole whole) (hc : c ∈ whole) : c.isDigit := by
  cases h with
  | zero => rw [List.mem_singleton.mp hc]; rfl
  | digits _ hdigits => exact hdigits c hc

/-- A numeral starts with a sign or a digit. -/
theorem Is.exists_eq_cons (h : Is cs) : ∃ c cs', cs = c :: cs' ∧ (c = '-' ∨ c.isDigit) := by
  obtain ⟨sign, whole, fraction, exponent, rfl, h⟩ := h
  rcases h.sign with rfl | rfl
  · have hne := h.whole.ne_nil
    cases whole with
    | nil => exact absurd rfl hne
    | cons d ds => exact ⟨d, _, rfl, .inr (h.whole.isDigit List.mem_cons_self)⟩
  · exact ⟨'-', _, rfl, .inl rfl⟩

end Numeral

namespace Decimal

open Numeral

variable {n : Nat} {c : Char}

/-- The digits of a number are digits. -/
theorem isDigit_of_mem_digitsOf (h : c ∈ digitsOf n) : c.isDigit :=
  Nat.isDigit_of_mem_toDigits (by decide) (by decide) h

/-- A number has digits. -/
theorem digitsOf_ne_nil (n : Nat) : digitsOf n ≠ [] := Nat.toDigits_ne_nil

/-- The first digit of a positive number is not zero. -/
theorem exists_digitsOf_eq_cons (h : n ≠ 0) : ∃ d ds, digitsOf n = d :: ds ∧ d ≠ '0' := by
  induction n using Nat.strongRecOn with
  | ind n ih =>
    rw [digitsOf, Nat.toDigits_eq_if (by decide)]
    split
    · next hlt =>
      refine ⟨n.digitChar, [], rfl, ?_⟩
      have hchar : ∀ k < 10, k ≠ 0 → k.digitChar ≠ '0' := by decide
      exact hchar n hlt h
    · next hge =>
      obtain ⟨d, ds, hdigits, hd⟩ := ih (n / 10) (by omega) (by omega)
      rw [digitsOf] at hdigits
      exact ⟨d, ds ++ [(n % 10).digitChar], by rw [hdigits]; rfl, hd⟩

/-- The digits of a number are a whole number. -/
theorem isWhole_digitsOf (n : Nat) : IsWhole (digitsOf n) := by
  by_cases h : n = 0
  · rw [h]
    exact .zero
  · obtain ⟨d, ds, hdigits, hd⟩ := exists_digitsOf_eq_cons h
    have hall : ∀ c ∈ d :: ds, c.isDigit := fun c hc => isDigit_of_mem_digitsOf (hdigits ▸ hc)
    exact hdigits ▸ .digits hd hall

end Decimal

namespace Numeral

open Decimal

/-- The text of an integer is a numeral. -/
theorem is_toString (i : Int) : Is (toString i).toList := by
  have hrepr : toString i = i.repr := rfl
  rw [hrepr, Int.repr_eq_if]
  split
  · refine ⟨[], digitsOf i.toNat, [], [], ?_, .inl rfl, isWhole_digitsOf _, .none, .none⟩
    rw [Nat.toList_repr]
    simp [digitsOf]
  · refine ⟨['-'], digitsOf (-i).toNat, [], [], ?_, .inr rfl, isWhole_digitsOf _, .none, .none⟩
    rw [String.toList_append, Nat.toList_repr]
    simp [digitsOf]

end Numeral

namespace Decimal

open Numeral

variable {tie : TieRule} {closed : Bool} {low value high fuel digits : Nat} {unit exponent leading : Int}
  {d : Decimal}

/-- A power of a positive base is a ratio of positive numbers. -/
theorem powerRatio_pos {b : Nat} (hb : 0 < b) (e : Int) :
    0 < (powerRatio b e).1 ∧ 0 < (powerRatio b e).2 := by
  unfold powerRatio
  split
  · exact ⟨Nat.pow_pos hb, Nat.one_pos⟩
  · exact ⟨Nat.one_pos, Nat.pow_pos hb⟩

/-- A point between positive bounds is not zero. -/
theorem ne_zero_of_between {scale grid k : Nat} (hpos : 0 < low * scale)
    (h : (if closed then low * scale ≤ k * grid && k * grid ≤ high * scale
      else low * scale < k * grid && k * grid < high * scale) = true) : k ≠ 0 := by
  rintro rfl
  rw [Nat.zero_mul] at h
  split at h
  · have hle : low * scale ≤ 0 := of_decide_eq_true (Bool.and_eq_true_iff.mp h).1
    exact absurd hle (Nat.not_le_of_lt hpos)
  · have hlt : low * scale < 0 := of_decide_eq_true (Bool.and_eq_true_iff.mp h).1
    exact absurd hlt (Nat.not_lt_zero _)

/-- Of the two points next to a number one that is inside of the interval is chosen. -/
theorem inside_of_chosen {inside : Nat → Bool} {below : Nat} {upper : Prop} [Decidable upper]
    (h : (if inside below && inside (below + 1) then
        some (Decimal.mk (if upper then below + 1 else below) exponent)
      else if inside below then some ⟨below, exponent⟩
      else if inside (below + 1) then some ⟨below + 1, exponent⟩
      else none) = some d) : inside d.coefficient = true := by
  split at h
  · next hboth =>
    obtain ⟨hbelow, habove⟩ := Bool.and_eq_true_iff.mp hboth
    cases h
    dsimp only
    split
    · exact habove
    · exact hbelow
  · split at h
    · next hbelow =>
      cases h
      exact hbelow
    · split at h
      · next habove =>
        cases h
        exact habove
      · cases h

/-- What lies on the grid of a positive interval is not zero. -/
theorem coefficient_ne_zero_of_onGrid (hlow : 0 < low)
    (h : onGrid tie closed low value high unit exponent = some d) : d.coefficient ≠ 0 := by
  have hscale : 0 < (powerRatio 2 unit).1 * (powerRatio 10 exponent).2 :=
    Nat.mul_pos (powerRatio_pos (by decide) unit).1 (powerRatio_pos (by decide) exponent).2
  unfold onGrid at h
  extract_lets binary decimal scale grid inside below twice takeUpper at h
  have hinside : inside d.coefficient = true := inside_of_chosen h
  exact ne_zero_of_between (Nat.mul_pos hlow hscale) hinside

/-- The search in a positive interval does not find zero. -/
theorem coefficient_ne_zero_of_search (hlow : 0 < low)
    (h : search tie closed low value high unit leading fuel digits = some d) : d.coefficient ≠ 0 := by
  induction fuel generalizing digits with
  | zero => cases h
  | succ fuel ih =>
    rw [search] at h
    split at h
    · next hgrid =>
      cases h
      exact coefficient_ne_zero_of_onGrid hlow hgrid
    · exact ih h

/-- Leaving out zeros at the end does not lead to zero. -/
theorem coefficient_ne_zero_of_normalize (h : d.coefficient ≠ 0) (fuel : Nat) :
    (normalize fuel d).coefficient ≠ 0 := by
  induction fuel generalizing d with
  | zero => exact h
  | succ fuel ih =>
    rw [normalize]
    split
    · next hten =>
      have hquotient : d.coefficient / 10 ≠ 0 := by omega
      exact ih hquotient
    · exact h

/-- What has been found, or else something that is not zero, is not zero. -/
theorem coefficient_ne_zero_of_getD {found : Option Decimal} {other : Decimal}
    (hother : other.coefficient ≠ 0) (hfound : ∀ d, found = some d → d.coefficient ≠ 0) :
    (found.getD other).coefficient ≠ 0 := by
  cases found with
  | none => exact hother
  | some d => exact hfound d rfl

/-- The shortest decimal of a number other than zero is not zero. -/
theorem coefficient_ne_zero_of_shortest {x : Binary64} (h : x.isZero = false) :
    (shortest tie x).coefficient ≠ 0 := by
  have hm : x.coefficient ≠ 0 := by
    have hmagnitude : x.magnitude ≠ 0 := by simpa [Binary64.isZero] using h
    rw [Binary64.coefficient]
    split
    · next hexponent =>
      have hsplit := Nat.div_add_mod x.magnitude (Nat.pow 2 52)
      rw [Binary64.biasedExponent] at hexponent
      rw [hexponent, Nat.mul_zero, Nat.zero_add] at hsplit
      rwa [Binary64.fraction, hsplit]
    · have hpow : 0 < Nat.pow 2 52 := by decide
      omega
  rw [shortest]
  have hlow : 0 < 4 * x.coefficient - if x.fraction = 0 ∧ 1 < x.biasedExponent then 1 else 2 := by
    split <;> omega
  exact coefficient_ne_zero_of_normalize
    (coefficient_ne_zero_of_getD hm fun d hd => coefficient_ne_zero_of_search hlow hd) 17

end Decimal

namespace Numeral

open Decimal

variable {d : Char} {ds sign : List Char}

/-- Zeros are digits. -/
theorem isDigit_of_mem_replicate {n : Nat} : ∀ c ∈ List.replicate n '0', c.isDigit := by
  intro c hc
  rw [(List.mem_replicate.mp hc).2]
  rfl

/-- Digits behind digits are digits. -/
theorem isDigit_of_mem_append {ds ds' : List Char} (h : ∀ c ∈ ds, c.isDigit)
    (h' : ∀ c ∈ ds', c.isDigit) : ∀ c ∈ ds ++ ds', c.isDigit := List.forall_mem_append.mpr ⟨h, h'⟩

section

variable (hsign : sign = [] ∨ sign = ['-']) (hzero : d ≠ '0') (hdigits : ∀ c ∈ d :: ds, c.isDigit)
  (e : Int)

include hsign hzero hdigits

/-- Digits with a point are a numeral if a whole number ends in `.0`. -/
theorem is_positionalText : Is (sign ++ (positionalText (d :: ds) e true).toList) := by
  obtain ⟨hd, hds⟩ := List.forall_mem_cons.mp hdigits
  unfold positionalText
  split
  · refine ⟨sign, ['0'], '.' :: (List.replicate ((-e).toNat - 1) '0' ++ d :: ds), [], ?_, hsign, .zero,
      .digits ?_ (isDigit_of_mem_append isDigit_of_mem_replicate hdigits), .none⟩
    · rw [String.toList_ofList, List.append_nil]
      rfl
    · exact List.append_ne_nil_of_right_ne_nil _ (List.cons_ne_nil d ds)
  · have hwhole : IsWhole (d :: (ds.take e.toNat ++ List.replicate (e.toNat + 1 - (d :: ds).length) '0')) :=
      .digits hzero (List.forall_mem_cons.mpr ⟨hd, isDigit_of_mem_append
        (fun c hc => hds c (List.mem_of_mem_take hc)) isDigit_of_mem_replicate⟩)
    dsimp only
    split
    · refine ⟨sign, _, ['.', '0'], [], ?_, hsign, hwhole, .digits (List.cons_ne_nil _ _) (by simp), .none⟩
      rw [String.toList_append, String.toList_ofList]
      rfl
    · next htail =>
      refine ⟨sign, _, '.' :: (d :: ds).drop (e.toNat + 1), [], ?_, hsign, hwhole, .digits ?_ ?_, .none⟩
      · rw [String.toList_ofList, List.append_nil]
        rfl
      · exact fun h => htail (List.isEmpty_iff.mpr h)
      · exact fun c hc => hdigits c (List.mem_of_mem_drop hc)

/-- Digits with an exponent are a numeral. -/
theorem is_exponentText (plus : Bool) (width : Nat) :
    Is (sign ++ (exponentText (d :: ds) e plus width).toList) := by
  obtain ⟨hd, hds⟩ := List.forall_mem_cons.mp hdigits
  have hfraction : IsFraction (if ds.isEmpty then [] else '.' :: ds) := by
    split
    · exact .none
    · next hne => exact .digits (fun h => hne (List.isEmpty_iff.mpr h)) hds
  have hletter : (if e < 0 then ['-'] else if plus then ['+'] else []) = [] ∨
      (if e < 0 then ['-'] else if plus then ['+'] else []) = ['+'] ∨
      (if e < 0 then ['-'] else if plus then ['+'] else []) = ['-'] := by
    split
    · exact .inr (.inr rfl)
    · split
      · exact .inr (.inl rfl)
      · exact .inl rfl
  have hsize : List.replicate (width - (digitsOf e.natAbs).length) '0' ++ digitsOf e.natAbs ≠ [] :=
    List.append_ne_nil_of_right_ne_nil _ (digitsOf_ne_nil _)
  refine ⟨sign, [d], _, _, ?_, hsign, .digits hzero (List.forall_mem_singleton.mpr hd), hfraction,
    .digits (.inl rfl) hletter hsize (isDigit_of_mem_append isDigit_of_mem_replicate
      fun c hc => isDigit_of_mem_digitsOf hc)⟩
  rw [exponentText, String.toList_ofList]
  simp only [List.drop_succ_cons, List.drop_zero, List.take_succ_cons, List.take_zero, List.append_assoc,
    List.cons_append, List.nil_append]

end

/-- The text of a finite number in script source is a numeral. -/
theorem is_script {x : Binary64} (hnan : x.isNaN = false) (hinfinite : x.isInfinite = false) :
    Is (NumberStyle.script.format x).toList := by
  have hsign : (if x.isNegative then "-" else "").toList = [] ∨
      (if x.isNegative then "-" else "").toList = ['-'] := by
    split
    · exact .inr rfl
    · exact .inl rfl
  rw [NumberStyle.format, hnan, hinfinite, if_neg nofun, if_neg nofun]
  dsimp only
  cases hzero : x.isZero with
  | true =>
    rw [if_pos rfl, String.toList_append]
    exact ⟨_, ['0'], ['.', '0'], [], rfl, hsign, .zero, .digits (List.cons_ne_nil _ _) (by simp), .none⟩
  | false =>
    rw [if_neg nofun]
    obtain ⟨d, ds, hdigits, hd⟩ := exists_digitsOf_eq_cons
      (@coefficient_ne_zero_of_shortest NumberStyle.script.tie x hzero)
    have hall : ∀ c ∈ d :: ds, c.isDigit := fun c hc => isDigit_of_mem_digitsOf (hdigits ▸ hc)
    rw [hdigits]
    split
    · rw [String.toList_append]
      exact is_positionalText hsign hd hall _
    · rw [String.toList_append]
      exact is_exponentText hsign hd hall _ _ _

end Numeral
end Stencil
