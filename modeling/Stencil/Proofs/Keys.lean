import Mathlib.Order.Basic
import Stencil.Value

/-!
# The order of keys

The order of keys is that of their places: the kind, then a number, then a text, each of which is compared
as usual. Places of different keys differ, down to the bits of a number, so the order is total and keys
that it does not tell apart are the same key. Such keys are also hashed alike, as they should be in a table
that looks for equal keys: what a hash function is fed with tells all keys apart as well.
-/

namespace Stencil

namespace Binary64

/-- Patterns that are at the same place in the order of all patterns are the same. -/
theorem rank_injective : Function.Injective rank := by
  intro x y h
  have hx := x.bits.toNat_lt
  have hy := y.bits.toNat_lt
  have hbits : x.bits.toNat = y.bits.toNat := by
    simp only [rank, isNegative, magnitude, Nat.pow_eq, decide_eq_true_eq] at h
    split at h <;> split at h <;> omega
  obtain ⟨x⟩ := x
  obtain ⟨y⟩ := y
  exact congrArg mk (UInt64.toNat_inj.mp hbits)

end Binary64

/-- No two kinds of keys have the same rank. -/
theorem KeyKind.rank_injective : Function.Injective KeyKind.rank := by
  intro j k h
  cases j <;> cases k <;> first | rfl | cases h

namespace Key

/-! ### Order -/

/-- The content of a key that is not a text. -/
def number : Key → Int
  | bool b => b.toNat
  | int i => i.toInt
  | float x => x.rank
  | text _ => 0

/-- The content of a key that is a text. -/
def letters : Key → String
  | text s => s
  | _ => ""

/-- The order of places: first the kinds, then the numbers, then the texts. -/
def placeOrder : Key → Key → Ordering :=
  compareLex (compareOn fun k => k.kind.rank) (compareLex (compareOn number) (compareOn letters))

/-- Truth values are ordered like the numbers that stand for them. -/
theorem compare_bool (a b : Bool) : compare a.toNat b.toNat = compare (a.toNat : Int) b.toNat := by
  cases a <;> cases b <;> rfl

/-- Keys are ordered by their kinds and then by their values. -/
theorem order_eq_placeOrder : order = placeOrder := by
  funext a b
  cases a <;> cases b <;>
    simp [order, placeOrder, compareLex, compareOn, kind, KeyKind.rank, number, letters, compare_bool]
  all_goals rfl

/-- Keys with the same place are the same key. -/
theorem eq_of_place_eq {a b : Key} (hrank : a.kind.rank = b.kind.rank) (hnumber : a.number = b.number)
    (hletters : a.letters = b.letters) : a = b := by
  have hkind := KeyKind.rank_injective hrank
  clear hrank
  cases a <;> cases b <;> simp only [kind, reduceCtorEq] at hkind <;>
    simp only [number, letters] at hnumber hletters
  case bool.bool a b => cases a <;> cases b <;> first | rfl | exact absurd hnumber (by decide)
  case int.int => rw [Int64.toInt_inj.mp hnumber]
  case float.float => rw [Binary64.rank_injective hnumber]
  case text.text => rw [hletters]

instance : Std.TransOrd Key := by
  have h : Std.TransCmp placeOrder := inferInstanceAs (Std.TransCmp (compareLex _ (compareLex _ _)))
  rwa [← order_eq_placeOrder] at h

instance : Std.LawfulEqOrd Key where
  eq_of_compare {a b} h := by
    have h : placeOrder a b = .eq := order_eq_placeOrder ▸ h
    simp only [placeOrder, compareLex, Ordering.then_eq_eq, compareOn, Std.compare_eq_iff_eq] at h
    exact eq_of_place_eq h.1 h.2.1 h.2.2

/-! ### Hashing -/

/-- A piece of what a hash function is fed with. -/
inductive HashInput where
  | byte (b : UInt8)
  | word (w : UInt64)
  | bytes (b : ByteArray)

/-- What a hash function is fed with for a key: its kind, then its content. A number is hashed by its bits,
and a text ends in a byte that no text contains. -/
def hashInput : Key → List HashInput
  | bool b => [.word 0, .byte b.toUInt8]
  | int i => [.word 1, .word i.toUInt64]
  | float x => [.word 2, .word x.bits]
  | text s => [.word 3, .bytes s.toUTF8, .byte 0xff]

/-- The state of a hash function after a key. -/
def hash {σ : Type} (feed : σ → HashInput → σ) (state : σ) (k : Key) : σ :=
  k.hashInput.foldl feed state

/-- Keys for which hash functions are fed with the same are the same key. -/
theorem hashInput_injective : Function.Injective hashInput := by
  intro a b h
  cases a <;> cases b <;> simp [hashInput] at h
  case bool.bool a b => cases a <;> cases b <;> first | rfl | exact absurd h (by decide)
  case int.int => exact congrArg Key.int (congrArg Int64.ofUInt64 h)
  case float.float => exact congrArg Key.float (congrArg Binary64.mk h)
  case text.text => rw [String.toByteArray_inj.mp h]

/-- Equal keys are hashed alike by every hash function, and only they are. -/
theorem compare_eq_eq_iff_hash (a b : Key) :
    compare a b = .eq ↔
      ∀ (σ : Type) (feed : σ → HashInput → σ) (state : σ), a.hash feed state = b.hash feed state := by
  rw [Std.compare_eq_iff_eq]
  constructor
  · rintro rfl _ _ _
    rfl
  · intro h
    have hinput (k : Key) : k.hash (fun inputs i => inputs ++ [i]) [] = k.hashInput := by
      cases k <;> rfl
    have hsame := h _ (fun inputs i => inputs ++ [i]) []
    rw [hinput, hinput] at hsame
    exact hashInput_injective hsame

end Key
end Stencil
