/-!
# Binary floating-point numbers

A number is its 64-bit pattern, so signed zeros and the payloads of NaNs stay distinct. Finite
numbers decode to an integer coefficient and a power of two; comparison, rounding of integers and
every textual form are stated on that pair in exact integer arithmetic.
-/

namespace Stencil

/-- A double-precision number, given by its bit pattern. -/
structure Binary64 where
  bits : UInt64
deriving DecidableEq, Inhabited

namespace Binary64

/-- The sign bit. -/
def isNegative (x : Binary64) : Bool := Nat.pow 2 63 ≤ x.bits.toNat

/-- All bits but the sign. -/
def magnitude (x : Binary64) : Nat := x.bits.toNat % Nat.pow 2 63

/-- The biased exponent. -/
def biasedExponent (x : Binary64) : Nat := x.magnitude / Nat.pow 2 52

/-- The stored part of the significand. -/
def fraction (x : Binary64) : Nat := x.magnitude % Nat.pow 2 52

/-- Whether the pattern is not a number. -/
def isNaN (x : Binary64) : Bool := x.biasedExponent == 2047 && x.fraction != 0

/-- Whether the pattern is an infinity of either sign. -/
def isInfinite (x : Binary64) : Bool := x.biasedExponent == 2047 && x.fraction == 0

/-- Whether the number is a zero of either sign. -/
def isZero (x : Binary64) : Bool := x.magnitude == 0

/-- Positive zero. -/
def zero : Binary64 := ⟨0⟩

/-- The integer coefficient of a finite number: its size is `coefficient * 2 ^ exponent`. -/
def coefficient (x : Binary64) : Nat :=
  if x.biasedExponent = 0 then x.fraction else Nat.pow 2 52 + x.fraction

/-- The power of two that goes with `coefficient`. -/
def exponent (x : Binary64) : Int :=
  if x.biasedExponent = 0 then -1074 else (x.biasedExponent : Int) - 1075

/-- Equality of numbers: zeros of both signs are equal, and a NaN equals nothing. -/
def same (x y : Binary64) : Bool :=
  !x.isNaN && !y.isNaN && (x.bits == y.bits || (x.isZero && y.isZero))

/-- Position in the total order of all patterns: negative NaNs, negative numbers, negative zero,
positive zero, positive numbers, positive NaNs. -/
def rank (x : Binary64) : Int :=
  if x.isNegative then -(x.magnitude : Int) - 1 else x.magnitude

/-- The pattern of a size that is `n` with the sign `negative`, rounding to the nearest number and
a tie to the even coefficient. -/
def ofNatSigned (negative : Bool) (n : Nat) : Binary64 :=
  let sign := if negative then Nat.pow 2 63 else 0
  if n = 0 then ⟨UInt64.ofNat sign⟩
  else
    let scale := n.log2
    let base := (scale + 1022) * Nat.pow 2 52
    if scale ≤ 52 then ⟨UInt64.ofNat (sign + base + n * Nat.pow 2 (52 - scale))⟩
    else
      let unit := Nat.pow 2 (scale - 52)
      let quotient := n / unit
      let twice := 2 * (n % unit)
      let up := unit < twice ∨ (unit = twice ∧ quotient % 2 = 1)
      ⟨UInt64.ofNat (sign + base + quotient + if up then 1 else 0)⟩

/-- The number nearest to an integer. -/
def ofInt64 (i : Int64) : Binary64 :=
  ofNatSigned (i.toInt < 0) i.toInt.natAbs

end Binary64
end Stencil
