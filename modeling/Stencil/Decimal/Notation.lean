import Stencil.Decimal.Shortest

/-!
# Notations for numbers

How a binary number is written: with the shortest digits, either positionally or with an exponent,
in one of several styles; or rounded to a given number of places.
-/

namespace Stencil

/-- A way to write numbers with their shortest digits. -/
structure NumberStyle where
  tie : TieRule
  /-- Numbers whose leading exponent satisfies this are written positionally. -/
  positional : Int → Bool
  /-- Whether a whole number written positionally ends in `.0`. -/
  pointZero : Bool
  /-- Whether an exponent that is not negative has a plus sign. -/
  plusExponent : Bool
  /-- The least number of digits of an exponent. -/
  exponentWidth : Nat
  positiveInfinity : String
  negativeInfinity : String

namespace Decimal

/-- Digits with the point after the first `e + 1` of them, padded with zeros on either side. -/
def positionalText (digits : List Char) (e : Int) (pointZero : Bool) : String :=
  if e < 0 then
    String.ofList ('0' :: '.' :: (List.replicate ((-e).toNat - 1) '0' ++ digits))
  else
    let whole := e.toNat + 1
    let tail := digits.drop whole
    let head := digits.take whole ++ List.replicate (whole - digits.length) '0'
    if tail.isEmpty then String.ofList head ++ (if pointZero then ".0" else "")
    else String.ofList (head ++ '.' :: tail)

/-- Digits with the point after the first of them, followed by the exponent. -/
def exponentText (digits : List Char) (e : Int) (plus : Bool) (width : Nat) : String :=
  let tail := digits.drop 1
  let mantissa := digits.take 1 ++ (if tail.isEmpty then [] else '.' :: tail)
  let sign := if e < 0 then ['-'] else if plus then ['+'] else []
  let size := digitsOf e.natAbs
  String.ofList (mantissa ++ 'e' :: sign ++ List.replicate (width - size.length) '0' ++ size)

end Decimal

namespace NumberStyle

/-- The text of a number in this style. -/
def format (style : NumberStyle) (x : Binary64) : String :=
  if x.isNaN then "NaN"
  else if x.isInfinite then
    if x.isNegative then style.negativeInfinity else style.positiveInfinity
  else
    let sign := if x.isNegative then "-" else ""
    if x.isZero then sign ++ (if style.pointZero then "0.0" else "0")
    else
      let d := Decimal.shortest style.tie x
      let digits := Decimal.digitsOf d.coefficient
      let e := d.exponent + digits.length - 1
      if style.positional e then sign ++ Decimal.positionalText digits e style.pointZero
      else sign ++ Decimal.exponentText digits e style.plusExponent style.exponentWidth

/-- Numbers in printed values: an exponent of at least two digits below `1e-04` and from `1e+06`
on. -/
def printed : NumberStyle where
  tie := .up
  positional e := -4 ≤ e && e < 6
  pointZero := false
  plusExponent := true
  exponentWidth := 2
  positiveInfinity := "+Inf"
  negativeInfinity := "-Inf"

/-- Numbers in the diagnostic form of a value: never an exponent. -/
def plain : NumberStyle where
  tie := .up
  positional _ := true
  pointZero := false
  plusExponent := false
  exponentWidth := 1
  positiveInfinity := "inf"
  negativeInfinity := "-inf"

/-- Numbers in the diagnostic form of a map key: whole numbers keep `.0`. -/
def keyed : NumberStyle where
  tie := .up
  positional e := -4 ≤ e && e < 16
  pointZero := true
  plusExponent := false
  exponentWidth := 1
  positiveInfinity := "inf"
  negativeInfinity := "-inf"

/-- Numbers in script source. -/
def script : NumberStyle where
  tie := .even
  positional e := -5 ≤ e && e < 16
  pointZero := true
  plusExponent := true
  exponentWidth := 1
  positiveInfinity := "null"
  negativeInfinity := "null"

end NumberStyle

namespace Decimal

/-- The quotient rounded to the nearest integer, a tie going to the even one. -/
def roundHalfEven (num den : Nat) : Nat :=
  let quotient := num / den
  let twice := 2 * (num % den)
  if den < twice ∨ (den = twice ∧ quotient % 2 = 1) then quotient + 1 else quotient

/-- A number rounded to `places` digits after the point. -/
def fixedText (places : Nat) (x : Binary64) : String :=
  if x.isNaN then "NaN"
  else
    let sign := if x.isNegative then "-" else ""
    if x.isInfinite then sign ++ "inf"
    else
      let ratio := powerRatio 2 x.exponent
      let digits := digitsOf (roundHalfEven (x.coefficient * ratio.1 * Nat.pow 10 places) ratio.2)
      let padded := List.replicate (places + 1 - digits.length) '0' ++ digits
      let whole := String.ofList (padded.take (padded.length - places))
      if places = 0 then sign ++ whole
      else sign ++ whole ++ "." ++ String.ofList (padded.drop (padded.length - places))

end Decimal
end Stencil
