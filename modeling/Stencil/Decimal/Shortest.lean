import Stencil.Binary64

/-!
# Shortest decimals

The shortest decimal that reads back as a given binary number. The numbers that read back as `x`
form an interval around it; the search runs over the grids of one, two, ... significant digits and
takes the first grid with a point in that interval. Only the two grid points next to `x` need to
be looked at, since the interval contains `x`.
-/

namespace Stencil

/-- The decimal number `coefficient * 10 ^ exponent`. -/
structure Decimal where
  coefficient : Nat
  exponent : Int
deriving DecidableEq, Inhabited

/-- Which neighbour to take when two decimals are equally near. -/
inductive TieRule where
  | up
  | even
deriving DecidableEq, Inhabited

namespace Decimal

/-- The decimal digits of a positive integer, most significant first. -/
def digitsOf (n : Nat) : List Char := Nat.toDigits 10 n

/-- The exponent `e` for which `10 ^ e ≤ num / den < 10 ^ (e + 1)`, both numbers being positive. -/
def leadingExponent (num den : Nat) : Int :=
  if den ≤ num then ((digitsOf (num / den)).length : Int) - 1
  else -((digitsOf ((den + num - 1) / num - 1)).length : Int)

/-- Move factors of ten from the coefficient to the exponent. -/
def normalize (fuel : Nat) (d : Decimal) : Decimal :=
  match fuel with
  | 0 => d
  | fuel + 1 =>
    if d.coefficient ≠ 0 ∧ d.coefficient % 10 = 0 then
      normalize fuel ⟨d.coefficient / 10, d.exponent + 1⟩
    else d

/-- The power `b ^ e` as a fraction. -/
def powerRatio (b : Nat) (e : Int) : Nat × Nat :=
  if 0 ≤ e then (Nat.pow b e.toNat, 1) else (1, Nat.pow b (-e).toNat)

/-- The point on the grid of multiples of `10 ^ exponent` that lies in the interval from `low` to
`high` and is nearest to `value`, all three given in units of `2 ^ unit`. -/
def onGrid (tie : TieRule) (closed : Bool) (low value high : Nat) (unit exponent : Int) :
    Option Decimal :=
  let binary := powerRatio 2 unit
  let decimal := powerRatio 10 exponent
  let scale := binary.1 * decimal.2
  let grid := binary.2 * decimal.1
  let inside (d : Nat) : Bool :=
    if closed then low * scale ≤ d * grid && d * grid ≤ high * scale
    else low * scale < d * grid && d * grid < high * scale
  let below := value * scale / grid
  let twice := 2 * (value * scale % grid)
  let takeUpper :=
    if grid = twice then tie = .up ∨ below % 2 = 1 else grid < twice
  if inside below && inside (below + 1) then
    some ⟨if takeUpper then below + 1 else below, exponent⟩
  else if inside below then some ⟨below, exponent⟩
  else if inside (below + 1) then some ⟨below + 1, exponent⟩
  else none

/-- Search the grids of `digits`, `digits + 1`, ... significant digits. -/
def search (tie : TieRule) (closed : Bool) (low value high : Nat) (unit leading : Int) :
    (fuel digits : Nat) → Option Decimal
  | 0, _ => none
  | fuel + 1, digits =>
    match onGrid tie closed low value high unit (leading + 1 - digits) with
    | some d => some d
    | none => search tie closed low value high unit leading fuel (digits + 1)

/-- The shortest decimal that reads back as the size of `x`, for a finite `x` other than zero.
Of several decimals of that length it is the nearest. -/
def shortest (tie : TieRule) (x : Binary64) : Decimal :=
  let m := x.coefficient
  let narrow := x.fraction = 0 ∧ 1 < x.biasedExponent
  let low := 4 * m - if narrow then 1 else 2
  let ratio := powerRatio 2 x.exponent
  let leading := leadingExponent (m * ratio.1) ratio.2
  let found := search tie (m % 2 == 0) low (4 * m) (4 * m + 2) (x.exponent - 2) leading 17 1
  normalize 17 (found.getD ⟨m, 0⟩)

end Decimal
end Stencil
