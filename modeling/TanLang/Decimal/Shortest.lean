import TanLang.Decimal.Binary64
/-!
# Decimal — the fewest digits that read back

Of all decimals that round to a given float, the ones with the fewest
digits are the natural way to write it, and of those the one nearest to
the float. For one digit, two digits, and so on, the float's two
neighbours on the grid of decimals with that many digits are tried; the
first grid with a hit wins, the nearer neighbour if both hit, and the even
one if they are equally near. All comparisons are of whole numbers, so
they are exact.
-/

namespace TanLang

namespace Decimal

/-- A positive decimal in scientific form: `digits` is written with a point
after its first digit, times `10 ^ exponent`. -/
structure Scientific where
  /-- The digits, as one number that does not end in a zero. -/
  digits : Nat
  /-- The power of ten of the first digit. -/
  exponent : Int
  deriving DecidableEq, Inhabited

/-- How many decimal digits a positive number has. -/
def length (n : Nat) : Nat := (Nat.toDigits 10 n).length

/-- The two whole numbers whose quotient is `n · 2 ^ power / 10 ^ scale`. -/
def ratio (n : Nat) (power scale : Int) : Nat × Nat :=
  (n * Nat.pow 2 power.toNat * Nat.pow 10 (-scale).toNat,
    Nat.pow 2 (-power).toNat * Nat.pow 10 scale.toNat)

/-- The power of ten of the first digit of `mantissa · 2 ^ power`, if that
has so many places or fewer before its first digit. -/
def leadingWithin (mantissa : Nat) (power : Int) (places : Nat) : Option Int :=
  let (a, b) := ratio mantissa power (-(places : Int))
  if b ≤ a then some ((length (a / b) : Int) - places - 1) else none

/-- The power of ten of the first digit of `mantissa · 2 ^ power`, for any
positive float: scaled by `10 ^ 330` the least of them is above one. The
numbers are smaller if fewer places do. -/
def leadingExponent (mantissa : Nat) (power : Int) : Int :=
  match [0, 20, 330].findSome? (leadingWithin mantissa power) with
  | some e => e
  | none => 0

/-- The decimal on the grid of multiples of `10 ^ scale` that stands for the
float, if one does. The interval of reals that round to the float has its
ends included if the mantissa is even. -/
def onGrid (mantissa : Nat) (power : Int) (narrow : Bool) (scale : Int) : Option Nat :=
  let (value, unit) := ratio (4 * mantissa) (power - 2) scale
  let (low, _) := ratio (4 * mantissa - if narrow then 1 else 2) (power - 2) scale
  let (high, _) := ratio (4 * mantissa + 2) (power - 2) scale
  let below := value / unit
  let above := below + 1
  let slack := if mantissa % 2 = 0 then 0 else 1
  let hitBelow := low + slack ≤ below * unit
  let hitAbove := above * unit + slack ≤ high
  if hitBelow ∧ hitAbove then
    let left := value - below * unit
    let right := above * unit - value
    if left < right ∨ (left = right ∧ below % 2 = 0) then some below else some above
  else if hitBelow then some below
  else if hitAbove then some above
  else none

/-- The zeros at the end of a number taken off. -/
def trim : Nat → Nat → Nat
  | 0, n => n
  | fuel + 1, n => if n % 10 = 0 ∧ n ≠ 0 then trim fuel (n / 10) else n

/-- The first grid with a hit, from `count` digits on. -/
def search (mantissa : Nat) (power : Int) (narrow : Bool) (leading : Int) :
    Nat → Nat → Scientific
  | 0, _ => ⟨0, 0⟩
  | tries + 1, count =>
    let scale := leading - (count : Int) + 1
    match onGrid mantissa power narrow scale with
    | some d => ⟨trim 20 d, scale + (length d : Int) - 1⟩
    | none => search mantissa power narrow leading tries (count + 1)

/-- **The shortest decimal of `mantissa · 2 ^ power`**, which is not zero.
Seventeen digits always suffice. -/
def shortest (mantissa : Nat) (power : Int) (narrow : Bool) : Scientific :=
  search mantissa power narrow (leadingExponent mantissa power) 17 1

end Decimal

end TanLang
