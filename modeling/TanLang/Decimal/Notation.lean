import TanLang.Text
import TanLang.Decimal.Shortest
/-!
# Decimal — how numbers are written

The digits are always the shortest ones; what differs is the layout. A
program prints its numbers positionally, however long that gets. The
listing of a token writes very large and very small numbers with an
exponent. Both write the sign of a negative zero and spell the values that
are no real number `+Inf`, `-Inf` and `NaN`.
-/

namespace TanLang

namespace Decimal

/-- Which exponents are written with an `e`. -/
structure Layout where
  /-- Whether a number whose first digit stands for this power of ten is
  written with an exponent. -/
  scientific : Int → Bool

/-- The layout of printed numbers: none has an exponent. -/
def positional : Layout := ⟨fun _ => false⟩

/-- Numbers from a million on and below a ten-thousandth have an exponent. -/
def compact : Layout := ⟨fun e => e < -4 || e ≥ 6⟩

/-- The decimal digits of a number, as text. -/
def digitText (n : Nat) : Text := Text.ofNat n

/-- Zeros. -/
def zeros (n : Nat) : Text := List.replicate n 48

/-- A decimal without an exponent. -/
def writePositional (s : Scientific) : Text :=
  let digits := digitText s.digits
  if s.exponent < 0 then
    Text.ofString "0." ++ zeros ((-s.exponent).toNat - 1) ++ digits
  else
    let whole := s.exponent.toNat + 1
    let fraction := digits.drop whole
    digits.take whole ++ zeros (whole - digits.length)
      ++ (if fraction.isEmpty then [] else Text.ofString "." ++ fraction)

/-- A decimal with an exponent, which has a sign and at least two digits. -/
def writeScientific (s : Scientific) : Text :=
  let digits := digitText s.digits
  let exponent := Text.ofNat s.exponent.natAbs
  digits.take 1 ++ (if digits.length = 1 then [] else Text.ofString "." ++ digits.drop 1)
    ++ Text.ofString (if s.exponent < 0 then "e-" else "e+")
    ++ zeros (2 - exponent.length) ++ exponent

/-- **A float in a layout**, in the fewest digits that read back. -/
def write (layout : Layout) (x : Float) : Text :=
  match Binary64.ofFloat x with
  | .nan => Text.ofString "NaN"
  | .infinite negative => Text.ofString (if negative then "-Inf" else "+Inf")
  | .finite negative mantissa power narrow =>
    let size :=
      if mantissa = 0 then Text.ofString "0"
      else
        let s := shortest mantissa power narrow
        if layout.scientific s.exponent then writeScientific s else writePositional s
    if negative then Text.ofString "-" ++ size else size

end Decimal

end TanLang
