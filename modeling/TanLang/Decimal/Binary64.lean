/-!
# Decimal — what a 64-bit float stands for

A finite 64-bit float is a whole number of units of a power of two. This
file reads that number and that power off the bit pattern, together with
the interval of reals that round to the float; both are exact, and all
later decimal work is done on them in whole numbers.
-/

namespace TanLang

namespace Decimal

/-- What the bits of a float say. -/
inductive Binary64 where
  /-- No number. -/
  | nan
  /-- One of the two infinities. -/
  | infinite (negative : Bool)
  /-- The number `±mantissa · 2 ^ power`. The flag `narrow` says that the
  next float below is nearer than the next one above, which happens at the
  powers of two. -/
  | finite (negative : Bool) (mantissa : Nat) (power : Int) (narrow : Bool)
  deriving DecidableEq, Inhabited

/-- The weight of the bit of the sign. -/
def signWeight : Nat := 0x8000000000000000

/-- How many fractions there are. -/
def fractionCount : Nat := 0x10000000000000

/-- How many exponents there are. -/
def exponentCount : Nat := 0x800

/-- **The value of a float, read off its bits**: a sign, eleven bits of
exponent and fifty-two of fraction. -/
def Binary64.ofFloat (x : Float) : Binary64 :=
  let bits := x.toBits.toNat
  let negative := bits / signWeight == 1
  let exponent : Nat := bits / fractionCount % exponentCount
  let fraction : Nat := bits % fractionCount
  if exponent + 1 = exponentCount then
    if fraction = 0 then .infinite negative else .nan
  else if exponent = 0 then .finite negative fraction (-1074) false
  else
    .finite negative (fractionCount + fraction) ((exponent : Int) - 1075)
      (fraction == 0 && exponent != 1)

end Decimal

end TanLang
