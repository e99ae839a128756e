import TanLang.Decimal.Shortest
import TanLang.Integer
import TanLang.Text
/-!
# Decimal — reading numbers

A number stands for the float nearest to it, ties going to the even
mantissa. A number beyond the largest float stands for an infinity, which
is how the scanner knows that it is out of range.

Besides the literals of the language, which are digits with a point
between them or not, there is a wider form: with a sign, an exponent,
hexadecimal digits, underscores between digits, and the names of the
values that are no numbers.
-/

namespace TanLang

namespace Decimal

/-- The number that a run of ASCII digits spells. -/
def ofDigits (digits : Text) : Nat :=
  digits.foldl (fun n d => 10 * n + (d.toNat - 48)) 0

/-- **The float nearest to `digits · 10 ^ scale`.** Far outside the range of
floats the answer is known without any arithmetic. -/
def nearest (digits : Nat) (scale : Int) : Float :=
  let leading := (length digits : Int) + scale
  if digits = 0 ∨ leading < -330 then 0
  else if leading > 310 then 1 / 0
  else Float.ofScientific digits (scale < 0) scale.natAbs

/-- The float that a literal `whole.fraction` stands for. -/
def read (whole fraction : Text) : Float :=
  nearest (ofDigits (whole ++ fraction)) (-(fraction.length : Int))

/-! ## The wider form -/

/-- The float nearest to `mantissa · 2 ^ exponent`: a power of a half is a
power of a tenth times one of five. -/
def nearestBinary (mantissa : Nat) (exponent : Int) : Float :=
  let leading := (mantissa.log2 : Int) + exponent
  if mantissa = 0 ∨ leading < -1100 then 0
  else if leading > 1100 then 1 / 0
  else if 0 ≤ exponent then nearest (mantissa * Nat.pow 2 exponent.toNat) 0
  else nearest (mantissa * Nat.pow 5 exponent.natAbs) exponent

/-- What the last character was, for the sake of underscores. -/
inductive Before where
  /-- A digit, or the mark of a base. -/
  | digit
  /-- An underscore. -/
  | underscore
  /-- Anything else, or nothing. -/
  | other
  deriving DecidableEq, Inhabited

/-- Whether every underscore stands between two digits. -/
def underscoresFit (isDigit : Char → Bool) : Before → List Char → Bool
  | before, [] => before != .underscore
  | before, c :: rest =>
    if isDigit c then underscoresFit isDigit .digit rest
    else if c = '_' then before == .digit && underscoresFit isDigit .underscore rest
    else before != .underscore && underscoresFit isDigit .other rest

/-- The number that digits of a base spell. -/
def ofChars (base : Nat) (digits : List Char) : Nat :=
  digits.foldl (fun n c => base * n + (Integer.digitValue c).getD 0) 0

/-- The mark of an exponent, its sign, and its digits, which there have to
be; nothing else may follow. -/
def exponentOf (isMark : Char → Bool) : List Char → Option Int
  | [] => none
  | mark :: rest =>
    let (negative, digits) := Integer.signed rest
    if isMark mark ∧ digits ≠ [] ∧ digits.all Integer.isDecimal then
      let e : Int := ofChars 10 digits
      some (if negative then -e else e)
    else none

/-- Digits with a point among them or not: the number without its point,
how many digits follow the point, and what comes after. There has to be a
digit. -/
def mantissaOf (base : Nat) (isDigit : Char → Bool) (cs : List Char) :
    Option (Nat × Nat × List Char) :=
  let whole := cs.takeWhile isDigit
  let rest := cs.drop whole.length
  let fraction :=
    match rest with
    | '.' :: more => more.takeWhile isDigit
    | _ => []
  let rest :=
    match rest with
    | '.' :: more => more.drop fraction.length
    | _ => rest
  if whole = [] ∧ fraction = [] then none
  else some (ofChars base (whole ++ fraction), fraction.length, rest)

/-- A decimal number without a sign or underscores. -/
def magnitudeDecimal (cs : List Char) : Option Float :=
  match mantissaOf 10 Integer.isDecimal cs with
  | none => none
  | some (digits, places, []) => some (nearest digits (-(places : Int)))
  | some (digits, places, rest) =>
    (exponentOf (fun c => c == 'e' || c == 'E') rest).map fun e => nearest digits (e - places)

/-- A hexadecimal number without its mark; the exponent is one of two and
has to be there. -/
def magnitudeHex (cs : List Char) : Option Float :=
  match mantissaOf 16 Integer.isHex cs with
  | none => none
  | some (digits, places, rest) =>
    (exponentOf (fun c => c == 'p' || c == 'P') rest).map fun e =>
      nearestBinary digits (e - 4 * places)

/-- A number without a sign. -/
def magnitude (cs : List Char) : Option Float :=
  match cs with
  | '0' :: x :: d :: rest =>
    if x = 'x' ∨ x = 'X' then
      if underscoresFit Integer.isHex .digit (d :: rest) then
        magnitudeHex ((d :: rest).filter (· != '_'))
      else none
    else plain
  | _ => plain
where
  /-- The decimal form. -/
  plain : Option Float :=
    if underscoresFit Integer.isDecimal .other cs then
      magnitudeDecimal (cs.filter (· != '_'))
    else none

/-- Whether characters are a word, in any case. -/
def isWord (word : String) (cs : List Char) : Bool := cs.map Char.toLower == word.toList

/-- **A number in the wider form.** One that is out of range is an
infinity. -/
def readWide (cs : List Char) : Option Float :=
  let (negative, body) := Integer.signed cs
  if isWord "nan" cs then some (0 / 0)
  else if isWord "inf" body || isWord "infinity" body then
    some (if negative then -(1 / 0) else 1 / 0)
  else (magnitude body).map fun x => if negative then -x else x

/-- A finite number in the wider form; nothing if it is out of range. -/
def readFinite (cs : List Char) : Option Float :=
  match readWide cs with
  | some x => if x.isFinite then some x else none
  | none => none

end Decimal

end TanLang
