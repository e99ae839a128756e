import TanLang.Decimal.Reading
import TanLang.Settings.Scalar
/-!
# Settings — numbers and dates in TOML

The characters of a number are taken by a simple scan, and only then is it
checked that they are one: an underscore has to stand between digits, a
point has to have digits after it, and a zero may come first only on its
own. What starts like a date is taken and checked in the same way.
-/

namespace TanLang

namespace Settings

namespace Toml

/-- Whether every underscore follows a digit and the last character is
one, hexadecimal digits counting, too. -/
def underscoresFit : Bool → List Char → Bool
  | after, [] => after
  | after, c :: rest => (c != '_' || after) && underscoresFit (Integer.isHex c) rest

/-- Whether a zero comes first that is neither alone nor the mark of a
base. -/
def leadsWithZero (cs : List Char) : Bool :=
  match cs with
  | '0' :: c :: _ => c != 'b' && c != 'o' && c != 'x'
  | '-' :: '0' :: _ :: _ => true
  | '+' :: '0' :: _ :: _ => true
  | _ => false

/-- A whole number. -/
def integerOf (cs : List Char) : Option Int :=
  if underscoresFit false cs && !leadsWithZero cs then (Integer.read cs).toOption else none

/-- The parts of a number around points and marks of exponents. -/
def partsOf (cs : List Char) : List (List Char) :=
  (cs.splitBy fun a b => !isBreak a && !isBreak b).filter fun part => !part.any isBreak
where
  /-- Whether a character is a point or the mark of an exponent. -/
  isBreak (c : Char) : Bool := c == '.' || c == 'e' || c == 'E'

/-- Whether every point has a digit after it. -/
def pointsFit : List Char → Bool
  | [] => true
  | '.' :: rest => rest.head?.any Integer.isDecimal && pointsFit rest
  | _ :: rest => pointsFit rest

/-- Whether characters are a number that need not be whole. -/
def isFloat (cs : List Char) : Bool :=
  let parts := partsOf cs
  parts.all (underscoresFit false) && !(parts.head?.any leadsWithZero) && pointsFit cs
    && (Decimal.readFinite (cs.filter (· != '_'))).isSome

/-! ## Dates and times -/

/-- A number of exactly so many digits, and what follows it. -/
def fixedNumber (width : Nat) (cs : List Char) : Option (Nat × List Char) :=
  let digits := cs.take width
  if digits.length = width ∧ digits.all Integer.isDecimal then
    some (Decimal.ofChars 10 digits, cs.drop width)
  else none

/-- A number of two digits that is no more than a limit, and what follows
it. -/
def twoDigits (most : Nat) (cs : List Char) : Option (Nat × List Char) :=
  match fixedNumber 2 cs with
  | some (n, rest) => if n ≤ most then some (n, rest) else none
  | none => none

/-- How many days a month of a year has. -/
def daysIn (year month : Nat) : Nat :=
  if month = 2 then
    if year % 4 = 0 ∧ (year % 100 ≠ 0 ∨ year % 400 = 0) then 29 else 28
  else if month = 4 ∨ month = 6 ∨ month = 9 ∨ month = 11 then 30
  else 31

/-- What follows a date. -/
def afterDate (cs : List Char) : Option (List Char) :=
  match fixedNumber 4 cs with
  | some (year, '-' :: rest) =>
    match twoDigits 12 rest with
    | some (month, '-' :: rest) =>
      match twoDigits (daysIn year month) rest with
      | some (day, rest) => if month = 0 ∨ day = 0 then none else some rest
      | none => none
    | _ => none
  | _ => none

/-- What follows a fraction of a second, if there is one. -/
def afterFraction (cs : List Char) : List Char :=
  match cs with
  | '.' :: d :: rest =>
    if Integer.isDecimal d then rest.dropWhile Integer.isDecimal else cs
  | _ => cs

/-- What follows a time; its seconds may be left out. -/
def afterTime (cs : List Char) : Option (List Char) :=
  match twoDigits 23 cs with
  | some (_, ':' :: rest) =>
    match twoDigits 59 rest with
    | some (_, ':' :: rest) => (twoDigits 59 rest).map fun s => afterFraction s.2
    | some (_, rest) => some rest
    | none => none
  | _ => none

/-- Whether nothing but the distance to universal time is left. -/
def isOffset (cs : List Char) : Bool :=
  match cs with
  | [] => true
  | ['Z'] => true
  | sign :: rest =>
    (sign == '+' || sign == '-') &&
      match twoDigits 24 rest with
      | some (_, ':' :: rest) =>
        match twoDigits 60 rest with
        | some (_, rest) => rest.isEmpty
        | none => false
      | _ => false

/-- Whether characters are a date, a time, or both. -/
def isDate (cs : List Char) : Bool :=
  let cs := cs.map fun c => if c = 'z' then 'Z' else if c = 't' ∨ c = ' ' then 'T' else c
  match afterDate cs with
  | some [] => true
  | some ('T' :: time) => (afterTime time).any isOffset
  | some _ => false
  | none => afterTime cs == some []

/-! ## Taking the characters -/

/-- What the characters of a number are. -/
inductive NumberForm where
  | integer | float | date

/-- The number at the front, by its form, and what follows it; nothing if
its first characters rule it out. -/
def takeNumber (cs : List Char) : Option (NumberForm × List Char × List Char) :=
  let (_, body) := Integer.signed cs
  let isSigned := body.length < cs.length
  let cut (form : NumberForm) (n : Nat) := some (form, cs.take n, cs.drop n)
  let sign := cs.length - body.length
  match body with
  | 'i' :: 'n' :: 'f' :: _ => cut .float (sign + 3)
  | 'n' :: 'a' :: 'n' :: _ => cut .float (sign + 3)
  | '0' :: mark :: rest =>
    if mark = 'x' ∨ mark = 'o' ∨ mark = 'b' then
      let isDigit := fun c => (Integer.digitValue c).any (· < baseOf mark)
      if isSigned ∨ !rest.head?.any isDigit then none
      else cut .integer (2 + (rest.takeWhile fun c => isDigit c || c == '_').length)
    else decimal cut isSigned sign body
  | c :: _ => if Integer.isDecimal c then decimal cut isSigned sign body else none
  | [] => none
where
  /-- The base of a mark. -/
  baseOf (mark : Char) : Nat := if mark = 'x' then 16 else if mark = 'o' then 8 else 2
  /-- A decimal number, or a date. -/
  decimal (cut : NumberForm → Nat → Option (NumberForm × List Char × List Char))
      (isSigned : Bool) (sign : Nat) (body : List Char) :
      Option (NumberForm × List Char × List Char) :=
    let digits := (body.takeWhile Integer.isDecimal).length
    let whole := (body.takeWhile fun c => Integer.isDecimal c || c == '_').length
    let isMark (c : Char) := c == '.' || c == 'e' || c == 'E'
    let isDateMark (c : Char) := c == '-' || c == ':'
    if !isSigned && 2 ≤ digits && (body.drop digits).head?.any isDateMark then
      cut .date (digits + ((body.drop digits).takeWhile fun c =>
        Integer.isDecimal c || "-:Tt .Zz+".toList.contains c).length)
    else if !isSigned && digits = 1 && body.head? ≠ some '0'
        && (body.drop digits).head?.any isDateMark then
      cut .date (digits + ((body.drop digits).takeWhile fun c =>
        Integer.isDecimal c || "-:Tt .Zz+".toList.contains c).length)
    else if (body.drop whole).head?.any isMark then
      cut .float (sign + whole + ((body.drop whole).takeWhile fun c =>
        Integer.isDecimal c || "_.-+eE".toList.contains c).length)
    else cut .integer (sign + whole)

/-- **The number or date at the front, and what follows it.** Only whole
numbers have a use. -/
def number (cs : List Char) : Option (Scalar × List Char) :=
  match takeNumber cs with
  | none => none
  | some (form, taken, rest) =>
    match form with
    | .integer => (integerOf taken).map fun n => ({ asInt := some n }, rest)
    | .float =>
      if isInfinite taken || isFloat taken then some ({}, rest) else none
    | .date =>
      if isDate (taken.reverse.dropWhile (· == ' ')).reverse then some ({}, rest) else none
where
  /-- Whether the number is one of those that are named. -/
  isInfinite (taken : List Char) : Bool :=
    let (_, body) := Integer.signed taken
    body == "inf".toList || body == "nan".toList

end Toml

end Settings

end TanLang
