/-!
# Whole numbers of 64 bits

How a whole number is written: a sign or none, a mark of its base or none,
and digits, with single underscores between them if a base is marked or
the number is decimal. A leading zero that is not followed by a mark
stands for base eight. Numbers that do not fit in 64 bits are told apart
from what is no number at all.
-/

namespace TanLang

namespace Integer

/-- How many numbers 64 bits tell apart. -/
def wordCount : Nat := 0x10000000000000000

/-- How many of them are negative, if some are. -/
def negativeCount : Nat := 0x8000000000000000

/-- Why characters are no number. -/
inductive Error where
  /-- They spell none. -/
  | malformed
  /-- They spell one that does not fit in 64 bits. -/
  | outOfRange
  deriving DecidableEq, Inhabited

/-- The value of a digit in any base up to thirty-six. -/
def digitValue (c : Char) : Option Nat :=
  if '0' ≤ c ∧ c ≤ '9' then some (c.toNat - '0'.toNat)
  else if 'a' ≤ c ∧ c ≤ 'z' then some (c.toNat - 'a'.toNat + 10)
  else if 'A' ≤ c ∧ c ≤ 'Z' then some (c.toNat - 'A'.toNat + 10)
  else none

/-- Whether a character is an ASCII digit. -/
def isDecimal (c : Char) : Bool := '0' ≤ c && c ≤ '9'

/-- Whether a character is a hexadecimal digit. -/
def isHex (c : Char) : Bool := (digitValue c).any (· < 16)

/-- A sign, if there is one, and what follows it. -/
def signed : List Char → Bool × List Char
  | '-' :: rest => (true, rest)
  | '+' :: rest => (false, rest)
  | cs => (false, cs)

/-- The base that a number's first digits mark, whether they are a mark of
their own, and the digits after it. -/
def baseOf : List Char → Nat × Bool × List Char
  | '0' :: m :: d :: rest =>
    if m = 'b' ∨ m = 'B' then (2, true, d :: rest)
    else if m = 'o' ∨ m = 'O' then (8, true, d :: rest)
    else if m = 'x' ∨ m = 'X' then (16, true, d :: rest)
    else (8, false, m :: d :: rest)
  | '0' :: rest => (8, false, rest)
  | cs => (10, false, cs)

/-- The magnitude that digits spell, underscores skipped. The first
character that is no digit, or at which 64 bits no longer hold the
magnitude, decides the error. -/
def magnitude (base : Nat) : Nat → List Char → Except Error Nat
  | n, [] => .ok n
  | n, '_' :: rest => magnitude base n rest
  | n, c :: rest =>
    match digitValue c with
    | none => .error .malformed
    | some d =>
      if base ≤ d then .error .malformed
      else if wordCount ≤ n * base + d then .error .outOfRange
      else magnitude base (n * base + d) rest

/-- Whether every underscore stands between two digits, `before` saying
whether a digit comes first. -/
def underscoresFit (before : Bool) : List Char → Bool
  | [] => true
  | '_' :: [] => false
  | '_' :: c :: rest => before && c != '_' && underscoresFit false (c :: rest)
  | _ :: rest => underscoresFit true rest

/-- **A whole number without a sign**, in base ten or in the base that its
first digits mark. -/
def readUnsigned (cs : List Char) : Except Error Nat :=
  if cs.isEmpty then .error .malformed
  else
    let (base, marked, digits) := baseOf cs
    match magnitude base 0 digits with
    | .error e => .error e
    | .ok n =>
      if underscoresFit marked (if marked then digits else cs) then .ok n
      else .error .malformed

/-- A magnitude with its sign, if it fits in 64 bits. -/
def withSign (negative : Bool) (n : Nat) : Except Error Int :=
  if negative then
    if negativeCount < n then .error .outOfRange else .ok (-(n : Int))
  else if negativeCount ≤ n then .error .outOfRange
  else .ok n

/-- **A whole number with a sign or without one.** -/
def read (cs : List Char) : Except Error Int :=
  let (negative, digits) := signed cs
  match readUnsigned digits with
  | .error e => .error e
  | .ok n => withSign negative n

/-- A whole number in a base that is not marked. -/
def readIn (base : Nat) (cs : List Char) : Except Error Int :=
  let (negative, digits) := signed cs
  if digits.isEmpty then .error .malformed
  else
    match magnitude base 0 digits with
    | .error e => .error e
    | .ok n => withSign negative n

end Integer

end TanLang
