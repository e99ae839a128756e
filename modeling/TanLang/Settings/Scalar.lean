import TanLang.Integer
import TanLang.Text.Glyph
/-!
# Settings — scalars

What can be read out of one value of a settings file. How a value is
written decides what it can be read as, and each format decides that for
itself, so that filling in the settings is the same for both.
-/

namespace TanLang

namespace Settings

/-- What a scalar can be read as. -/
structure Scalar where
  /-- The text, if it can be read as one. -/
  asText : Option Text := none
  /-- The whole number, if it can be read as one. -/
  asInt : Option Int := none
  /-- The truth value, if it can be read as one. -/
  asBool : Option Bool := none
  /-- Whether it stands for no value at all. -/
  absent : Bool := false
  deriving DecidableEq, Inhabited

/-- A key and its scalar. -/
structure Entry where
  /-- The key. -/
  key : Text
  /-- The scalar. -/
  value : Scalar
  deriving DecidableEq, Inhabited

/-- The characters of a file; nothing if it holds a byte that spells none. -/
def charsOf (file : Text) : Option (List Char) :=
  let glyphs := file.glyphs
  if glyphs.any Glyph.isStray then none else some (glyphs.map Glyph.char)

/-- Whether a character is a space or a tab. -/
def isSpace (c : Char) : Bool := c == ' ' || c == '\t'

/-- Characters without the spaces and tabs in front. -/
def skipSpaces (cs : List Char) : List Char := cs.dropWhile isSpace

/-- A character from the hexadecimal digits of its code point, exactly so
many of them. -/
def charOfHex (width : Nat) (cs : List Char) : Option Char :=
  let digits := cs.take width
  if digits.length = width ∧ digits.all Integer.isHex then
    let n := digits.foldl (fun n c => 16 * n + (Integer.digitValue c).getD 0) 0
    if n.isValidChar then some (Char.ofNat n) else none
  else none

/-- How many hexadecimal digits an escape letter takes. -/
def hexEscape : Char → Option Nat
  | 'x' => some 2
  | 'u' => some 4
  | 'U' => some 8
  | _ => none

/-- The character that an escape stands for, and what follows it, where
`simple` gives the escapes of a single letter. -/
def escape (simple : Char → Option Char) : List Char → Option (Char × List Char)
  | [] => none
  | e :: rest =>
    match simple e, hexEscape e with
    | some c, _ => some (c, rest)
    | none, some width => (charOfHex width rest).map fun c => (c, rest.drop width)
    | none, none => none

end Settings

end TanLang
