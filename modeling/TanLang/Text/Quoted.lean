import TanLang.Text.Glyph
import TanLang.Text.Printable
/-!
# Text — quoted

A text between double quotes, on one line and in printable characters
only. Quote and backslash are written with a backslash before them, the
seven common control characters by their letter, every other character
that does not print by its code point, and a byte that spells no character
by its two hexadecimal digits.
-/

namespace TanLang

namespace Text

/-- The letter that names a control character after a backslash. -/
def controlLetter : Char → Option Char
  | '\x07' => some 'a'
  | '\x08' => some 'b'
  | '\x0C' => some 'f'
  | '\n' => some 'n'
  | '\r' => some 'r'
  | '\t' => some 't'
  | '\x0B' => some 'v'
  | _ => none

/-- A character spelled by its code point: two digits below 128, four in
the basic plane, eight beyond it. -/
def codePointEscape (c : Char) : Text :=
  if c.toNat < 128 then ofString "\\x" ++ hex 2 c.toNat
  else if c.toNat < 0x10000 then ofString "\\u" ++ hex 4 c.toNat
  else ofString "\\U" ++ hex 8 c.toNat

/-- One glyph inside quotes. -/
def quoteGlyph (g : Glyph) : Text :=
  if g.isStray then ofString "\\x" ++ hex 2 (payloadByte g)
  else if g.char = '"' ∨ g.char = '\\' then ofChar '\\' ++ g.raw
  else if isPrintable g.char then g.raw
  else
    match controlLetter g.char with
    | some l => ofChar '\\' ++ ofChar l
    | none => codePointEscape g.char
where
  /-- The one byte of a stray glyph. -/
  payloadByte (g : Glyph) : Nat := (g.raw.headD 0).toNat

/-- **A text in double quotes.** -/
def quote (t : Text) : Text :=
  ofChar '"' ++ t.glyphs.flatMap quoteGlyph ++ ofChar '"'

end Text

end TanLang
