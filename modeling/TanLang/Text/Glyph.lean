import TanLang.Text
/-!
# Text — the characters in it

A text is read as a sequence of glyphs: each is a character together with
the bytes that spell it. A byte that starts no character is a glyph of its
own, standing for the replacement character, so **no byte is lost**: the
bytes of the glyphs put together are the text again.
-/

namespace TanLang

/-- A character as a text spells it. -/
structure Glyph where
  /-- The character, or the replacement character for a byte that spells none. -/
  char : Char
  /-- The bytes it stands for. -/
  raw : Text
  deriving DecidableEq, Inhabited

namespace Glyph

/-- The character that stands for a byte that spells none. -/
def replacement : Char := '\uFFFD'

/-- How many bytes a spelling has that starts with this byte; one for a
byte that starts none. -/
def spelledLength (b : UInt8) : Nat :=
  if b < 0xC0 then 1
  else if b < 0xE0 then 2
  else if b < 0xF0 then 3
  else if b < 0xF8 then 4
  else 1

/-- The number that a spelling's payload bits make up. -/
def payload : Text → Nat
  | [a] => a.toNat
  | [a, b] => a.toNat % 32 * 64 + b.toNat % 64
  | [a, b, c] => (a.toNat % 16 * 64 + b.toNat % 64) * 64 + c.toNat % 64
  | [a, b, c, d] => ((a.toNat % 8 * 64 + b.toNat % 64) * 64 + c.toNat % 64) * 64 + d.toNat % 64
  | _ => 0

/-- The glyph at the front of a text that starts with byte `b`. **A
spelling counts only if it is the one its character has**, so overlong,
truncated and surrogate spellings fall apart into single bytes. -/
def first (b : UInt8) (rest : Text) : Glyph :=
  let raw := b :: rest.take (spelledLength b - 1)
  let char := Char.ofNat (payload raw)
  if Text.ofChar char = raw then ⟨char, raw⟩ else ⟨replacement, [b]⟩

/-- Whether the glyph is a byte that spells no character. -/
def isStray (g : Glyph) : Bool :=
  g.char == replacement && g.raw.length == 1

end Glyph

namespace Text

/-- The glyphs of a text after its first `skip` bytes, which belong to a
glyph already cut. -/
def glyphsAfter : Nat → Text → List Glyph
  | _, [] => []
  | skip + 1, _ :: bs => glyphsAfter skip bs
  | 0, b :: bs =>
    let g := Glyph.first b bs
    g :: glyphsAfter (g.raw.length - 1) bs

/-- The glyphs of a text, in order. -/
def glyphs (t : Text) : List Glyph := glyphsAfter 0 t

/-- The text that glyphs spell. -/
def ofGlyphs (gs : List Glyph) : Text := gs.flatMap Glyph.raw

/-- The text that characters spell. -/
def ofChars (cs : List Char) : Text := cs.flatMap ofChar

end Text

end TanLang
