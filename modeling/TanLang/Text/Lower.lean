import TanLang.Text.Glyph
/-!
# Text — without regard to case, as far as it is ASCII

Words that are compared without regard to case are all ASCII, so only
characters matter that have something to do with ASCII letters. Besides
the capitals these are few, and lower-casing and folding differ in them:
the dotted capital I and the Kelvin sign have an ASCII letter as their
lower case, while the long s and the Kelvin sign fold to one.
-/

namespace TanLang

namespace Text

/-- The lower case of a character if that is ASCII, and else the character. -/
def lowerChar (c : Char) : Char :=
  if c = '\u0130' then 'i' else if c = '\u212A' then 'k' else c.toLower

/-- The character that a character folds to if that is ASCII, and else the
character. -/
def foldChar (c : Char) : Char :=
  if c = '\u017F' then 's' else if c = '\u212A' then 'k' else c.toLower

/-- A text with every character changed. -/
def mapChars (f : Char → Char) (t : Text) : Text := t.glyphs.flatMap fun g => ofChar (f g.char)

/-- A text in lower case. -/
def lower (t : Text) : Text := mapChars lowerChar t

/-- A text folded, for comparing without regard to case. -/
def folded (t : Text) : Text := mapChars foldChar t

end Text

end TanLang
