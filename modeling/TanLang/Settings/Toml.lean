import TanLang.Settings.Toml.Document
/-!
# Settings — TOML files

What a file gives at the top, and which paths it gives at all. Only a
value at the top can be a setting; every other path is unknown, and the
first of them is named in the way that it could be written.
-/

namespace TanLang

namespace Settings

namespace Toml

/-- A character of a key as it is written between quotes. -/
def keyChar (c : Char) : Text :=
  if c = '"' ∨ c = '\\' then Text.ofChars ['\\', c]
  else if c = '\x08' then Text.ofString "\\b"
  else if c = '\t' then Text.ofString "\\t"
  else if c = '\n' then Text.ofString "\\n"
  else if c = '\x0C' then Text.ofString "\\f"
  else if c = '\r' then Text.ofString "\\r"
  else if c < ' ' ∨ c = '\x7F' then Text.ofString "\\u" ++ Text.hex 4 c.toNat
  else Text.ofChar c

/-- A part of a key as it is written: between quotes only if it has to be. -/
def partText (part : Text) : Text :=
  let cs := part.glyphs.map Glyph.char
  if cs ≠ [] ∧ cs.all isBare then part
  else Text.ofString "\"" ++ cs.flatMap keyChar ++ Text.ofString "\""

/-- A key as it is written. -/
def keyText (path : Path) : Text := Text.join (Text.ofString ".") (path.map partText)

/-- What stands at the top of a document. -/
def Document.top (d : Document) : List Entry :=
  d.nodes.filterMap fun e =>
    match e.1 with
    | [key] => some ⟨key, e.2.scalar⟩
    | _ => none

/-- The first path given that is no key of those that are known. -/
def Document.firstUnknown (d : Document) (isKnown : Text → Bool) : Option Path :=
  d.given.reverse.find? fun path =>
    match path with
    | [key] => !isKnown key
    | _ => true

end Toml

end Settings

end TanLang
