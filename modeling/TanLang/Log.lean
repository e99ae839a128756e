import TanLang.Text.Lower
import TanLang.Text.Glyph
/-!
# Logs

A log record is a message with named values, written as one JSON object on
a line. All records of this library are for debugging: they appear if the
level asked for is `debug` or `trace`.
-/

namespace TanLang

namespace Log

/-- How much is logged. -/
inductive Level where
  | trace | debug | info | warn | error | none
  deriving DecidableEq, Inhabited

namespace Level

/-- The number of a level: a record is logged if its own level is at least
the one asked for. -/
def severity : Level → Int
  | trace => -8
  | debug => -4
  | info => 0
  | warn => 4
  | error => 8
  | none => 16

/-- **The level a word names**, in any case; every other word turns logging
off. -/
def ofText (word : Text) : Level :=
  let word := Text.lower word
  if word = Text.ofString "trace" then trace
  else if word = Text.ofString "debug" then debug
  else if word = Text.ofString "info" then info
  else if word = Text.ofString "warn" then warn
  else if word = Text.ofString "error" then error
  else none

/-- Whether debugging records are logged. -/
def showsDebug (l : Level) : Bool := l.severity ≤ debug.severity

end Level

/-- A value in a record. -/
inductive Field where
  /-- A number. -/
  | int (n : Int)
  /-- A text. -/
  | text (t : Text)
  /-- A truth value. -/
  | bool (b : Bool)
  deriving DecidableEq, Inhabited

/-- A record. -/
structure Record where
  /-- What happened. -/
  message : String
  /-- The named values, in order. -/
  fields : List (String × Field) := []
  deriving DecidableEq, Inhabited

/-- A character inside a JSON string. Bytes that spell no character become
the replacement character. -/
def escapeGlyph (g : Glyph) : Text :=
  match g.char with
  | '"' => Text.ofString "\\\""
  | '\\' => Text.ofString "\\\\"
  | '\n' => Text.ofString "\\n"
  | '\r' => Text.ofString "\\r"
  | '\t' => Text.ofString "\\t"
  | c =>
    if c.toNat < 32 ∨ c = '\u2028' ∨ c = '\u2029' then Text.ofString "\\u" ++ Text.hex 4 c.toNat
    else Text.ofChar c

/-- A text as a JSON string. -/
def jsonString (t : Text) : Text :=
  Text.ofChar '"' ++ t.glyphs.flatMap escapeGlyph ++ Text.ofChar '"'

/-- A value in JSON. -/
def Field.json : Field → Text
  | int n => Text.ofInt n
  | text t => jsonString t
  | bool b => Text.ofString (if b then "true" else "false")

/-- **A record as a line of JSON**: its level, its message, and its values
in order. -/
def Record.line (r : Record) : Text :=
  let level := ("level", Field.text (Text.ofString "DEBUG"))
  let message := ("msg", Field.text (Text.ofString r.message))
  let members := (level :: message :: r.fields).map fun (name, value) =>
    jsonString (Text.ofString name) ++ Text.ofString ":" ++ value.json
  Text.ofString "\x7b" ++ Text.join (Text.ofString ",") members ++ Text.ofString "\x7d"
    ++ [Text.newline]

end Log

end TanLang
