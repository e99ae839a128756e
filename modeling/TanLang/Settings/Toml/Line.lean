import TanLang.Settings.Toml.Number
import TanLang.Settings.Toml.Quotation
/-!
# Settings — the lines of a TOML file

A line heads a table or an element of an array of tables, or it gives a
key a value. Values are scalars, arrays and inline tables. Reading the
lines does not look at what keys were given before.
-/

namespace TanLang

namespace Settings

namespace Toml

/-- The parts of a key. -/
abbrev Path := List Text

/-- A value as a file writes it. -/
inductive Value where
  /-- A string, a number, a date or a truth value. -/
  | scalar (value : Scalar)
  /-- An array. -/
  | array (items : List Value)
  /-- An inline table. -/
  | table (entries : List (Path × Value))
  deriving Inhabited

/-- A line that means something. -/
inductive Line where
  /-- The head of a table. -/
  | table (path : Path)
  /-- The head of an element of an array of tables. -/
  | element (path : Path)
  /-- A key and its value. -/
  | entry (path : Path) (value : Value)
  deriving Inhabited

/-- What follows spaces, line ends and comments; the flag says whether a
comment has begun. -/
def skipFiller : Bool → List Char → List Char
  | _, [] => []
  | true, c :: rest => skipFiller (c != '\n') rest
  | false, c :: rest =>
    if isSpace c || isNewline c then skipFiller false rest
    else if c = '#' then skipFiller true rest
    else c :: rest

/-! ## Keys -/

/-- Whether a character can stand in a key without quotes. -/
def isBare (c : Char) : Bool := c.isAlphanum || c == '_' || c == '-'

/-- One part of a key, and what follows it. -/
def keyPart (cs : List Char) : Option (List Char × List Char) :=
  let part := cs.takeWhile isBare
  if part.isEmpty then shortString cs else some (part, cs.drop part.length)

/-- A key with points between its parts, and what follows it. The bound is
the number of characters. -/
def key : Nat → List Char → Option (Path × List Char)
  | 0, _ => none
  | n + 1, cs =>
    match keyPart (skipSpaces cs) with
    | none => none
    | some (part, rest) =>
      match skipSpaces rest with
      | '.' :: more => (key n more).map fun k => (Text.ofChars part :: k.1, k.2)
      | rest => some ([Text.ofChars part], rest)

/-- A key and the equals sign after it, and what follows them. -/
def keyAndEquals (cs : List Char) : Option (Path × List Char) :=
  match key (cs.length + 1) cs with
  | some (path, '=' :: rest) => some (path, rest)
  | _ => none

/-! ## Values -/

/-- The word for a truth value at the front, and what follows it. -/
def truthWord (cs : List Char) : Option (Bool × List Char) :=
  let word := cs.takeWhile Char.isAlpha
  let rest := cs.drop word.length
  if word = "true".toList then some (true, rest)
  else if word = "false".toList then some (false, rest)
  else none

/-- The scalar at the front, and what follows it. -/
def scalar (cs : List Char) : Option (Scalar × List Char) :=
  match cs.head? with
  | none => none
  | some c =>
    if c = '"' ∨ c = apostrophe then
      (anyString cs).map fun s => ({ asText := some (Text.ofChars s.1) }, s.2)
    else
      match truthWord cs with
      | some (b, rest) => some ({ asBool := some b }, rest)
      | none => number cs

mutual

/-- The value at the front, and what follows it. The bound is twice the
number of characters. -/
def value : Nat → List Char → Option (Value × List Char)
  | 0, _ => none
  | n + 1, cs =>
    match skipSpaces cs with
    | '[' :: rest => items n [] (skipFiller false rest)
    | '\x7b' :: rest => entries n [] (skipFiller false rest)
    | cs => (scalar cs).map fun s => (.scalar s.1, s.2)

/-- The items of an array up to its end, after those that are `done` in
reverse. -/
def items : Nat → List Value → List Char → Option (Value × List Char)
  | 0, _, _ => none
  | _, done, ']' :: rest => some (.array done.reverse, rest)
  | n + 1, done, cs =>
    match value n cs with
    | none => none
    | some (v, rest) =>
      match skipFiller false rest with
      | ']' :: rest => some (.array (v :: done).reverse, rest)
      | ',' :: rest => items n (v :: done) (skipFiller false rest)
      | _ => none

/-- The entries of an inline table up to its end, after those that are
`done` in reverse. -/
def entries : Nat → List (Path × Value) → List Char → Option (Value × List Char)
  | 0, _, _ => none
  | _, done, '\x7d' :: rest => some (.table done.reverse, rest)
  | n + 1, done, cs =>
    match keyAndEquals cs with
    | none => none
    | some (path, rest) =>
      match value n rest with
      | none => none
      | some (v, rest) =>
        match skipFiller false rest with
        | '\x7d' :: rest => some (.table ((path, v) :: done).reverse, rest)
        | ',' :: rest => entries n ((path, v) :: done) (skipFiller false rest)
        | _ => none

end

/-! ## Lines -/

/-- What follows on the next lines, if nothing but a comment follows on
this one. -/
def endOfLine (cs : List Char) : Option (List Char) :=
  let rest := skipSpaces cs
  if rest.head?.all fun c => isNewline c || c == '#' then some (skipFiller false rest) else none

/-- The line at the front, and what follows it, which may still be on the
same line. -/
def line (cs : List Char) : Option (Line × List Char) :=
  match cs with
  | '[' :: '[' :: rest =>
    match key (rest.length + 1) rest with
    | some (path, ']' :: ']' :: rest) => some (.element path, rest)
    | _ => none
  | '[' :: rest =>
    match key (rest.length + 1) rest with
    | some (path, ']' :: rest) => some (.table path, rest)
    | _ => none
  | _ =>
    match keyAndEquals cs with
    | none => none
    | some (path, rest) =>
      (value (2 * rest.length + 2) rest).map fun v => (.entry path v.1, v.2)

/-- The lines of a file that are left. The bound is the number of
characters. -/
def linesFrom : Nat → List Char → Option (List Line)
  | _, [] => some []
  | 0, _ => none
  | n + 1, cs =>
    match line cs with
    | none => none
    | some (l, rest) =>
      match endOfLine rest with
      | none => none
      | some rest => (linesFrom n rest).map (l :: ·)

/-! ## The file -/

/-- A file without the byte order mark at its front. -/
def withoutMark : Text → Text
  | 0xFF :: 0xFE :: rest => rest
  | 0xFE :: 0xFF :: rest => rest
  | 0xEF :: 0xBB :: 0xBF :: rest => rest
  | file => file

/-- Whether every character may stand in a file: no control characters but
tabs and line ends, and carriage returns only before line feeds. -/
def areAllowed : List Char → Bool
  | [] => true
  | '\r' :: '\n' :: rest => areAllowed rest
  | c :: rest => (c == '\t' || c == '\n' || (' ' ≤ c && c != '\x7F')) && areAllowed rest

/-- **The lines of a file**; nothing if one of them is malformed. -/
def lines (file : Text) : Option (List Line) :=
  match charsOf (withoutMark file) with
  | none => none
  | some cs =>
    if areAllowed cs then linesFrom (cs.length + 1) (skipFiller false cs) else none

end Toml

end Settings

end TanLang
