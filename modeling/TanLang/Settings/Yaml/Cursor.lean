import TanLang.Settings.Yaml.Characters
/-!
# Settings — a place in a YAML file

In YAML it matters in which column something stands and whether it is
still on the line where something else began, so a cursor counts lines
and columns on its way through the characters.
-/

namespace TanLang

namespace Settings

namespace Yaml

/-- Whether a character ends a line. -/
def isBreak (c : Char) : Bool := c == '\n' || c == '\u2028' || c == '\u2029'

/-- Whether a character is a space, a tab, or the end of a line. -/
def isGap (c : Char) : Bool := isSpace c || isBreak c

/-- A place in a file. -/
structure Cursor where
  /-- The characters from here on. -/
  rest : List Char
  /-- How many characters come before. -/
  index : Nat := 0
  /-- How many lines come before. -/
  line : Nat := 0
  /-- How many characters come before on the same line. -/
  column : Nat := 0
  /-- Whether a line ended here, but for spaces and tabs. -/
  afterBreak : Bool := false
  deriving Inhabited

namespace Cursor

/-- The character at a distance; nothing at the end of the file. -/
def peek (c : Cursor) (n : Nat) : Option Char := (c.rest.drop n).head?

/-- Whether a character, or else the end of the file, is at a distance. -/
def ends (c : Cursor) (n : Nat) (p : Char → Bool) : Bool := (c.peek n).all p

/-- One character further. -/
def next (c : Cursor) : Cursor :=
  match c.rest with
  | [] => c
  | x :: rest =>
    if isBreak x then ⟨rest, c.index + 1, c.line + 1, 0, true⟩
    else ⟨rest, c.index + 1, c.line, c.column + 1, c.afterBreak && isSpace x⟩

/-- Several characters further. -/
def pass (c : Cursor) : Nat → Cursor
  | 0 => c
  | n + 1 => c.next.pass n

/-- The run of characters from here on that a test accepts, and the place
after it. -/
def take (c : Cursor) (p : Char → Bool) : List Char × Cursor :=
  let run := c.rest.takeWhile p
  (run, c.pass run.length)

/-- The place after a run of characters that a test accepts. -/
def dropWhile (c : Cursor) (p : Char → Bool) : Cursor := (c.take p).2

/-- Whether the mark between documents or the one after them is here. -/
def atMark (c : Cursor) (mark : String) : Bool :=
  c.column == 0 && c.rest.take 3 == mark.toList && c.ends 3 isGap

/-- Whether either mark is here. -/
def atAnyMark (c : Cursor) : Bool := c.atMark "---" || c.atMark "..."

/-- The end of the line, if a comment is here. -/
def skipComment (c : Cursor) : Cursor :=
  if c.peek 0 == some '#' then c.dropWhile (!isBreak ·) else c

/-- How far ahead a comment is looked for. -/
def commentReach : Nat := 512

/-- The end of the line, if nothing but a comment is left of it. Right after
a line end there is no such comment. -/
def skipLineComment (c : Cursor) : Cursor :=
  let gap := (c.rest.takeWhile isSpace).length
  if c.afterBreak || commentReach ≤ gap then c else
    let c' := c.pass gap
    if c'.peek 0 == some '#' then c'.skipComment else c

/-- The end of the last comment of several, of which one is here and the
others follow after nothing but spaces, tabs and line ends. The bound is
the number of characters. -/
def skipComments : Nat → Cursor → Cursor
  | 0, c => c
  | n + 1, c =>
    let c := c.skipComment
    let gap := (c.rest.takeWhile isGap).length
    let c' := c.pass gap
    if gap < commentReach && c'.peek 0 == some '#' then skipComments n c' else c

/-- The place after a line end, if there is nothing before it but spaces,
tabs and a comment; the end of the file counts, too. -/
def endLine (c : Cursor) : Option Cursor :=
  let c := (c.dropWhile isSpace).skipComment
  match c.peek 0 with
  | none => some c
  | some x => if isBreak x then some c.next else none

end Cursor

end Yaml

end Settings

end TanLang
