import TanLang.Settings.Yaml.Cursor
/-!
# Settings — plain scalars in YAML

A scalar without quotes goes on until a comment, a colon with a gap after
it, or a line that is not indented enough. **Line ends in it fold**: a
single one reads as a space, and of several the first one is dropped.
-/

namespace TanLang

namespace Settings

namespace Yaml

/-- What a run of spaces, tabs and line ends between two words reads as. -/
def folded (gap : List Char) : List Char :=
  match gap.filter isBreak with
  | [] => gap
  | first :: others =>
    if first ≠ '\n' then first :: others
    else if others = [] then [' ']
    else others

/-- Whether a line of a gap starts with a tab before the column given; the
column is counted from the last line end on, if there was one. -/
def hasEarlyTab (indent : Int) : Option Nat → List Char → Bool
  | _, [] => false
  | column, c :: rest =>
    if isBreak c then hasEarlyTab indent (some 0) rest
    else (c == '\t' && column.any fun n => (n : Int) < indent)
      || hasEarlyTab indent (column.map (· + 1)) rest

/-- Whether a plain scalar ends at a character, by the one after it. -/
def endsPlain (inFlow : Bool) (c : Char) (after : Option Char) : Bool :=
  isGap c || (c == ':' && after.all isGap)
    || (inFlow && (c == ',' || c == '?' || c == '[' || c == ']' || c == '\x7b' || c == '\x7d'))

/-- The length of the word at the front. -/
def wordLength (inFlow : Bool) : List Char → Nat
  | [] => 0
  | c :: rest => if endsPlain inFlow c rest.head? then 0 else wordLength inFlow rest + 1

/-- A plain scalar, the place after it and the gap that follows it, and
whether a line ends in that gap. -/
structure PlainScalar where
  /-- The text. -/
  text : List Char
  /-- The place after it. -/
  after : Cursor
  /-- Whether a line ends before that place. -/
  atLineEnd : Bool

/-- The words of a plain scalar, after what is `done` and a gap that is not
yet a part of it. Lines after the first one have to be indented, except
in flow collections. The bound is the number of characters. -/
def plainWords (inFlow : Bool) (indent : Int) : Nat → List Char → List Char → Cursor →
    Option PlainScalar
  | 0, _, _, _ => none
  | n + 1, done, gap, c =>
    let stop := some ⟨done, c, gap.any isBreak⟩
    if c.atAnyMark || c.peek 0 == some '#' then stop
    else
      let length := wordLength inFlow c.rest
      if length = 0 then stop
      else
        let done := done ++ folded gap ++ c.rest.take length
        let (gap, after) := (c.pass length).take isGap
        if gap = [] then some ⟨done, after, false⟩
        else if hasEarlyTab indent none gap then none
        else if !inFlow && (after.column : Int) < indent then
          some ⟨done, after, gap.any isBreak⟩
        else plainWords inFlow indent n done gap after

/-- **The plain scalar here**; nothing if a tab stands where it has to be
indented. -/
def plainScalar (inFlow : Bool) (indent : Int) (c : Cursor) : Option PlainScalar :=
  plainWords inFlow indent (c.rest.length + 1) [] [] c

end Yaml

end Settings

end TanLang
