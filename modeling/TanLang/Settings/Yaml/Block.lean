import TanLang.Settings.Yaml.Cursor
/-!
# Settings — block scalars in YAML

A block scalar is the indented lines below its mark: as they are, or with
their line ends folded. The mark may say how far they are indented, and
what becomes of the line ends after the last of them.
-/

namespace TanLang

namespace Settings

namespace Yaml

/-- What becomes of the line ends after the last line of a block. -/
inductive Tail where
  /-- The first of them is kept. -/
  | clip
  /-- None of them is kept. -/
  | strip
  /-- All of them are kept. -/
  | keep
  deriving DecidableEq, Inhabited

/-- The tail that a character asks for. -/
def tailOf : Char → Option Tail
  | '+' => some .keep
  | '-' => some .strip
  | _ => none

/-- The depth that a character asks for, which is not zero. -/
def depthOf (c : Char) : Option Nat :=
  if '1' ≤ c ∧ c ≤ '9' then some (c.toNat - '0'.toNat) else none

/-- What stands after a block's mark on its line: a tail and a depth in
either order, each or not, and the place after them. -/
def blockHead (c : Cursor) : Tail × Nat × Cursor :=
  match (c.peek 0).bind tailOf, (c.peek 0).bind depthOf with
  | some tail, _ =>
    match (c.peek 1).bind depthOf with
    | some depth => (tail, depth, c.pass 2)
    | none => (tail, 0, c.next)
  | none, some depth =>
    match (c.peek 1).bind tailOf with
    | some tail => (tail, depth, c.pass 2)
    | none => (.clip, depth, c.next)
  | none, none => (.clip, 0, c)

/-- Empty lines, and the indentation of the line after them up to the depth,
or all of it if that is not known yet. -/
structure Margin where
  /-- The line ends. -/
  breaks : List Char
  /-- The deepest column reached. -/
  deepest : Nat
  /-- The place after the indentation. -/
  after : Cursor

/-- The empty lines here; nothing if a tab stands in the indentation. The
bound is the number of characters. -/
def margin (depth : Nat) : Nat → List Char → Nat → Cursor → Option Margin
  | 0, _, _, _ => none
  | n + 1, breaks, deepest, c =>
    let spaces := (c.rest.takeWhile (· == ' ')).length
    let c := c.pass (if depth = 0 then spaces else min spaces (depth - c.column))
    let deepest := max deepest c.column
    if (depth = 0 ∨ c.column < depth) ∧ c.peek 0 = some '\t' then none
    else
      match c.peek 0 with
      | some x =>
        if isBreak x then margin depth n (breaks ++ [x]) deepest c.next
        else some ⟨breaks, deepest, c⟩
      | none => some ⟨breaks, deepest, c⟩

/-- What the line end before a line reads as, and the empty lines after it:
in a folded block, a line feed between two lines that do not start with a
space or a tab is a space, or nothing if empty lines follow it. -/
def joint (isFolded : Bool) (afterSpace beforeSpace : Bool) (before breaks : List Char) :
    List Char :=
  if isFolded && !afterSpace && !beforeSpace && before.head? == some '\n' then
    (if breaks = [] then [' '] else []) ++ breaks
  else before ++ breaks

/-- The lines of a block, after what is `done`: whether the last line
started with a space or a tab, its line end, and the empty lines after
it. The bound is the number of characters. -/
def blockLines (isFolded : Bool) (depth : Nat) : Nat → List Char → Bool → List Char →
    List Char → Cursor → Option (List Char × List Char × List Char × Cursor)
  | 0, _, _, _, _, _ => none
  | n + 1, done, afterSpace, before, breaks, c =>
    match c.peek 0 with
    | none => some (done, before, breaks, c)
    | some x =>
      if c.column ≠ depth then some (done, before, breaks, c)
      else
        let (text, c) := c.take (!isBreak ·)
        let done := done ++ joint isFolded afterSpace (isSpace x) before breaks ++ text
        match margin depth (c.rest.length + 1) [] 0 c.next with
        | none => none
        | some m => blockLines isFolded depth n done (isSpace x) (c.rest.take 1) m.breaks m.after

/-- **The block scalar here**, and the place after it, inside something that
is indented as given. -/
def blockScalar (isFolded : Bool) (indent : Int) (c : Cursor) : Option (List Char × Cursor) :=
  let (tail, depth, c) := blockHead c.next
  match c.endLine with
  | none => none
  | some c =>
    let depth := if depth = 0 then 0 else (max indent 0).toNat + depth
    match margin depth (c.rest.length + 1) [] 0 c with
    | none => none
    | some m =>
      let depth :=
        if depth = 0 then max (max m.deepest (indent + 1).toNat) 1 else depth
      match blockLines isFolded depth (c.rest.length + 1) [] false [] m.breaks m.after with
      | none => none
      | some (text, before, breaks, after) =>
        match tail with
        | .strip => some (text, after)
        | .clip => some (text ++ before, after)
        | .keep => some (text ++ before ++ breaks, after)

end Yaml

end Settings

end TanLang
