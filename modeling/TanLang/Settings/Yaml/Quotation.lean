import TanLang.Settings.Yaml.Plain
/-!
# Settings — quoted scalars in YAML

In double quotes there are escapes, and in single quotes only a quote
written twice. Line ends fold as in plain scalars, but one that a
backslash stands before is dropped with the spaces after it.
-/

namespace TanLang

namespace Settings

namespace Yaml

/-- What an escape letter stands for on its own. -/
def simpleEscape : Char → Option Char
  | '0' => some '\x00'
  | 'a' => some '\x07'
  | 'b' => some '\x08'
  | 't' => some '\t'
  | '\t' => some '\t'
  | 'n' => some '\n'
  | 'v' => some '\x0B'
  | 'f' => some '\x0C'
  | 'r' => some '\r'
  | 'e' => some '\x1B'
  | ' ' => some ' '
  | '"' => some '"'
  | '\x27' => some '\x27'
  | '\\' => some '\\'
  | 'N' => some '\u0085'
  | '_' => some '\u00A0'
  | 'L' => some '\u2028'
  | 'P' => some '\u2029'
  | _ => none

/-- The rest of a scalar in quotes, after what is `done` in reverse, and the
place after it. The bound is the number of characters. -/
def quotedRest (quote : Char) : Nat → List Char → Cursor → Option (List Char × Cursor)
  | 0, _, _ => none
  | n + 1, done, c =>
    if c.atAnyMark then none
    else
      match c.rest with
      | [] => none
      | x :: rest =>
        if isGap x then
          let (gap, after) := c.take isGap
          quotedRest quote n ((folded gap).reverse ++ done) after
        else if x = quote then
          if quote = '\x27' ∧ rest.head? = some quote then
            quotedRest quote n (quote :: done) (c.pass 2)
          else some (done.reverse, c.next)
        else if quote = '"' ∧ x = '\\' then
          if rest.head?.any isBreak then
            let (gap, after) := (c.pass 2).take isGap
            quotedRest quote n ((gap.filter isBreak).reverse ++ done) after
          else
            match escape simpleEscape rest with
            | some (e, left) => quotedRest quote n (e :: done) (c.pass (c.rest.length - left.length))
            | none => none
        else quotedRest quote n (x :: done) c.next

/-- **The scalar in quotes here**, and the place after it. -/
def quotedScalar (quote : Char) (c : Cursor) : Option (List Char × Cursor) :=
  quotedRest quote (c.rest.length + 1) [] c.next

end Yaml

end Settings

end TanLang
