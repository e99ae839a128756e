import TanLang.Settings.Scalar
/-!
# Settings — strings in TOML

A string stands in double quotes, with escapes, or in single quotes,
without them, and with three quotes at either end it may run over several
lines. Characters that may not stand in a file at all are not looked for
here.
-/

namespace TanLang

namespace Settings

namespace Toml

/-- Whether a character ends a line. A carriage return in a file is always
followed by a line feed. -/
def isNewline (c : Char) : Bool := c == '\n' || c == '\r'

/-- The quote of strings without escapes. -/
def apostrophe : Char := '\x27'

/-- What an escape letter stands for on its own. -/
def simpleEscape : Char → Option Char
  | 'b' => some '\x08'
  | 't' => some '\t'
  | 'n' => some '\n'
  | 'f' => some '\x0C'
  | 'r' => some '\r'
  | 'e' => some '\x1B'
  | '"' => some '"'
  | '\\' => some '\\'
  | _ => none

/-- The rest of a string in double quotes, after what is `done` in reverse,
and what follows it. The bound is the number of characters. -/
def basicString : Nat → List Char → List Char → Option (List Char × List Char)
  | 0, _, _ => none
  | _, _, [] => none
  | n + 1, done, c :: rest =>
    if c = '"' then some (done.reverse, rest)
    else if c = '\\' then
      match escape simpleEscape rest with
      | some (c, rest) => basicString n (c :: done) rest
      | none => none
    else if isNewline c then none
    else basicString n (c :: done) rest

/-- The rest of a string in single quotes, and what follows it. -/
def literalString (cs : List Char) : Option (List Char × List Char) :=
  let body := cs.takeWhile (· != apostrophe)
  match cs.drop body.length with
  | [] => none
  | _ :: rest => if body.any isNewline then none else some (body, rest)

/-! ## Over several lines -/

/-- How many quotes are at the front. -/
def quotesAt (quote : Char) (cs : List Char) : Nat := (cs.takeWhile (· == quote)).length

/-- A text without a line end at its front. -/
def dropNewline : List Char → List Char
  | '\n' :: rest => rest
  | '\r' :: '\n' :: rest => rest
  | cs => cs

/-- Whether so many quotes, three or more, end a string: up to two may
belong to the text, and after an escaped backslash up to three. -/
def closes (quotes : Nat) (afterBackslash : Bool) : Bool :=
  quotes ≤ 5 || (quotes == 6 && afterBackslash)

/-- The rest of a string in three double quotes. **A backslash at the end
of a line joins it to the next character that is no blank.** The bound is
the number of characters. -/
def longBasicString : Nat → Bool → List Char → List Char → Option (List Char × List Char)
  | 0, _, _, _ => none
  | _, _, _, [] => none
  | n + 1, afterBackslash, done, c :: rest =>
    if c = '"' then
      let quotes := quotesAt '"' (c :: rest)
      let after := (c :: rest).drop quotes
      if quotes < 3 then longBasicString n false (List.replicate quotes '"' ++ done) after
      else if closes quotes afterBackslash then
        some ((List.replicate (quotes - 3) '"' ++ done).reverse, after)
      else none
    else if c = '\\' then
      let blank := rest.takeWhile fun c => isSpace c || isNewline c
      if blank.contains '\n' then longBasicString n false done (rest.drop blank.length)
      else
        match escape simpleEscape rest with
        | some (e, after) => longBasicString n (rest.head? == some '\\') (e :: done) after
        | none => none
    else longBasicString n false (c :: done) rest

/-- The rest of a string in three single quotes. The bound is the number of
characters. -/
def longLiteralString : Nat → List Char → List Char → Option (List Char × List Char)
  | 0, _, _ => none
  | _, _, [] => none
  | n + 1, done, c :: rest =>
    if c = apostrophe then
      let quotes := quotesAt apostrophe (c :: rest)
      let after := (c :: rest).drop quotes
      if quotes < 3 then longLiteralString n (List.replicate quotes apostrophe ++ done) after
      else if closes quotes false then
        some ((List.replicate (quotes - 3) apostrophe ++ done).reverse, after)
      else none
    else longLiteralString n (c :: done) rest

/-! ## Any of them -/

/-- The string of one line at the front, and what follows it. -/
def shortString (cs : List Char) : Option (List Char × List Char) :=
  match cs with
  | [] => none
  | c :: rest =>
    if c = '"' then basicString (rest.length + 1) [] rest
    else if c = apostrophe then literalString rest
    else none

/-- **The string at the front, and what follows it.** -/
def anyString (cs : List Char) : Option (List Char × List Char) :=
  let body := dropNewline (cs.drop 3)
  if 3 ≤ quotesAt '"' cs then longBasicString (body.length + 1) false [] body
  else if 3 ≤ quotesAt apostrophe cs then longLiteralString (body.length + 1) [] body
  else shortString cs

end Toml

end Settings

end TanLang
