import TanLang.Settings.Yaml.Block
import TanLang.Settings.Yaml.Quotation
import TanLang.Settings.Yaml.Tag
/-!
# Settings — the tokens of a YAML file

Columns and line ends become tokens for the starts and ends of blocks. A
scalar may turn out to be a key only when the colon after it is found, so
**tokens are read ahead**, and the token for a key is put in front of what
was read already. How far ahead matters, because what is never read cannot
be wrong.
-/

namespace TanLang

namespace Settings

namespace Yaml

/-- A token. -/
inductive Token where
  | streamEnd | documentStart | documentEnd
  | blockSequence | blockMapping | blockEnd | blockEntry
  | flowSequence | flowSequenceEnd | flowMapping | flowMappingEnd | flowEntry
  | key | value
  | directive (d : Directive)
  | reference (name : List Char)
  | anchor (name : List Char)
  | tag (t : Tag)
  | scalar (text : List Char) (isPlain : Bool)
  deriving DecidableEq, Inhabited

/-- A place where a key may have begun. -/
structure KeyPlace where
  /-- The number of the key's first token. -/
  number : Nat
  /-- The place of that token. -/
  index : Nat
  /-- The line of that token. -/
  line : Nat
  /-- The column of that token. -/
  column : Nat
  /-- Whether there has to be a key, for nothing else can be there. -/
  required : Bool
  deriving DecidableEq, Inhabited

/-- What has been read of a file. -/
structure Reader where
  /-- The place up to which it has been read. -/
  cursor : Cursor
  /-- The tokens read ahead. -/
  queue : List Token := []
  /-- How many tokens have been taken from the queue. -/
  taken : Nat := 0
  /-- Whether a key may begin here. -/
  keyAllowed : Bool := true
  /-- The column of the innermost block, one less than zero outside all. -/
  indent : Int := -1
  /-- The columns of the blocks around it. -/
  indents : List Int := []
  /-- Where a key may have begun, for each flow collection from the inside
  out, and last for the block around them. -/
  keys : List (Option KeyPlace) := [none]
  deriving Inhabited

namespace Reader

/-- Whether the place is in a flow collection. -/
def inFlow (r : Reader) : Bool := 1 < r.keys.length

/-- The most collections that may be nested. -/
def maxNesting : Nat := 10000

/-- How many characters a key may have. -/
def maxKey : Nat := 1024

/-- The reader with a token at the end of the queue. -/
def push (r : Reader) (t : Token) : Reader := { r with queue := r.queue ++ [t] }

/-- The reader with a token in the queue at a number, which counts the
tokens taken. -/
def insert (r : Reader) (number : Nat) (t : Token) : Reader :=
  let n := number - r.taken
  { r with queue := r.queue.take n ++ t :: r.queue.drop n }

/-! ## Keys -/

/-- Whether a key that began at a place can still go on: it has to be on one
line and short. -/
def isLive (r : Reader) (k : KeyPlace) : Bool :=
  k.line == r.cursor.line && r.cursor.index ≤ k.index + maxKey

/-- The reader without a place for a key on this level; nothing if there has
to be one. -/
def removeKey (r : Reader) : Option Reader :=
  match r.keys with
  | some k :: outer => if k.required then none else some { r with keys := none :: outer }
  | _ => some r

/-- The reader with this place as one where a key may begin, if one may. -/
def saveKey (r : Reader) : Option Reader :=
  if r.keyAllowed then
    r.removeKey.map fun r =>
      let k : KeyPlace :=
        { number := r.taken + r.queue.length
          index := r.cursor.index
          line := r.cursor.line
          column := r.cursor.column
          required := !r.inFlow && r.indent == (r.cursor.column : Int) }
      { r with keys := some k :: r.keys.drop 1 }
  else some r

/-! ## Blocks -/

/-- The reader with a block begun at a column, unless it is one already or
the place is in a flow collection; its token goes to a number in the
queue. -/
def roll (r : Reader) (column number : Nat) (t : Token) : Option Reader :=
  if r.inFlow || (column : Int) ≤ r.indent then some r
  else if maxNesting ≤ r.indents.length then none
  else some ({ r with indents := r.indent :: r.indents, indent := column }.insert number t)

/-- The reader with a block begun here at the end of the queue. -/
def rollHere (r : Reader) (t : Token) : Option Reader :=
  r.roll r.cursor.column (r.taken + r.queue.length) t

/-- How many blocks end before a column, the innermost of them first, and
the blocks that are left. -/
def closed (column : Int) : Int → List Int → Nat × Int × List Int
  | indent, [] => (0, indent, [])
  | indent, outer :: rest =>
    if column < indent then
      let (n, indent, indents) := closed column outer rest
      (n + 1, indent, indents)
    else (0, indent, outer :: rest)

/-- The reader with the blocks ended that end before a column. -/
def unroll (r : Reader) (column : Int) : Reader :=
  if r.inFlow then r
  else
    let (n, indent, indents) := closed column r.indent r.indents
    { r with
      indent := indent
      indents := indents
      queue := r.queue ++ List.replicate n .blockEnd }

/-! ## Reading one token -/

/-- The byte order mark, which may start a line. -/
def byteOrderMark : Char := '\uFEFF'

/-- The reader at the next token. Tabs count as spaces only where no key may
begin. The bound is the number of characters. -/
def skipGap : Nat → Reader → Reader
  | 0, r => r
  | n + 1, r =>
    let c := r.cursor
    let c := if c.column = 0 ∧ c.peek 0 = some byteOrderMark then c.next else c
    let c := c.dropWhile fun x => x == ' ' || ((r.inFlow || !r.keyAllowed) && x == '\t')
    let c := if c.peek 0 = some '#' then c.skipComments (c.rest.length + 1) else c
    if (c.peek 0).any isBreak then
      skipGap n { r with cursor := c.next, keyAllowed := r.keyAllowed || !r.inFlow }
    else { r with cursor := c }

/-- The end of the file read. -/
def readEnd (r : Reader) : Option Reader :=
  let c := r.cursor
  let r := { r with
    cursor := if c.column = 0 then c else { c with line := c.line + 1, column := 0 } }
  (r.unroll (-1)).removeKey.map fun r => { r with keyAllowed := false }.push .streamEnd

/-- A directive read. -/
def readDirective (r : Reader) : Option Reader :=
  (r.unroll (-1)).removeKey.bind fun r =>
    (directive r.cursor).map fun (d, c) =>
      { r with cursor := c, keyAllowed := false }.push (.directive d)

/-- The mark of a document read. -/
def readMark (r : Reader) (t : Token) : Option Reader :=
  (r.unroll (-1)).removeKey.map fun r =>
    { r with cursor := r.cursor.pass 3, keyAllowed := false }.push t

/-- The start of a flow collection read. -/
def readFlowStart (r : Reader) (t : Token) : Option Reader :=
  r.saveKey.bind fun r =>
    if maxNesting < r.keys.length then none
    else some ({ r with
      cursor := r.cursor.next, keyAllowed := true, keys := none :: r.keys }.push t)

/-- The end of a flow collection read. -/
def readFlowEnd (r : Reader) (t : Token) : Option Reader :=
  r.removeKey.map fun r =>
    { r with
      cursor := r.cursor.next
      keyAllowed := false
      keys := if r.inFlow then r.keys.drop 1 else r.keys }.push t

/-- The comma of a flow collection read. -/
def readFlowEntry (r : Reader) : Option Reader :=
  r.removeKey.map fun r => { r with cursor := r.cursor.next, keyAllowed := true }.push .flowEntry

/-- The dash of a block sequence read. -/
def readBlockEntry (r : Reader) : Option Reader :=
  if !r.inFlow && !r.keyAllowed then none
  else
    (r.rollHere .blockSequence).bind removeKey |>.map fun r =>
      { r with cursor := r.cursor.next, keyAllowed := true }.push .blockEntry

/-- The question mark before a key read. -/
def readKey (r : Reader) : Option Reader :=
  if !r.inFlow && !r.keyAllowed then none
  else
    (r.rollHere .blockMapping).bind removeKey |>.map fun r =>
      { r with cursor := r.cursor.next, keyAllowed := !r.inFlow }.push .key

/-- The colon before a value read. If a key may have begun before, it did,
and its token is put where it began. -/
def readValue (r : Reader) : Option Reader :=
  match r.keys.head?.join with
  | some k =>
    if r.isLive k then
      ((r.insert k.number .key).roll k.column k.number .blockMapping).map fun r =>
        { r with
          cursor := r.cursor.next
          keyAllowed := false
          keys := none :: r.keys.drop 1 }.push .value
    else if k.required then none
    else plain
  | none => plain
where
  /-- The colon after a question mark and its key, or after nothing. -/
  plain : Option Reader :=
    if !r.inFlow && !r.keyAllowed then none
    else
      (r.rollHere .blockMapping).map fun r =>
        { r with cursor := r.cursor.next, keyAllowed := !r.inFlow }.push .value

/-- Something read that may begin a key, and after which none may begin. -/
def readPart (r : Reader) (read : Cursor → Option (Token × Cursor)) : Option Reader :=
  r.saveKey.bind fun r =>
    (read r.cursor).map fun (t, c) => { r with cursor := c, keyAllowed := false }.push t

/-- A block scalar read. -/
def readBlock (r : Reader) (isFolded : Bool) : Option Reader :=
  r.removeKey.bind fun r =>
    (blockScalar isFolded r.indent r.cursor).map fun (text, c) =>
      { r with cursor := c, keyAllowed := true }.push (.scalar text false)

/-- A plain scalar read. -/
def readPlain (r : Reader) : Option Reader :=
  r.saveKey.bind fun r =>
    (plainScalar r.inFlow (r.indent + 1) r.cursor).map fun p =>
      { r with cursor := p.after, keyAllowed := p.atLineEnd }.push (.scalar p.text true)

/-- Whether a plain scalar may begin with a character, by whether a gap
comes after it. -/
def beginsPlain (inFlow gapAfter : Bool) (c : Char) : Bool :=
  if c = '-' then !gapAfter
  else if c = '?' ∨ c = ':' then !inFlow && !gapAfter
  else !isGap c && !",[]\x7b\x7d#&*!|>\x27\"%@\x60".toList.contains c

/-- What begins with a character read, wherever it stands. -/
def readFrom (r : Reader) (x : Char) : Option Reader :=
  let gapAfter := r.cursor.ends 1 isGap
  if x = '[' then r.readFlowStart .flowSequence
  else if x = '\x7b' then r.readFlowStart .flowMapping
  else if x = ']' then r.readFlowEnd .flowSequenceEnd
  else if x = '\x7d' then r.readFlowEnd .flowMappingEnd
  else if x = ',' then r.readFlowEntry
  else if x = '-' ∧ gapAfter then r.readBlockEntry
  else if x = '?' ∧ (r.inFlow || gapAfter) then r.readKey
  else if x = ':' ∧ (r.inFlow || gapAfter) then r.readValue
  else if x = '*' then r.readPart fun c => (nameAfterSign c).map fun (s, c) => (.reference s, c)
  else if x = '&' then r.readPart fun c => (nameAfterSign c).map fun (s, c) => (.anchor s, c)
  else if x = '!' then r.readPart fun c => (tag c).map fun (t, c) => (.tag t, c)
  else if x = '|' ∧ !r.inFlow then r.readBlock false
  else if x = '>' ∧ !r.inFlow then r.readBlock true
  else if x = '"' ∨ x = '\x27' then
    r.readPart fun c => (quotedScalar x c).map fun (s, c) => (.scalar s false, c)
  else if beginsPlain r.inFlow gapAfter x then r.readPlain
  else none

/-- One more token read, and those that have to come before it; nothing if
there can be none. -/
def read (r : Reader) : Option Reader :=
  let r := skipGap (r.cursor.rest.length + 1) r
  let r := r.unroll r.cursor.column
  match r.cursor.rest with
  | [] => r.readEnd
  | x :: _ =>
    if r.cursor.column = 0 ∧ x = '%' then r.readDirective
    else if r.cursor.atMark "---" then r.readMark .documentStart
    else if r.cursor.atMark "..." then r.readMark .documentEnd
    else
      (r.readFrom x).map fun r =>
        if r.queue.getLast? = some .blockEntry then r
        else { r with cursor := r.cursor.skipLineComment }

/-! ## Reading ahead -/

/-- How many tokens have to be in the queue before one is taken. -/
def lookAhead : Nat := 3

/-- The place where a key may have begun with the first token of the
queue. -/
def keyAtHead (r : Reader) : Option KeyPlace :=
  (r.keys.filterMap id).find? fun k => k.number == r.taken

/-- The reader with enough tokens in the queue. The bound is the number of
characters and some more for the end. -/
def fill : Nat → Reader → Option Reader
  | 0, _ => none
  | n + 1, r =>
    if r.queue.length < lookAhead then r.read.bind (fill n)
    else
      match r.keyAtHead with
      | none => some r
      | some k =>
        if r.isLive k then r.read.bind (fill n)
        else if k.required then none
        else some r

/-- **The next token**, and the reader that has it in its queue. -/
def next (r : Reader) : Option (Token × Reader) :=
  match fill (r.cursor.rest.length + lookAhead + 1) r with
  | none => none
  | some r => r.queue.head?.map fun t => (t, r)

/-- The reader with the next token taken. -/
def take (r : Reader) : Reader := { r with queue := r.queue.drop 1, taken := r.taken + 1 }

end Reader

end Yaml

end Settings

end TanLang
