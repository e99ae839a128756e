import TanLang.Settings.Yaml.Token
/-!
# Settings — the nodes of a YAML document

A document is a tree of scalars, sequences and mappings. A part of it can
have a name, and an alias stands for what had its name last. Of a file
only the first document is read.
-/

namespace TanLang

namespace Settings

namespace Yaml

/-- A part of a document. -/
inductive Node where
  /-- A scalar: its text, whether it is without quotes, and its tag, which is
  empty if it has none. -/
  | scalar (text : List Char) (isPlain : Bool) (tag : Text)
  /-- A sequence. -/
  | sequence (items : List Node)
  /-- A mapping. -/
  | mapping (entries : List (Node × Node))
  /-- An alias and what it stands for: nothing if it is inside of that. -/
  | reference (name : List Char) (target : Option Node)
  deriving Inhabited

/-- What has no value. -/
def Node.empty : Node := .scalar [] true []

/-- What a name stands for. -/
inductive Named where
  /-- Something that has not ended yet, by its number. -/
  | unfinished (number : Nat)
  /-- Something that has. -/
  | finished (node : Node)

/-- What has been read of a document. -/
structure Draft where
  /-- The tokens. -/
  reader : Reader
  /-- What each name stands for, the newest first. -/
  names : List (List Char × Named) := []
  /-- How many names there were. -/
  count : Nat := 0
  /-- What each handle of a tag stands for. -/
  handles : List (Text × Text) := []

/-- A step of reading, which may fail. -/
abbrev Step := StateT Draft Option

namespace Step

/-- The next token. -/
def peek : Step Token := fun d => d.reader.next.map fun (t, r) => (t, { d with reader := r })

/-- The next token passed over. -/
def drop : Step Unit := modify fun d => { d with reader := d.reader.take }

/-! ## Names and tags -/

/-- What a tag stands for, by its handle; nothing if no directive says so. -/
def meaning (handles : List (Text × Text)) (t : Tag) : Option Text :=
  if t.handle = [] then some t.suffix
  else (handles.find? fun h => h.1 == t.handle).map fun h => h.2 ++ t.suffix

/-- A name and a tag, in either order, each or not. -/
def properties : Step (Option (List Char) × Option Tag) := do
  match ← peek with
  | .anchor name =>
    drop
    match ← peek with
    | .tag t =>
      drop
      return (some name, some t)
    | _ => return (some name, none)
  | .tag t =>
    drop
    match ← peek with
    | .anchor name =>
      drop
      return (some name, some t)
    | _ => return (none, some t)
  | _ => return (none, none)

/-- A node read under a name. -/
def named (name : Option (List Char)) (read : Step Node) : Step Node := do
  match name with
  | none => read
  | some name =>
    let number := (← get).count
    modify fun d =>
      { d with names := (name, .unfinished number) :: d.names, count := number + 1 }
    let node ← read
    modify fun d => { d with names := d.names.map (finish number node) }
    return node
where
  /-- The name of this number finished. -/
  finish (number : Nat) (node : Node) : List Char × Named → List Char × Named
    | (name, .unfinished n) =>
      if n = number then (name, .finished node) else (name, .unfinished n)
    | other => other

/-- An alias of a name that there is. -/
def referenceTo (name : List Char) : Step Node := do
  match (← get).names.find? fun n => n.1 == name with
  | none => failure
  | some (_, .unfinished _) => return .reference name none
  | some (_, .finished node) => return .reference name (some node)

/-! ## Nodes -/

mutual

/-- A node. Blocks can be in blocks only, and the items of a sequence need
not be indented if it is the value of a key. The bound is three times the
number of characters. -/
def node : Nat → Bool → Bool → Step Node
  | 0, _, _ => failure
  | n + 1, inBlock, mayAlign => do
    match ← peek with
    | .reference name =>
      drop
      referenceTo name
    | _ =>
      let (name, tag) ← properties
      let tag ← match tag with
        | none => pure []
        | some t => (meaning (← get).handles t : Option Text)
      let empty := if name.isSome || !tag.isEmpty then named name (pure (.scalar [] true tag))
        else failure
      match ← peek with
      | .blockEntry => if mayAlign then named name (alignedItems n []) else empty
      | .scalar text isPlain =>
        named name do
          drop
          return .scalar text isPlain tag
      | .flowSequence =>
        named name do
          drop
          flowItems n true []
      | .flowMapping =>
        named name do
          drop
          flowEntries n true []
      | .blockSequence =>
        if inBlock then
          named name do
            drop
            blockItems n []
        else empty
      | .blockMapping =>
        if inBlock then
          named name do
            drop
            blockEntries n []
        else empty
      | _ => empty

/-- The items of a block sequence, after those that are `done` in reverse. -/
def blockItems : Nat → List Node → Step Node
  | 0, _ => failure
  | n + 1, done => do
    match ← peek with
    | .blockEntry =>
      drop
      match ← peek with
      | .blockEntry => blockItems n (.empty :: done)
      | .blockEnd => blockItems n (.empty :: done)
      | _ => blockItems n ((← node n true false) :: done)
    | .blockEnd =>
      drop
      return .sequence done.reverse
    | _ => failure

/-- The items of a block sequence that are not indented. -/
def alignedItems : Nat → List Node → Step Node
  | 0, _ => failure
  | n + 1, done => do
    match ← peek with
    | .blockEntry =>
      drop
      match ← peek with
      | .blockEntry => alignedItems n (.empty :: done)
      | .key => alignedItems n (.empty :: done)
      | .value => alignedItems n (.empty :: done)
      | .blockEnd => alignedItems n (.empty :: done)
      | _ => alignedItems n ((← node n true false) :: done)
    | _ => return .sequence done.reverse

/-- A key or a value of a block mapping, which may be empty. -/
def blockPart : Nat → Step Node
  | 0 => failure
  | n + 1 => do
    match ← peek with
    | .key => return .empty
    | .value => return .empty
    | .blockEnd => return .empty
    | _ => node n true true

/-- The entries of a block mapping, after those that are `done` in reverse. -/
def blockEntries : Nat → List (Node × Node) → Step Node
  | 0, _ => failure
  | n + 1, done => do
    match ← peek with
    | .key =>
      drop
      let k ← blockPart n
      match ← peek with
      | .value =>
        drop
        let v ← blockPart n
        blockEntries n ((k, v) :: done)
      | _ => blockEntries n ((k, .empty) :: done)
    | .blockEnd =>
      drop
      return .mapping done.reverse
    | _ => failure

/-- The items of a flow sequence. An item with a colon in it is a mapping of
one entry. -/
def flowItems : Nat → Bool → List Node → Step Node
  | 0, _, _ => failure
  | n + 1, isFirst, done => do
    let t ← peek
    if t = .flowSequenceEnd then
      drop
      return .sequence done.reverse
    else
      if !isFirst then
        if t = .flowEntry then drop else failure
      match ← peek with
      | .flowSequenceEnd =>
        drop
        return .sequence done.reverse
      | .key =>
        drop
        let item ← flowPair n
        flowItems n false (item :: done)
      | _ =>
        let item ← node n false false
        flowItems n false (item :: done)

/-- The rest of an item of a flow sequence that is a mapping. Where its key
is empty, the token after it is passed over. -/
def flowPair : Nat → Step Node
  | 0 => failure
  | n + 1 => do
    let t ← peek
    let k ←
      if t = .value ∨ t = .flowEntry ∨ t = .flowSequenceEnd then
        drop
        pure Node.empty
      else node n false false
    match ← peek with
    | .value =>
      drop
      let t ← peek
      let v ← if t = .flowEntry ∨ t = .flowSequenceEnd then pure Node.empty
        else node n false false
      let _ ← peek
      return .mapping [(k, v)]
    | _ => return .mapping [(k, .empty)]

/-- The entries of a flow mapping. -/
def flowEntries : Nat → Bool → List (Node × Node) → Step Node
  | 0, _, _ => failure
  | n + 1, isFirst, done => do
    let t ← peek
    if t = .flowMappingEnd then
      drop
      return .mapping done.reverse
    else
      if !isFirst then
        if t = .flowEntry then drop else failure
      match ← peek with
      | .flowMappingEnd =>
        drop
        return .mapping done.reverse
      | .key =>
        drop
        let t ← peek
        let k ← if t = .value ∨ t = .flowEntry ∨ t = .flowMappingEnd then pure Node.empty
          else node n false false
        match ← peek with
        | .value =>
          drop
          let t ← peek
          let v ← if t = .flowEntry ∨ t = .flowMappingEnd then pure Node.empty
            else node n false false
          flowEntries n false ((k, v) :: done)
        | _ => flowEntries n false ((k, .empty) :: done)
      | _ =>
        let k ← node n false false
        let _ ← peek
        flowEntries n false ((k, .empty) :: done)

end

/-! ## Documents -/

/-- The handles that need no directive. -/
def defaultHandles : List (Text × Text) :=
  [(Text.ofString "!", Text.ofString "!"),
   (Text.ofString "!!", Text.ofString "tag:yaml.org,2002:")]

/-- The directives before a document: at most one about the version, which
has to be 1.1, and at most one about each handle. The bound is the number
of characters. -/
def directives : Nat → Bool → List (Text × Text) → Step (List (Text × Text))
  | 0, _, _ => failure
  | n + 1, hasVersion, handles => do
    match ← peek with
    | .directive (.version major minor) =>
      if hasVersion ∨ major ≠ 1 ∨ minor ≠ 1 then failure
      drop
      directives n true handles
    | .directive (.handle name start) =>
      if handles.any fun h => h.1 == name then failure
      drop
      directives n hasVersion (handles ++ [(name, start)])
    | _ => return handles ++ defaultHandles

/-- The content of a document after its mark, which may be empty. -/
def content (n : Nat) : Step Node := do
  match ← peek with
  | .directive _ => return .empty
  | .documentStart => return .empty
  | .documentEnd => return .empty
  | .streamEnd => return .empty
  | _ => node n true false

/-- The first document, if there is one. -/
def document (n : Nat) : Step (Option Node) := do
  match ← peek with
  | .streamEnd => return none
  | first =>
    let handles ← directives n false []
    modify fun d => { d with handles := handles }
    let isMarked := (first matches .directive _) || first == .documentStart
    if isMarked then
      if (← peek) ≠ .documentStart then failure
      drop
      let root ← content n
      let _ ← peek
      return some root
    else
      let root ← node n true false
      let _ ← peek
      return some root

end Step

/-- **The first document of a file**, if there is one; nothing at all if the
file is malformed as far as it has to be read for that. -/
def firstDocument (file : Text) : Option (Option Node) :=
  match characters file with
  | none => none
  | some cs => (Step.document (3 * cs.length + 6) { reader := { cursor := { rest := cs } } }).map Prod.fst

end Yaml

end Settings

end TanLang
