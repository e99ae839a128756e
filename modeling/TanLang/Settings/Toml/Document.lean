import TanLang.Settings.Toml.Line
/-!
# Settings — what the lines of a TOML file add up to

A document says what stands at each path: a table, an array of tables, of
which only the newest element can still grow, or a value. A path may be
given once. Paths that came to be tables only on the way to others are
**implied**; they may still be given, which makes them tables of their own.
An array may be given again, and the later value counts.
-/

namespace TanLang

namespace Settings

namespace Toml

/-- What stands at a path. -/
inductive Node where
  | table | tables
  | value (scalar : Scalar)
  deriving DecidableEq, Inhabited

/-- What a node can be read as: only a value as anything. -/
def Node.scalar : Node → Scalar
  | value s => s
  | _ => {}

/-- What the lines so far add up to. -/
structure Document where
  /-- What stands at each path. -/
  nodes : List (Path × Node) := []
  /-- The paths that were only implied. -/
  implied : List Path := []
  /-- The paths whose value is an array. -/
  arrays : List Path := []
  /-- The paths given, in reverse. -/
  given : List Path := []
  deriving Inhabited

namespace Document

/-- What stands at a path. -/
def node? (d : Document) (path : Path) : Option Node :=
  (d.nodes.find? fun e => e.1 == path).map Prod.snd

/-- The paths above a path, from the outermost on. -/
def above (path : Path) : List Path := (List.range (path.length - 1)).map fun n => path.take (n + 1)

/-- Whether something at a path can be given: whether the paths above it
are tables. -/
def hasRoom (d : Document) (path : Path) : Bool :=
  (above path).all fun p => d.node? p == some .table || d.node? p == some .tables

/-- The document with a path marked as implied. -/
def imply (d : Document) (path : Path) : Document :=
  { d with implied := path :: d.implied }

/-- The document with a path no longer marked as implied. -/
def affirm (d : Document) (path : Path) : Document :=
  { d with implied := d.implied.filter (· != path) }

/-- The document with nothing but a node at a path and below it. -/
def replace (d : Document) (path : Path) (node : Node) : Document :=
  { d with nodes := d.nodes.filter (fun e => !path.isPrefixOf e.1) ++ [(path, node)] }

/-- The document with a note on whether the value of a key in a table is an
array. The empty key stands for its table. -/
def note (d : Document) (path : Path) (isArray : Bool) : Document :=
  let path := if path.getLast? == some [] && 1 < path.length then path.dropLast else path
  let others := d.arrays.filter (· != path)
  { d with arrays := if isArray then path :: others else others }

/-- The document with a node put at a path; nothing if it was given
already. -/
def put (d : Document) (path : Path) (node : Node) : Option Document :=
  if !d.hasRoom path then none
  else if (d.node? path).isNone then some (d.replace path node)
  else if d.arrays.contains path then some ((d.affirm path).replace path node)
  else if d.implied.contains path then some (d.affirm path)
  else none

/-- The document with an inline table closed at its path. -/
def close (d : Document) (path : Path) : Option Document :=
  if d.arrays.contains path || d.implied.contains path then some (d.affirm path) else none

/-- The document with tables along the paths given, where there was
nothing. -/
def pave (d : Document) : List Path → Option Document
  | [] => some d
  | path :: rest =>
    match d.node? path with
    | none => ((d.imply path).replace path .table).pave rest
    | some (.value _) => none
    | some _ => d.pave rest

/-- The document with a table at a path, or with a new element of an array
of tables, and with tables on the way to it. -/
def enter (d : Document) (path : Path) (isElement : Bool) : Option Document :=
  match d.pave (above path) with
  | none => none
  | some d =>
    if isElement then
      match d.node? path with
      | none => some (d.replace path .tables)
      | some .tables => some (d.replace path .tables)
      | some _ => none
    else d.put path .table

/-- The document with the tables of a key with points entered. -/
def enterAll (d : Document) : List Path → Option Document
  | [] => some d
  | path :: rest =>
    match (d.imply path).enter path false with
    | none => none
    | some d => d.enterAll rest

/-! ## Values -/

mutual

/-- The document with what a value at a path holds in inline tables. -/
def fill (d : Document) (path : Path) (isItem : Bool) : Value → Option Document
  | .scalar _ => some d
  | .array items => (d.note path true).fillItems path items
  | .table entries =>
    match (d.imply path).enter path isItem with
    | none => none
    | some d => d.fillEntries path entries

/-- The same for the items of an array. -/
def fillItems (d : Document) (path : Path) : List Value → Option Document
  | [] => some d
  | v :: rest =>
    match d.fill path true v with
    | none => none
    | some d => d.fillItems path rest

/-- The document with entries below a table. -/
def fillEntries (d : Document) (table : Path) : List (Path × Value) → Option Document
  | [] => some d
  | (key, v) :: rest =>
    let path := table ++ key
    match d.enterAll ((above key).map (table ++ ·)) with
    | none => none
    | some d =>
      match ({ d with given := path :: d.given } : Document).fill path false v with
      | none => none
      | some d =>
        match v with
        | .scalar s =>
          match d.put path (.value s) with
          | none => none
          | some d => (d.note path false).fillEntries table rest
        | .array _ =>
          match d.put path (.value {}) with
          | none => none
          | some d => (d.note path true).fillEntries table rest
        | .table _ =>
          match d.close path with
          | none => none
          | some d => (d.note path false).fillEntries table rest

end

/-! ## Lines -/

mutual

/-- The paths in a value, from the value on, that hold no tables; nothing
if an inline table in it gives a key below one of them. -/
def leaves : Value → Option (List Path)
  | .scalar _ => some [[]]
  | .array items => if leavesFit items then some [[]] else none
  | .table entries => entryLeaves [] entries

/-- Whether every item has leaves. -/
def leavesFit : List Value → Bool
  | [] => true
  | v :: rest => (leaves v).isSome && leavesFit rest

/-- The leaves of entries, after those found so far. -/
def entryLeaves (found : List Path) : List (Path × Value) → Option (List Path)
  | [] => some found
  | (key, v) :: rest =>
    match leaves v with
    | none => none
    | some below =>
      if (above key).any found.contains then none
      else entryLeaves (found.filter (!key.isPrefixOf ·) ++ below.map (key ++ ·)) rest

end

/-- The document with the path of a head among those given. -/
def headed (d : Document) (path : Path) : Document :=
  { d with given := path :: d.given, arrays := d.arrays.filter (· != path) }

/-- The document with one more line, in the table that was headed last. -/
def addLine (d : Document) (table : Path) (l : Line) : Option (Document × Path) :=
  match l with
  | .table path => (d.enter path false).map fun d => (d.headed path, path)
  | .element path => (d.enter path true).map fun d => (d.headed path, path)
  | .entry key v =>
    if (leaves v).isSome then (d.fillEntries table [(key, v)]).map fun d => (d, table) else none

/-- The document of lines, in the table that was headed last. -/
def addLines (d : Document) (table : Path) : List Line → Option Document
  | [] => some d
  | l :: rest =>
    match d.addLine table l with
    | none => none
    | some (d, table) => d.addLines table rest

end Document

/-- **The document of a file**; nothing if the file is malformed or gives a
path twice. -/
def document (file : Text) : Option Document :=
  (lines file).bind fun ls => ({} : Document).addLines [] ls

end Toml

end Settings

end TanLang
