import TanLang.Files.Failure
/-!
# Files — a tree of files and directories

A path is walked part by part: empty parts and single points stay where
they are, two points go up, and everything else goes down by name. **Every
part but the last has to lead to a directory that is there**, also one
that two points leave again. A relative path starts at the home directory
of the tree; the root is above it.
-/

namespace TanLang

/-- A tree of files and directories. -/
structure Files where
  /-- The way from the root to the directory that relative paths start at. -/
  home : List Text := [Text.ofString "tmp", Text.ofString "tan"]
  /-- The way to each file, and its content. -/
  contents : List (List Text × Text) := []
  /-- The ways to directories that need not have a file in them. -/
  made : List (List Text) := []
  deriving DecidableEq, Inhabited

namespace Files

/-- The byte between the parts of a path. -/
def slash : UInt8 := 47

/-- The part that stays where it is. -/
def here : Text := Text.ofString "."

/-- The part that goes up. -/
def up : Text := Text.ofString ".."

/-- The most bytes a part may have. -/
def maxPart : Nat := 255

/-- The most bytes a path may have. -/
def maxPath : Nat := 4095

/-! ## Walking -/

/-- What stands at the end of a way. -/
inductive Place where
  /-- A directory. -/
  | directory (way : List Text)
  /-- A file. -/
  | file (way : List Text)
  /-- Nothing, in a directory that is there. -/
  | vacant (way : List Text)
  deriving DecidableEq, Inhabited

/-- The content of the file at the end of a way, if there is one. -/
def content? (fs : Files) (way : List Text) : Option Text :=
  (fs.contents.find? fun e => e.1 = way).map Prod.snd

/-- Whether a way ends at a directory: home, one that was made, one with a
file in it, or one above any of these. -/
def isDirectory (fs : Files) (way : List Text) : Bool :=
  way.isPrefixOf fs.home || fs.made.any way.isPrefixOf
    || fs.contents.any fun e => way.isPrefixOf e.1.dropLast

/-- What stands at the end of a way into a directory that is there. -/
def look (fs : Files) (way : List Text) : Place :=
  if (fs.content? way).isSome then .file way
  else if fs.isDirectory way then .directory way
  else .vacant way

/-- One part further, which only a directory allows. -/
def step (fs : Files) (place : Place) (part : Text) : Except Problem Place :=
  match place with
  | .file _ => .error .notDirectory
  | .vacant _ => .error .missing
  | .directory way =>
    if part = [] ∨ part = here then .ok place
    else if part = up then .ok (.directory way.dropLast)
    else if maxPart < part.length then .error .tooLong
    else .ok (fs.look (way ++ [part]))

/-- All parts of a path, one after the other. -/
def walk (fs : Files) : Place → List Text → Except Problem Place
  | place, [] => .ok place
  | place, part :: rest =>
    match fs.step place part with
    | .ok place => walk fs place rest
    | .error p => .error p

/-- A path without the slashes at its end, except for the first byte. -/
def withoutEnd (path : Text) : Text :=
  path.take 1 ++ ((path.drop 1).reverse.dropWhile (· == slash)).reverse

/-- Whether a path ends in a slash and so has to lead to a directory. -/
def endsInSlash (path : Text) : Bool := path.getLast? == some slash

/-- Where a path leads if its last part may be missing. -/
def locate (fs : Files) (path : Text) : Except Problem Place :=
  if path.contains 0 then .error .invalid
  else if path = [] then .error .missing
  else if maxPath < path.length then .error .tooLong
  else
    let start := if path.head? = some slash then .directory [] else .directory fs.home
    match fs.walk start (Text.splitOn slash (withoutEnd path)) with
    | .ok (.file way) => if endsInSlash path then .error .notDirectory else .ok (.file way)
    | answer => answer

/-- **The content of a file, or why it cannot be read.** -/
def read (fs : Files) (path : Text) : Except Failure Text :=
  match fs.locate path with
  | .error p => .error ⟨.opening, path, p⟩
  | .ok (.directory _) => .error ⟨.reading, path, .isDirectory⟩
  | .ok (.vacant _) => .error ⟨.opening, path, .missing⟩
  | .ok (.file way) => .ok ((fs.content? way).getD [])

/-! ## Making directories -/

/-- A path with its empty parts and single points left out and its pairs of
points followed, without a look at what is there. -/
def clean (path : Text) : Text :=
  let rooted := path.head? = some slash
  let drop (stack : List Text) (part : Text) : List Text :=
    if part = [] ∨ part = here then stack
    else if part = up then
      match stack with
      | [] => if rooted then [] else [up]
      | top :: rest => if top = up then up :: stack else rest
    else part :: stack
  let body := Text.join [slash] ((Text.splitOn slash path).foldl drop []).reverse
  if rooted then slash :: body else if body = [] then here else body

/-- What comes before a path's last part, with the slash between them. -/
def beforeLast (path : Text) : Text := (path.reverse.dropWhile (· != slash)).reverse

/-- The directory that a path is in. -/
def directoryOf (path : Text) : Text := clean (beforeLast path)

/-- One directory made. -/
def makeDirectory (fs : Files) (path : Text) : Except Problem Files :=
  match fs.locate path with
  | .ok (.vacant way) => .ok { fs with made := way :: fs.made }
  | .ok _ => .error .occupied
  | .error .notDirectory =>
    -- a file with a slash after it is in the way rather than on it
    match fs.locate (withoutEnd path) with
    | .ok (.file _) => .error .occupied
    | _ => .error .notDirectory
  | .error p => .error p

/-- **A directory and those above it made**, as far as they are not there.
The bound is the length of the path. -/
def makeDirectories (fs : Files) : Nat → Text → Except Failure Files
  | 0, _ => .ok fs
  | n + 1, path =>
    match fs.locate path with
    | .ok (.directory _) => .ok fs
    | .ok (.file _) => .error ⟨.makingDirectory, path, .notDirectory⟩
    | _ =>
      let parent := beforeLast (withoutEnd path)
      match if parent = [] then .ok fs else makeDirectories fs n parent with
      | .error f => .error f
      | .ok fs =>
        match fs.makeDirectory path with
        | .ok fs => .ok fs
        | .error p =>
          match fs.locate path with
          | .ok (.directory _) => .ok fs
          | _ => .error ⟨.makingDirectory, path, p⟩

/-! ## Writing -/

/-- Text added to the file at a path, which is made if it is not there. -/
def append (fs : Files) (path text : Text) : Except Failure Files :=
  match fs.locate path with
  | .error p => .error ⟨.opening, path, p⟩
  | .ok (.directory _) => .error ⟨.opening, path, .isDirectory⟩
  | .ok (.vacant way) =>
    if endsInSlash path then .error ⟨.opening, path, .isDirectory⟩
    else .ok { fs with contents := fs.contents ++ [(way, text)] }
  | .ok (.file way) =>
    .ok { fs with contents := fs.contents.map fun e =>
            if e.1 = way then (e.1, e.2 ++ text) else e }

/-- The tree with only the files given, by their paths from home. -/
def ofList (files : List (Text × Text)) : Files :=
  let base : Files := {}
  { base with contents := files.map fun e =>
      (base.home ++ (Text.splitOn slash (clean e.1)), e.2) }

/-- The files below home that were not there before, by their paths. -/
def addedSince (fs before : Files) : List (Text × Text) :=
  fs.contents.filterMap fun e =>
    if fs.home.isPrefixOf e.1 ∧ (before.content? e.1).isNone then
      some (Text.join [slash] (e.1.drop fs.home.length), e.2)
    else none

end Files

end TanLang
