import TanLang.Settings.Yaml.Meaning
/-!
# Settings — YAML files

The entries of the mapping that a file is. A key may not be there twice,
and one that means no value is skipped. The entries of other mappings can
be merged in; those that are there already win.
-/

namespace TanLang

namespace Settings

namespace Yaml

namespace Node

/-- Whether two keys are the same as far as a mapping may not have both. -/
def clashes : Node → Node → Bool
  | scalar a _ _, scalar b _ _ => a == b
  | reference a _, reference b _ => a == b
  | sequence _, sequence _ => true
  | mapping _, mapping _ => true
  | _, _ => false

/-- What an alias stands for, and everything else for itself. -/
def resolved : Node → Option Node
  | reference _ target => target
  | node => some node

/-- Whether a key asks for other mappings to be merged in. -/
def isMerge : Node → Bool
  | scalar cs isPlain tag =>
    let tag := shortTag tag
    cs == "<<".toList && ((isPlain && tag == []) || tag == Text.ofString "!!merge")
  | _ => false

/-- The text of a key: nothing inside if it means no value, and nothing at
all if it cannot be a key. -/
def keyText (k : Node) : Option (Option Text) :=
  match k.resolved with
  | some (scalar cs isPlain tag) =>
    match meaningOf cs isPlain tag with
    | none => none
    | some .null => some none
    | some m => some (m.scalar cs).asText
  | _ => none

/-- What a value can be read as. -/
def value (v : Node) : Scalar :=
  match v.resolved with
  | some (scalar cs isPlain tag) => ((meaningOf cs isPlain tag).map (Meaning.scalar cs)).getD {}
  | _ => {}

end Node

/-- Whether no two keys clash. -/
def areDistinct : List (Node × Node) → Bool
  | [] => true
  | (k, _) :: rest => !(rest.any fun e => k.clashes e.1) && areDistinct rest

/-- The entries that mappings have so far, and the keys that may not be
taken again. -/
structure Gathered where
  /-- The entries. -/
  entries : List Entry := []
  /-- The keys. -/
  keys : List Text := []

/-- The entries of a mapping itself added to those gathered. In a mapping
that is merged in, keys that are there already are passed over. -/
def gatherOwn (isMerged : Bool) (g : Gathered) : List (Node × Node) → Option Gathered
  | [] => some g
  | (k, v) :: rest =>
    if k.isMerge then gatherOwn isMerged g rest
    else
      match k.keyText with
      | none => none
      | some none => gatherOwn isMerged g rest
      | some (some key) =>
        if g.keys.contains key then
          if isMerged then gatherOwn isMerged g rest else none
        else gatherOwn isMerged ⟨g.entries ++ [⟨key, v.value⟩], g.keys ++ [key]⟩ rest

/-- What is merged into a mapping: the mappings that its last merge key
gives; nothing if that gives anything else. -/
def mergedInto (entries : List (Node × Node)) : Option (List (List (Node × Node))) :=
  match (entries.filter fun e => e.1.isMerge).getLast? with
  | none => some []
  | some (_, .sequence items) => items.mapM mappingOf
  | some (_, v) => (mappingOf v).map fun m => [m]
where
  /-- The entries of a mapping or of an alias of one. -/
  mappingOf (node : Node) : Option (List (Node × Node)) :=
    match node.resolved with
    | some (.mapping entries) => some entries
    | _ => none

/-- **The entries of a mapping and of those merged into it**, added to those
gathered. The bound is on how deep merged mappings are nested. -/
def gather : Nat → Bool → Gathered → List (Node × Node) → Option Gathered
  | 0, _, _, _ => none
  | n + 1, isMerged, g, entries =>
    if areDistinct entries then
      match gatherOwn isMerged g entries, mergedInto entries with
      | some g, some merged => merged.foldlM (gather n true) g
      | _, _ => none
    else none

/-- The entries of a file, in order; nothing if it is malformed, or neither
a mapping nor empty. -/
def entries (file : Text) : Option (List Entry) :=
  match firstDocument file with
  | none => none
  | some none => some []
  | some (some (.mapping entries)) =>
    (gather (file.length + 1) false {} entries).map Gathered.entries
  | some (some node) => if node.value.absent then some [] else none

end Yaml

end Settings

end TanLang
