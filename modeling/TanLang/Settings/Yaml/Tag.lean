import TanLang.Settings.Yaml.Cursor
/-!
# Settings — names and tags in YAML

Names stand for parts of a document; tags say what kind of value something
is. A tag is a handle and a suffix, and a directive can say what a handle
stands for.
-/

namespace TanLang

namespace Settings

namespace Yaml

/-- Whether a character can stand in a name. -/
def isNameChar (c : Char) : Bool := c.isAlphanum || c == '_' || c == '-'

/-- The name after the sign here, and the place after it. Something has to
set the name off from what follows. -/
def nameAfterSign (c : Cursor) : Option (List Char × Cursor) :=
  let (name, after) := c.next.take isNameChar
  if name ≠ [] ∧ after.ends 0 fun x => isGap x || "?:,]\x7d%@\x60".toList.contains x then
    some (name, after)
  else none

/-! ## Tags -/

/-- A tag as it is written. -/
structure Tag where
  /-- What a directive can explain; empty if the suffix is the whole tag. -/
  handle : Text
  /-- The rest of the tag. -/
  suffix : Text
  deriving DecidableEq, Inhabited

/-- The sign of a tag. -/
def tagSign : Text := Text.ofString "!"

/-- The handle here, and the place after it. It starts with the sign, and
ends with it unless the handle is no more than the start of a tag. -/
def handle (c : Cursor) : Option (List Char × Cursor) :=
  if c.peek 0 = some '!' then
    let (name, after) := c.next.take isNameChar
    if after.peek 0 = some '!' then some ('!' :: name ++ ['!'], after.next)
    else some ('!' :: name, after)
  else none

/-- How many bytes a spelling has that starts with this byte; nothing if
none does. -/
def spellingLength (b : Nat) : Option Nat :=
  if b < 0x80 then some 1
  else if b < 0xC0 then none
  else if b < 0xE0 then some 2
  else if b < 0xF0 then some 3
  else if b < 0xF8 then some 4
  else none

/-- The byte that a percent sign and two hexadecimal digits stand for. -/
def escapedByte (c : Cursor) : Option Nat :=
  match c.rest with
  | '%' :: a :: b :: _ =>
    if Integer.isHex a ∧ Integer.isHex b then
      some ((Integer.digitValue a).getD 0 * 16 + (Integer.digitValue b).getD 0)
    else none
  | _ => none

/-- The bytes of the rest of a spelling. -/
def escapedTail : Nat → Cursor → Option (Text × Cursor)
  | 0, c => some ([], c)
  | n + 1, c =>
    match escapedByte c with
    | some b =>
      if 0x80 ≤ b ∧ b < 0xC0 then
        (escapedTail n (c.pass 3)).map fun t => (UInt8.ofNat b :: t.1, t.2)
      else none
    | none => none

/-- Whether a character can stand in the suffix of a tag. -/
def isTagChar (c : Char) : Bool := isNameChar c || ";/?:@&=+$,.!~*\x27()[]%".toList.contains c

/-- The suffix of a tag here, which may be empty, and the place after it.
The bound is the number of characters. -/
def suffix : Nat → Cursor → Option (Text × Cursor)
  | 0, _ => none
  | n + 1, c =>
    match c.peek 0 with
    | none => some ([], c)
    | some x =>
      if x = '%' then
        match (escapedByte c).bind fun b => (spellingLength b).map fun l => (b, l) with
        | none => none
        | some (b, length) =>
          match escapedTail (length - 1) (c.pass 3) with
          | none => none
          | some (more, c) =>
            (suffix n c).map fun t => (UInt8.ofNat b :: more ++ t.1, t.2)
      else if isTagChar x then (suffix n c.next).map fun t => (Text.ofChar x ++ t.1, t.2)
      else some ([], c)

/-- The suffix of a tag here, which may not be empty. -/
def properSuffix (c : Cursor) : Option (Text × Cursor) :=
  match suffix (c.rest.length + 1) c with
  | some (t, after) => if t = [] then none else some (t, after)
  | none => none

/-- **The tag here**, and the place after it, which has to be a gap. -/
def tag (c : Cursor) : Option (Tag × Cursor) :=
  match unended with
  | some (t, after) => if after.ends 0 isGap then some (t, after) else none
  | none => none
where
  /-- The tag, whatever comes after it. -/
  unended : Option (Tag × Cursor) :=
    if c.peek 1 = some '<' then
      match properSuffix (c.pass 2) with
      | some (t, after) => if after.peek 0 = some '>' then some (⟨[], t⟩, after.next) else none
      | none => none
    else
      match handle c with
      | none => none
      | some (h, after) =>
        if 1 < h.length ∧ h.getLast? = some '!' then
          (properSuffix after).map fun t => (⟨Text.ofChars h, t.1⟩, t.2)
        else
          match suffix (after.rest.length + 1) after with
          | none => none
          | some (t, after) =>
            let t := Text.ofChars (h.drop 1) ++ t
            some (if t = [] then ⟨[], tagSign⟩ else ⟨tagSign, t⟩, after)

/-! ## Directives -/

/-- A directive. -/
inductive Directive where
  /-- The version of YAML. -/
  | version (major minor : Nat)
  /-- What a handle stands for. -/
  | handle (name start : Text)
  deriving DecidableEq, Inhabited

/-- The number of a version here, of at most two digits. -/
def versionNumber (c : Cursor) : Option (Nat × Cursor) :=
  let (digits, after) := c.take Integer.isDecimal
  if digits = [] ∨ 2 < digits.length then none
  else some (digits.foldl (fun n d => 10 * n + (d.toNat - '0'.toNat)) 0, after)

/-- The rest of a directive about the version. -/
def versionDirective (c : Cursor) : Option (Directive × Cursor) :=
  match versionNumber (c.dropWhile isSpace) with
  | none => none
  | some (major, c) =>
    if c.peek 0 = some '.' then
      (versionNumber c.next).map fun minor => (.version major minor.1, minor.2)
    else none

/-- The rest of a directive about a handle. -/
def handleDirective (c : Cursor) : Option (Directive × Cursor) :=
  match handle (c.dropWhile isSpace) with
  | none => none
  | some (h, c) =>
    if h ≠ ['!'] ∧ h.getLast? ≠ some '!' then none
    else if (c.peek 0).any isSpace then
      match properSuffix (c.dropWhile isSpace) with
      | some (t, c) => if c.ends 0 isGap then some (.handle (Text.ofChars h) t, c) else none
      | none => none
    else none

/-- **The directive here**, and the place on the next line. -/
def directive (c : Cursor) : Option (Directive × Cursor) :=
  let (name, c) := c.next.take isNameChar
  let found :=
    if !c.ends 0 isGap then none
    else if name = "YAML".toList then versionDirective c
    else if name = "TAG".toList then handleDirective c
    else none
  match found with
  | none => none
  | some (d, c) => c.endLine.map fun c => (d, c)

end Yaml

end Settings

end TanLang
