import TanLang.Files
import TanLang.Session
import TanLang.Settings.Toml
import TanLang.Settings.Yaml
import TanLang.Text.Lower
/-!
# Settings

What can be set about a run, in a file or by flags. A file is TOML or YAML
by its ending and is read over the defaults: what it does not mention
stays as it is, and what it mentions must be a setting.
-/

namespace TanLang

/-- The settings of a run. -/
structure Settings where
  /-- How much is logged. -/
  logLevel : Text := Text.ofString "none"
  /-- Where the log goes; to the error output if it is empty. -/
  logFile : Text := []
  /-- The limit on nested calls. -/
  maxCallDepth : Int := defaultMaxDepth
  /-- Whether the database natives are there. -/
  database : Bool := false
  /-- Whether reports are shown with the source. -/
  showSource : Bool := false
  deriving DecidableEq, Inhabited

namespace Settings

/-- The formats of files. -/
inductive Format where
  | toml | yaml
  deriving DecidableEq, Inhabited

/-- Why a file does not give settings. -/
inductive Error where
  /-- Its ending names no format. -/
  | unknownFormat
  /-- It cannot be read. -/
  | unreadable (format : Format) (failure : Files.Failure)
  /-- It is malformed, or a setting has the wrong kind of value. -/
  | undecodable
  /-- It mentions a key that is no setting. -/
  | unknownKey (key : Text)
  /-- The limit on nested calls is not positive. -/
  | depthNotPositive
  deriving DecidableEq, Inhabited

/-- The wording of a failure to read a file. A YAML file that could be
opened is read bit by bit. -/
def unreadableMessage (format : Format) (f : Files.Failure) : Text :=
  match format, f.deed with
  | .yaml, .reading => Text.ofString "yaml: input error: " ++ f.message
  | _, _ => f.message

/-- The wording of an error about a file. -/
def Error.message (path : Text) (e : Error) : Text :=
  Text.ofString "read config '" ++ path ++ Text.ofString "': " ++
    match e with
    | unknownFormat => Text.ofString "unknown config format"
    | unreadable format f => unreadableMessage format f
    | undecodable => Text.ofString "malformed settings"
    | unknownKey key => Text.ofString "unknown key '" ++ key ++ Text.ofString "'"
    | depthNotPositive => Text.ofString "max_call_depth must be positive"

/-- The byte before the ending of a path. -/
def point : UInt8 := 46

/-- The ending of a path: from the last point of its last part on. -/
def ending (path : Text) : Text :=
  let reversed := path.reverse.takeWhile (· != Files.slash)
  if reversed.contains point then (reversed.takeWhile (· != point)).reverse else []

/-- **The format a path's ending names**, in any case. -/
def format? (path : Text) : Option Format :=
  let ending := Text.lower (ending path)
  if ending = Text.ofString "toml" then some .toml
  else if ending = Text.ofString "yaml" ∨ ending = Text.ofString "yml" then some .yaml
  else none

/-- The settings that can be set. -/
inductive Field where
  | logLevel | logFile | maxCallDepth | database | showSource
  deriving DecidableEq, Inhabited

namespace Field

/-- The key of a setting. -/
def key : Field → String
  | logLevel => "log_level"
  | logFile => "log_file"
  | maxCallDepth => "max_call_depth"
  | database => "database"
  | showSource => "show_source"

/-- Every setting. -/
def all : List Field := [logLevel, logFile, maxCallDepth, database, showSource]

/-- The setting of a key. -/
def ofKey? (key : Text) : Option Field := all.find? fun f => Text.ofString f.key == key

/-- A setting set to a scalar; nothing if that is of the wrong kind. -/
def set (s : Settings) (f : Field) (value : Scalar) : Option Settings :=
  if value.absent then some s
  else
    match f with
    | logLevel => value.asText.map fun t => { s with logLevel := t }
    | logFile => value.asText.map fun t => { s with logFile := t }
    | maxCallDepth => value.asInt.map fun n => { s with maxCallDepth := n }
    | database => value.asBool.map fun b => { s with database := b }
    | showSource => value.asBool.map fun b => { s with showSource := b }

end Field

/-- The settings with those of the entries set, by what gives the setting
of a key. Keys of no setting are passed over; nothing if a value is of the
wrong kind. -/
def fill (field? : Text → Option Field) (s : Settings) : List Entry → Option Settings
  | [] => some s
  | e :: rest =>
    match field? e.key with
    | none => fill field? s rest
    | some f => (f.set s e.value).bind fun s => fill field? s rest

/-- The settings that a TOML file gives. The case of a key does not matter. -/
def decodeToml (file : Text) : Except Error Settings :=
  let field? (key : Text) := Field.ofKey? (Text.folded key)
  match Toml.document file with
  | none => .error .undecodable
  | some d =>
    match fill field? {} d.top, d.firstUnknown fun key => (field? key).isSome with
    | none, _ => .error .undecodable
    | some _, some path => .error (.unknownKey (Toml.keyText path))
    | some s, none => .ok s

/-- The settings that a YAML file gives. An unknown key is as bad as a value
of the wrong kind. -/
def decodeYaml (file : Text) : Except Error Settings :=
  match Yaml.entries file with
  | none => .error .undecodable
  | some entries =>
    if entries.all fun e => (Field.ofKey? e.key).isSome then
      match fill Field.ofKey? {} entries with
      | none => .error .undecodable
      | some s => .ok s
    else .error .undecodable

/-- **The settings that a file gives.** A wrong kind of value is worse than
an unknown key, and both are worse than a bad limit. -/
def decode (format : Format) (file : Text) : Except Error Settings :=
  let decoded :=
    match format with
    | .toml => decodeToml file
    | .yaml => decodeYaml file
  match decoded with
  | .error e => .error e
  | .ok s => if s.maxCallDepth ≤ 0 then .error .depthNotPositive else .ok s

/-- The settings that the file at a path gives, which is read only if its
ending names a format. -/
def load (read : Text → Except Files.Failure Text) (path : Text) : Except Error Settings :=
  match format? path with
  | none => .error .unknownFormat
  | some format =>
    match read path with
    | .error f => .error (.unreadable format f)
    | .ok file => decode format file

end Settings

end TanLang
