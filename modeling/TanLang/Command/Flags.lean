import TanLang.Integer
import TanLang.Text.Quoted
/-!
# The command — its flags

Flags come before the script. A flag starts with one or two minus signs; a
value follows it after an equals sign or, unless the flag is a switch, as
the next argument. The first argument that is no flag ends them, and so
does a lone pair of minus signs, which is dropped.
-/

namespace TanLang

namespace Command

/-- What the flags say; a flag that is not given says nothing. -/
structure Flags where
  /-- Whether to show the help. -/
  help : Option Bool := none
  /-- Whether to show the version. -/
  version : Option Bool := none
  /-- The settings file. -/
  config : Option Text := none
  /-- The limit on nested calls. -/
  maxDepth : Option Int := none
  /-- Whether the database natives are there. -/
  database : Option Bool := none
  /-- Whether reports are shown with the source. -/
  showSource : Option Bool := none
  /-- How much is logged. -/
  logLevel : Option Text := none
  /-- Where the log goes. -/
  logFile : Option Text := none
  deriving DecidableEq, Inhabited

namespace Flags

/-- The wording of what is wrong with a number. -/
def numberMessage : Integer.Error → String
  | .malformed => "parse error"
  | .outOfRange => "value out of range"

/-- What is wrong with the flags. -/
inductive Error where
  /-- An argument that starts like a flag but cannot be one. -/
  | badForm (argument : Text)
  /-- A flag that there is not. -/
  | unknown (name : Text)
  /-- A flag without the value it needs. -/
  | noValue (name : Text)
  /-- A flag with a value that is no number. -/
  | badNumber (value name : Text) (error : Integer.Error)
  /-- A switch with a value that is no truth value. -/
  | badSwitch (value name : Text)
  deriving DecidableEq, Inhabited

/-- The wording of an error. -/
def Error.message : Error → Text
  | badForm argument => Text.ofString "bad flag syntax: " ++ argument
  | unknown name => Text.ofString "flag provided but not defined: -" ++ name
  | noValue name => Text.ofString "flag needs an argument: -" ++ name
  | badNumber value name error =>
    Text.ofString "invalid value " ++ Text.quote value ++ Text.ofString " for flag -" ++ name
      ++ Text.ofString ": " ++ Text.ofString (numberMessage error)
  | badSwitch value name =>
    Text.ofString "invalid boolean value " ++ Text.quote value ++ Text.ofString " for -" ++ name
      ++ Text.ofString ": parse error"

/-! ## Values -/

/-- The truth value of a switch. -/
def switchValue (value : Text) : Option Bool :=
  let isIn (words : List String) := words.any fun w => Text.ofString w == value
  if isIn ["1", "t", "T", "true", "TRUE", "True"] then some true
  else if isIn ["0", "f", "F", "false", "FALSE", "False"] then some false
  else none

/-- A number's characters: a byte beyond ASCII is none of a number's. -/
def asciiChars (t : Text) : List Char := t.map fun b => Char.ofNat b.toNat

/-! ## Flags -/

/-- A flag that takes a truth value, by its name. -/
def switch? (name : Text) : Option (Flags → Bool → Flags) :=
  if name = Text.ofString "help" ∨ name = Text.ofString "h" then
    some fun f b => { f with help := some b }
  else if name = Text.ofString "version" ∨ name = Text.ofString "v" then
    some fun f b => { f with version := some b }
  else if name = Text.ofString "db" then some fun f b => { f with database := some b }
  else if name = Text.ofString "show-source" then some fun f b => { f with showSource := some b }
  else none

/-- A flag that takes another value, by its name. -/
def setter? (name : Text) : Option (Flags → Text → Except Error Flags) :=
  if name = Text.ofString "config" then some fun f v => .ok { f with config := some v }
  else if name = Text.ofString "log-level" then some fun f v => .ok { f with logLevel := some v }
  else if name = Text.ofString "log-file" then some fun f v => .ok { f with logFile := some v }
  else if name = Text.ofString "max-depth" then
    some fun f v =>
      match Integer.read (asciiChars v) with
      | .ok n => .ok { f with maxDepth := some n }
      | .error e => .error (.badNumber v name e)
  else none

/-- An argument as the flags see it. -/
inductive Argument where
  /-- It is no flag. -/
  | operand
  /-- It ends the flags. -/
  | terminator
  /-- It starts like a flag but cannot be one. -/
  | malformed
  /-- It is a flag, with a value or without. -/
  | flag (name : Text) (value : Option Text)

/-- The byte that flags start with. -/
def minus : UInt8 := 45

/-- The byte between a flag and its value. -/
def equalsSign : UInt8 := 61

/-- The name and the value of a flag, cut at the first equals sign after the
first character. -/
def cutValue (t : Text) : Argument :=
  let name := t.take 1 ++ (t.drop 1).takeWhile (· != equalsSign)
  match t.drop name.length with
  | [] => .flag name none
  | _ :: value => .flag name (some value)

/-- What an argument is. -/
def classify (arg : Text) : Argument :=
  match arg with
  | [] => .operand
  | first :: rest =>
    if first ≠ minus ∨ rest.isEmpty then .operand
    else if rest = [minus] then .terminator
    else
      let name := if rest.head? = some minus then rest.drop 1 else rest
      if name.head? = some minus ∨ name.head? = some equalsSign then .malformed
      else cutValue name

/-- **The flags among the arguments, and the arguments after them.** -/
def parse (f : Flags) : List Text → Except Error (Flags × List Text)
  | [] => .ok (f, [])
  | arg :: rest =>
    match classify arg with
    | .operand => .ok (f, arg :: rest)
    | .terminator => .ok (f, rest)
    | .malformed => .error (.badForm arg)
    | .flag name value =>
      match switch? name, setter? name with
      | some set, _ =>
        match value with
        | none => parse (set f true) rest
        | some v =>
          match switchValue v with
          | some b => parse (set f b) rest
          | none => .error (.badSwitch v name)
      | none, some set =>
        match value, rest with
        | some v, rest =>
          match set f v with
          | .ok f => parse f rest
          | .error e => .error e
        | none, v :: rest =>
          match set f v with
          | .ok f => parse f rest
          | .error e => .error e
        | none, [] => .error (.noValue name)
      | none, none => .error (.unknown name)

end Flags

end Command

end TanLang
