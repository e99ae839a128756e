import TanLang.Decimal.Reading
import TanLang.Settings.Yaml.Node
/-!
# Settings — what a YAML scalar means

A scalar without quotes and without a tag means what it looks like: no
value, a truth value, a number, or else a text. In quotes it is a text. A
tag says what it has to mean.
-/

namespace TanLang

namespace Settings

namespace Yaml

/-- What a scalar means. -/
inductive Meaning where
  /-- No value. -/
  | null
  /-- A truth value. -/
  | bool (b : Bool)
  /-- A whole number. -/
  | int (n : Int)
  /-- Another number. -/
  | float (x : Float)
  /-- A text. -/
  | text (t : Text)
  deriving Inhabited

/-! ## Looks -/

/-- Whether characters are one of the words given. -/
def isOneOf (words : List String) (cs : List Char) : Bool := words.any fun w => w.toList == cs

/-- What the words mean that have a meaning of their own. -/
def wordMeaning (cs : List Char) : Option Meaning :=
  if isOneOf ["", "~", "null", "Null", "NULL"] cs then some .null
  else if isOneOf ["true", "True", "TRUE"] cs then some (.bool true)
  else if isOneOf ["false", "False", "FALSE"] cs then some (.bool false)
  else if isOneOf [".nan", ".NaN", ".NAN"] cs then some (.float (0 / 0))
  else if isOneOf [".inf", ".Inf", ".INF", "+.inf", "+.Inf", "+.INF"] cs then
    some (.float (1 / 0))
  else if isOneOf ["-.inf", "-.Inf", "-.INF"] cs then some (.float (-(1 / 0)))
  else none

/-- Whether characters are digits with a point or not, an exponent or not,
and a sign or not. -/
def looksDecimal (cs : List Char) : Bool :=
  let (_, body) := Integer.signed cs
  match Decimal.mantissaOf 10 Integer.isDecimal body with
  | none => false
  | some (_, _, []) => true
  | some (_, _, rest) => (Decimal.exponentOf (fun c => c == 'e' || c == 'E') rest).isSome

/-- A number with a mark of its base in front of its sign. -/
def oddlyMarked : List Char → Option Int
  | '0' :: 'b' :: rest => (Integer.readIn 2 rest).toOption
  | '0' :: 'o' :: rest => (Integer.readIn 8 rest).toOption
  | _ => none

/-- A number that starts with a digit or a sign. Underscores in it do not
count. -/
def numberMeaning (cs : List Char) : Option Meaning :=
  let plain := cs.filter (· != '_')
  match Integer.read plain, Integer.readUnsigned plain with
  | .ok n, _ => some (.int n)
  | _, .ok n => some (.int n)
  | _, _ =>
    match if looksDecimal plain then Decimal.readFinite plain else none with
    | some x => some (.float x)
    | none => (oddlyMarked plain).map .int

/-- **What a scalar looks like.** -/
def looks (cs : List Char) : Meaning :=
  let other : Meaning := .text (Text.ofChars cs)
  match wordMeaning cs with
  | some m => m
  | none =>
    match cs.head? with
    | none => other
    | some c =>
      if c = '+' ∨ c = '-' ∨ Integer.isDecimal c then (numberMeaning cs).getD other
      else if c = '.' then ((Decimal.readFinite cs).map .float).getD other
      else other

/-! ## Tags -/

/-- What tags of YAML itself start with. -/
def tagStart : Text := Text.ofString "tag:yaml.org,2002:"

/-- A tag with the start of YAML's own shortened. -/
def shortTag (tag : Text) : Text :=
  if tag = tagSign then []
  else if tagStart.isPrefixOf tag then Text.ofString "!!" ++ tag.drop tagStart.length
  else tag

/-- The value of a character in base sixty-four. -/
def sixBits (c : Char) : Option Nat :=
  if 'A' ≤ c ∧ c ≤ 'Z' then some (c.toNat - 'A'.toNat)
  else if 'a' ≤ c ∧ c ≤ 'z' then some (c.toNat - 'a'.toNat + 26)
  else if '0' ≤ c ∧ c ≤ '9' then some (c.toNat - '0'.toNat + 52)
  else if c = '+' then some 62
  else if c = '/' then some 63
  else none

/-- The bytes that groups of four characters spell in base sixty-four; only
the last group may be padded. -/
def bytesOf : List Char → Option Text
  | [] => some []
  | [a, b, '=', '='] =>
    match sixBits a, sixBits b with
    | some a, some b => some [UInt8.ofNat (a * 4 + b / 16)]
    | _, _ => none
  | [a, b, c, '='] =>
    match sixBits a, sixBits b, sixBits c with
    | some a, some b, some c =>
      some [UInt8.ofNat (a * 4 + b / 16), UInt8.ofNat (b % 16 * 16 + c / 4)]
    | _, _, _ => none
  | a :: b :: c :: d :: rest =>
    match sixBits a, sixBits b, sixBits c, sixBits d, bytesOf rest with
    | some a, some b, some c, some d, some more =>
      some (UInt8.ofNat (a * 4 + b / 16) :: UInt8.ofNat (b % 16 * 16 + c / 4)
        :: UInt8.ofNat (c % 4 * 64 + d) :: more)
    | _, _, _, _, _ => none
  | _ => none

/-- Whether characters start like a date. -/
def looksDated (cs : List Char) : Bool :=
  (cs.take 4).length == 4 && (cs.take 4).all Integer.isDecimal && cs[4]? == some '-'

/-- The meaning of a scalar whose tag demands one; nothing if it does not
look like that. -/
def demanded (tag : Text) (cs : List Char) : Option Meaning :=
  let look := looks cs
  if tag = Text.ofString "!!null" then if look matches .null then some look else none
  else if tag = Text.ofString "!!bool" then if look matches .bool _ then some look else none
  else if tag = Text.ofString "!!int" then if look matches .int _ then some look else none
  else if tag = Text.ofString "!!float" then
    match look with
    | .float x => some (.float x)
    | .int n => if n < Integer.negativeCount then some (.float (Float.ofInt n)) else none
    | _ => none
  else if tag = Text.ofString "!!timestamp" then
    if looksDated cs then some (.text (Text.ofChars cs)) else none
  else if tag = Text.ofString "!!binary" then
    (bytesOf (cs.filter fun c => c != '\n' && c != '\r')).map .text
  else some (.text (Text.ofChars cs))

/-- **The meaning of a scalar.** -/
def meaningOf (cs : List Char) (isPlain : Bool) (tag : Text) : Option Meaning :=
  let tag := shortTag tag
  if tag ≠ [] then demanded tag cs
  else if isPlain then some (looks cs)
  else some (.text (Text.ofChars cs))

/-! ## Uses -/

/-- The words that are read as truth values where one is needed. -/
def switchWord (t : Text) : Option Bool :=
  let isIn (words : List String) := words.any fun w => Text.ofString w == t
  if isIn ["y", "Y", "yes", "Yes", "YES", "on", "On", "ON"] then some true
  else if isIn ["n", "N", "no", "No", "NO", "off", "Off", "OFF"] then some false
  else none

/-- The least whole number of 64 bits, which also stands for those that are
out of range. -/
def leastInt : Int := -(Integer.negativeCount : Int)

/-- The whole part of a number where a whole number is needed; nothing if it
is no number or too large. -/
def wholePart (x : Float) : Option Int :=
  match Decimal.Binary64.ofFloat x with
  | .nan => none
  | .infinite negative => if negative then some leastInt else none
  | .finite negative mantissa power _ =>
    let n : Int :=
      if 0 ≤ power then mantissa * Nat.pow 2 power.toNat
      else (mantissa / Nat.pow 2 power.natAbs : Nat)
    let n := if negative then -n else n
    if Integer.negativeCount < n then none
    else if n = Integer.negativeCount ∨ n < leastInt then some leastInt
    else some n

/-- What a scalar with a meaning can be read as. Its text is there for all
but no value. -/
def Meaning.scalar (cs : List Char) : Meaning → Scalar
  | null => { absent := true }
  | bool b => { asText := some (Text.ofChars cs), asBool := some b }
  | int n =>
    { asText := some (Text.ofChars cs)
      asInt := if n < Integer.negativeCount then some n else none }
  | float x => { asText := some (Text.ofChars cs), asInt := wholePart x }
  | text t => { asText := some t, asBool := switchWord t }

end Yaml

end Settings

end TanLang
