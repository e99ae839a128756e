import TanLang.Decimal.Notation
import TanLang.Token
/-!
# Values

The values of a running program. Truth values, numbers and strings are
what they are; functions, classes and instances are places in the heap, so
that two of them are equal only if they are the same one.
-/

namespace TanLang

/-- A scope in the heap. -/
structure ScopeId where
  /-- Its place, in the order of creation. -/
  index : Nat
  deriving DecidableEq, Inhabited

/-- A function in the heap. -/
structure FunctionId where
  /-- Its place, in the order of creation. -/
  index : Nat
  deriving DecidableEq, Inhabited

/-- A built-in function in the heap. -/
structure NativeId where
  /-- Its place, in the order of creation. -/
  index : Nat
  deriving DecidableEq, Inhabited

/-- A class in the heap. -/
structure ClassId where
  /-- Its place, in the order of creation. -/
  index : Nat
  deriving DecidableEq, Inhabited

/-- An instance in the heap. -/
structure InstanceId where
  /-- Its place, in the order of creation. -/
  index : Nat
  deriving DecidableEq, Inhabited

/-- A value of a running program. -/
inductive Value where
  /-- No value. -/
  | nil
  /-- A truth value. -/
  | bool (b : Bool)
  /-- A number. -/
  | number (x : Float)
  /-- A string. -/
  | string (s : Text)
  /-- A function or a method bound to its instance. -/
  | function (id : FunctionId)
  /-- A built-in function. -/
  | native (id : NativeId)
  /-- A class. -/
  | classRef (id : ClassId)
  /-- An instance of a class. -/
  | instanceRef (id : InstanceId)
  deriving DecidableEq, Inhabited

namespace Value

/-- The name of the value's type. -/
def typeName : Value → String
  | nil => "NIL"
  | bool _ => "BOOLEAN"
  | number _ => "NUMBER"
  | string _ => "STRING"
  | function _ => "FUNCTION"
  | native _ => "NATIVE"
  | classRef _ => "CLASS"
  | instanceRef _ => "INSTANCE"

/-- The value a literal stands for. -/
def ofLiteral : Literal → Value
  | .nil => nil
  | .bool b => bool b
  | .number x => number x
  | .string s => string s

/-- **Only `nil` and `false` count as false.** -/
def truthy : Value → Bool
  | nil => false
  | bool b => b
  | _ => true

/-- **Equality as a program sees it**: numbers by their value, so that no
`NaN` equals itself and both zeros are one; strings by their bytes; places
in the heap by being the same; and nothing across types. -/
def equals : Value → Value → Bool
  | nil, nil => true
  | bool a, bool b => a == b
  | number x, number y => x == y
  | string s, string t => s == t
  | function f, function g => f == g
  | native f, native g => f == g
  | classRef c, classRef d => c == d
  | instanceRef i, instanceRef j => i == j
  | _, _ => false

end Value

end TanLang
