import TanLang.Token
/-!
# Faults — what can go wrong while a program runs
-/

namespace TanLang

/-- Why a program cannot go on. -/
inductive Fault where
  /-- A name that nothing binds. -/
  | undefinedVariable (name : Text)
  /-- A property that an instance does not have. -/
  | undefinedProperty (name : Text)
  /-- A property read from something that is no instance. -/
  | noProperties
  /-- A field set on something that is no instance. -/
  | noFields
  /-- A negated value that is no number. -/
  | operandNotNumber
  /-- Operands that are not both numbers. -/
  | operandsNotNumbers
  /-- A sum of anything but two numbers or two strings. -/
  | operandsNotAddable
  /-- A quotient by zero. -/
  | divisionByZero
  /-- An operator that has no meaning where it stands. -/
  | unknownOperator (lexeme : Text)
  /-- A call of something that cannot be called. -/
  | notCallable
  /-- A call with too many or too few arguments. -/
  | wrongArity (expected given : Nat)
  /-- A superclass that is no class. -/
  | superclassNotClass
  /-- A call beyond the limit on nested calls. -/
  | stackOverflow
  /-- A native that failed, with its message. -/
  | native (message : Text)
  deriving DecidableEq, Inhabited

/-- The wording of a fault. -/
def Fault.message : Fault → Text
  | undefinedVariable name =>
    Text.ofString "Undefined variable '" ++ name ++ Text.ofString "'."
  | undefinedProperty name =>
    Text.ofString "Undefined property '" ++ name ++ Text.ofString "'."
  | noProperties => Text.ofString "Only instances have properties."
  | noFields => Text.ofString "Only instances have fields."
  | operandNotNumber => Text.ofString "Operand must be a number."
  | operandsNotNumbers => Text.ofString "Operands must be numbers."
  | operandsNotAddable => Text.ofString "Operands must be two numbers or two strings."
  | divisionByZero => Text.ofString "Division by zero."
  | unknownOperator lexeme => Text.ofString "Unknown operator '" ++ lexeme ++ Text.ofString "'."
  | notCallable => Text.ofString "Can only call functions and classes."
  | wrongArity expected given =>
    Text.ofString "Expected " ++ Text.ofNat expected ++ Text.ofString " arguments but got "
      ++ Text.ofNat given ++ Text.ofString "."
  | superclassNotClass => Text.ofString "Superclass must be a class."
  | stackOverflow => Text.ofString "Stack overflow."
  | native message => message

/-- **A fault and the token it is reported at.** -/
structure RuntimeError where
  /-- What went wrong. -/
  fault : Fault
  /-- Where. -/
  token : Token
  deriving DecidableEq, Inhabited

/-- The report of a runtime error. -/
def RuntimeError.report (e : RuntimeError) : Report := e.token.report e.fault.message

end TanLang
