import TanLang.Fault
import TanLang.Value
/-!
# Values — the operators

What the operators make of values that are already computed. Equality
takes any two values; the sum takes two numbers or two strings; the other
operators take numbers only.
-/

namespace TanLang

namespace Value

/-- A prefix operator. -/
def prefixed (op : Token) (v : Value) : Except Fault Value :=
  match op.kind with
  | .bang => .ok (.bool !v.truthy)
  | .minus =>
    match v with
    | .number x => .ok (.number (-x))
    | _ => .error .operandNotNumber
  | _ => .error (.unknownOperator op.lexeme)

/-- The sum of two numbers, or one string after another. -/
def sum : Value → Value → Except Fault Value
  | .number x, .number y => .ok (.number (x + y))
  | .string s, .string t => .ok (.string (s ++ t))
  | _, _ => .error .operandsNotAddable

/-- An operator on two numbers. **A quotient by either zero is a fault.** -/
def numeric (op : Token) (x y : Float) : Except Fault Value :=
  match op.kind with
  | .minus => .ok (.number (x - y))
  | .star => .ok (.number (x * y))
  | .slash => if y == 0 then .error .divisionByZero else .ok (.number (x / y))
  | .greater => .ok (.bool (x > y))
  | .greaterEqual => .ok (.bool (x ≥ y))
  | .less => .ok (.bool (x < y))
  | .lessEqual => .ok (.bool (x ≤ y))
  | _ => .error (.unknownOperator op.lexeme)

/-- An operator between two values. -/
def combine (op : Token) (left right : Value) : Except Fault Value :=
  match op.kind with
  | .equal => .ok (.bool (left.equals right))
  | .notEqual => .ok (.bool !(left.equals right))
  | .plus => sum left right
  | _ =>
    match left, right with
    | .number x, .number y => numeric op x y
    | _, _ => .error .operandsNotNumbers

/-- Whether the left side already is the value of `and` or `or`. -/
def decides (op : Token) (left : Value) : Bool :=
  if op.kind = .orWord then left.truthy else !left.truthy

end Value

end TanLang
