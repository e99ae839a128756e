import TanLang.Expr
import TanLang.Parser
/-!
# Parsers — expressions

From loosest to tightest: assignment and the ternary choice, which group to
the right; six tiers of operators, which group to the left; the prefix
operators; calls and properties; and the atoms.

The left side of an assignment is read as an expression first and judged
afterwards. A left side that cannot be assigned to is complained about at
the equals sign, the value is dropped, and parsing goes on.
-/

namespace TanLang

namespace Parser

/-- The tiers of left-associative operators, from loosest to tightest. -/
inductive Tier where
  | disjunction | conjunction | equality | comparison | sum | product
  deriving DecidableEq, Inhabited

namespace Tier

/-- The tier that binds one step tighter; none above the products. -/
def tighter : Tier → Option Tier
  | disjunction => some conjunction
  | conjunction => some equality
  | equality => some comparison
  | comparison => some sum
  | sum => some product
  | product => none

/-- Whether an operator belongs to the tier. -/
def takes : Tier → Token.Kind → Bool
  | disjunction, k => k == .orWord
  | conjunction, k => k == .andWord
  | equality, k => k == .notEqual || k == .equal
  | comparison, k => k == .greater || k == .greaterEqual || k == .less || k == .lessEqual
  | sum, k => k == .minus || k == .plus
  | product, k => k == .slash || k == .star

/-- The node for an operator of the tier. -/
def node : Tier → Expr Unit → Token → Expr Unit → Expr Unit
  | disjunction, left, op, right => .logical left op right
  | conjunction, left, op, right => .logical left op right
  | _, left, op, right => .binary left op right

end Tier

/-- **The assignment of a value to what was read as an expression**, if it
can be assigned to: a variable or a property. -/
def assignTo (target value : Expr Unit) : Option (Expr Unit) :=
  match target with
  | .var name _ => some (.assign name () value)
  | .get object name => some (.set object name value)
  | _ => none

/-- The literal that a token is, if it is one. -/
def literalOf (t : Token) : Option Literal :=
  match t.kind with
  | .falseWord => some (.bool false)
  | .trueWord => some (.bool true)
  | .nilWord => some .nil
  | .number => some t.literal
  | .string => some t.literal
  | _ => none

/-- The atom that a single token is, if it is one. -/
def atomOf (t : Token) : Option (Expr Unit) :=
  match literalOf t with
  | some value => some (.literal t value)
  | none =>
    match t.kind with
    | .thisWord => some (.receiver t ())
    | .identifier => some (.var t ())
    | _ => none

/-- The atom that the next token is, if it is one; otherwise it is left. -/
def atom : Parser (Option (Expr Unit)) := fun tokens =>
  match tokens with
  | [] => .ok none [] []
  | t :: rest =>
    match atomOf t with
    | some e => .ok (some e) rest []
    | none => .ok none tokens []

mutual

/-- An expression: an assignment, or anything that binds tighter. -/
def assignment : Nat → Parser (Expr Unit)
  | 0 => stop
  | n + 1 => do
    let target ← ternary n
    match ← accept .assign with
    | none => return target
    | some equals =>
      let value ← assignment n
      match assignTo target value with
      | some e => return e
      | none =>
        complain (some equals) .invalidTarget
        return target

/-- A choice, which groups to the right. -/
def ternary : Nat → Parser (Expr Unit)
  | 0 => stop
  | n + 1 => do
    let cond ← tier n .disjunction
    match ← accept .question with
    | none => return cond
    | some mark =>
      let yes ← ternary n
      let _ ← expect .colon .ternaryColon
      let no ← ternary n
      return .ternary cond mark yes no

/-- The operators of a tier, which group to the left. -/
def tier : Nat → Tier → Parser (Expr Unit)
  | 0, _ => stop
  | n + 1, t => do
    let left ← operand n t
    tierRest n t left

/-- More operators of the tier after a left side. -/
def tierRest : Nat → Tier → Expr Unit → Parser (Expr Unit)
  | 0, _, _ => stop
  | n + 1, t, left => do
    match ← acceptWhere t.takes with
    | none => return left
    | some op =>
      let right ← operand n t
      tierRest n t (t.node left op right)

/-- An operand of a tier. -/
def operand : Nat → Tier → Parser (Expr Unit)
  | 0, _ => stop
  | n + 1, t =>
    match t.tighter with
    | some t => tier n t
    | none => unary n

/-- A prefix operator, or anything that binds tighter. There is no prefix
plus, and one is refused by name. -/
def unary : Nat → Parser (Expr Unit)
  | 0 => stop
  | n + 1 => do
    match ← acceptWhere fun k => k == .bang || k == .minus with
    | some op =>
      let right ← unary n
      return .unary op right
    | none =>
      if (← nextKind) = some .plus then giveUp .unaryPlus else call n

/-- An atom with the calls and properties after it. -/
def call : Nat → Parser (Expr Unit)
  | 0 => stop
  | n + 1 => do
    let e ← primary n
    callRest n e

/-- More calls and properties after an expression. -/
def callRest : Nat → Expr Unit → Parser (Expr Unit)
  | 0, _ => stop
  | n + 1, e => do
    match ← accept .leftParen with
    | some _ =>
      let args ← if (← nextKind) = some .rightParen then pure [] else arguments n 0
      let paren ← expect .rightParen .argumentsEnd
      callRest n (.call e paren args)
    | none =>
      match ← accept .period with
      | none => return e
      | some _ =>
        let name ← expect .identifier .propertyName
        callRest n (.get e name)

/-- The arguments of a call after `count` of them. Each one too many is
complained about where it starts, and read all the same. -/
def arguments : Nat → Nat → Parser (List (Expr Unit))
  | 0, _ => stop
  | n + 1, count => do
    if maxArguments ≤ count then complain (← next) .tooManyArguments
    let arg ← assignment n
    match ← accept .comma with
    | none => return [arg]
    | some _ =>
      let more ← arguments n (count + 1)
      return arg :: more

/-- A literal, a name, `this`, or an expression in parentheses. -/
def primary : Nat → Parser (Expr Unit)
  | 0 => stop
  | n + 1 => do
    match ← atom with
    | some e => return e
    | none =>
      match ← accept .leftParen with
      | none => giveUp .expression
      | some paren =>
        let inner ← assignment n
        let _ ← expect .rightParen .closingParen
        return .grouping paren inner

end

end Parser

end TanLang
