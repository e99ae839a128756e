import TanLang.Token
/-!
# Expressions

The tree of an expression. Every node keeps the token it is reported at,
so that a message can point at the source and the printer can show the
operator as it was written.

The type is parametric in what is known about a use of a name: nothing
when the tree comes from the parser, the distance to the declaration after
resolution.
-/

namespace TanLang

/-- An expression whose uses of names are marked with an `α`. -/
inductive Expr (α : Type) where
  /-- A literal, with the token its value came from. -/
  | literal (token : Token) (value : Literal)
  /-- An expression in parentheses, with the opening one. -/
  | grouping (paren : Token) (inner : Expr α)
  /-- A sign or a negation. -/
  | unary (op : Token) (operand : Expr α)
  /-- An operator that evaluates both its sides. -/
  | binary (left : Expr α) (op : Token) (right : Expr α)
  /-- A choice between two expressions, with the question mark. -/
  | ternary (cond : Expr α) (mark : Token) (yes no : Expr α)
  /-- An operator that may not evaluate its right side. -/
  | logical (left : Expr α) (op : Token) (right : Expr α)
  /-- The value of a variable. -/
  | var (name : Token) (address : α)
  /-- An assignment to a variable. -/
  | assign (name : Token) (address : α) (value : Expr α)
  /-- A call, with the closing parenthesis. -/
  | call (callee : Expr α) (paren : Token) (args : List (Expr α))
  /-- A property of an instance. -/
  | get (object : Expr α) (name : Token)
  /-- An assignment to a field of an instance. -/
  | set (object : Expr α) (name : Token) (value : Expr α)
  /-- The instance a method runs on, written `this`. -/
  | receiver (keyword : Token) (address : α)
  deriving Inhabited

namespace Expr

variable {α : Type}

/-- The token a node is reported at. -/
def token : Expr α → Token
  | literal token _ => token
  | grouping paren _ => paren
  | unary op _ => op
  | binary _ op _ => op
  | ternary _ mark _ _ => mark
  | logical _ op _ => op
  | var name _ => name
  | assign name _ _ => name
  | call _ paren _ => paren
  | get _ name => name
  | set _ name _ => name
  | receiver keyword _ => keyword

/-- The line a node is reported on. -/
def line (e : Expr α) : Int := e.token.line

end Expr

end TanLang
