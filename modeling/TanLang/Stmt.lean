import TanLang.Expr
/-!
# Statements

The tree of a statement. A `for` loop is a statement of its own in what
the parser reads, and `Stmt.desugar` writes it with a `while` loop and
blocks; a program is always run, resolved and printed in that form, so a
`for` loop gives its body a scope exactly where the written-out form does.
-/

namespace TanLang

/-- The parts of a function or method whose body is made of `σ`s. -/
structure Routine (σ : Type) where
  /-- The name it is declared under. -/
  name : Token
  /-- The parameters, in order. -/
  params : List Token
  /-- The statements of its body. -/
  body : List σ
  deriving Inhabited

/-- A statement whose uses of names are marked with an `α`. -/
inductive Stmt (α : Type) where
  /-- Statements in a scope of their own. -/
  | block (brace : Token) (body : List (Stmt α))
  /-- An expression evaluated for its effect. -/
  | expr (e : Expr α)
  /-- A value printed on a line. -/
  | print (keyword : Token) (value : Expr α)
  /-- A variable, with its first value if one is given. -/
  | varDecl (name : Token) (initial : Option (Expr α))
  /-- A choice between two statements; the second may be missing. -/
  | branch (keyword : Token) (cond : Expr α) (yes : Stmt α) (no : Option (Stmt α))
  /-- A statement repeated while a condition holds; it is missing where a
  `for` loop has no body. -/
  | loop (keyword : Token) (cond : Expr α) (body : Option (Stmt α))
  /-- A `for` loop; each of its four parts may be missing. -/
  | forLoop (keyword : Token) (initial : Option (Stmt α)) (cond step : Option (Expr α))
      (body : Option (Stmt α))
  /-- A named function. -/
  | function (decl : Routine (Stmt α))
  /-- The end of a function, with its value if one is given. -/
  | ret (keyword : Token) (value : Option (Expr α))
  /-- A class, with its superclass if it has one, and its methods. -/
  | classDecl (name : Token) (superclass : Option (Token × α)) (methods : List (Routine (Stmt α)))
  deriving Inhabited

namespace Stmt

variable {α : Type}

/-- The token a node is reported at. -/
def token : Stmt α → Token
  | block brace _ => brace
  | expr e => e.token
  | print keyword _ => keyword
  | varDecl name _ => name
  | branch keyword _ _ _ => keyword
  | loop keyword _ _ => keyword
  | forLoop keyword _ _ _ _ => keyword
  | function decl => decl.name
  | ret keyword _ => keyword
  | classDecl name _ _ => name

/-- The line a node is reported on. -/
def line (s : Stmt α) : Int := s.token.line

/-! ## Writing out `for` loops -/

/-- What a `for` loop repeats: the body and then the step, in a block of
their own only if there are both. -/
def repeated (keyword : Token) (step : Option (Expr α)) (body : Option (Stmt α)) :
    Option (Stmt α) :=
  match step, body with
  | none, body => body
  | some step, none => some (.expr step)
  | some step, some body => some (.block keyword [body, .expr step])

/-- **A `for` loop written out**: a `while` loop, whose condition holds
always if it is missing, in a block that starts with the loop's
declaration, if it has one. -/
def writeOut (keyword : Token) (initial : Option (Stmt α)) (cond step : Option (Expr α))
    (body : Option (Stmt α)) : Stmt α :=
  let always := Expr.literal keyword (.bool true)
  let loop := Stmt.loop keyword (cond.getD always) (repeated keyword step body)
  match initial with
  | none => loop
  | some initial => .block keyword [initial, loop]

mutual

/-- The statement with every `for` loop in it written out. -/
def desugar : Stmt α → Stmt α
  | block brace body => .block brace (desugarAll body)
  | branch keyword cond yes no => .branch keyword cond (desugar yes) (desugarOption no)
  | loop keyword cond body => .loop keyword cond (desugarOption body)
  | forLoop keyword initial cond step body =>
    writeOut keyword (desugarOption initial) cond step (desugarOption body)
  | function decl => .function (desugarRoutine decl)
  | classDecl name superclass methods => .classDecl name superclass (desugarMethods methods)
  | expr e => .expr e
  | print keyword value => .print keyword value
  | varDecl name initial => .varDecl name initial
  | ret keyword value => .ret keyword value

/-- The same for statements in a row. -/
def desugarAll : List (Stmt α) → List (Stmt α)
  | [] => []
  | s :: rest => desugar s :: desugarAll rest

/-- The same for a statement that may be missing. -/
def desugarOption : Option (Stmt α) → Option (Stmt α)
  | none => none
  | some s => some (desugar s)

/-- The same for the body of a function. -/
def desugarRoutine : Routine (Stmt α) → Routine (Stmt α)
  | ⟨name, params, body⟩ => ⟨name, params, desugarAll body⟩

/-- The same for the methods of a class. -/
def desugarMethods : List (Routine (Stmt α)) → List (Routine (Stmt α))
  | [] => []
  | m :: rest => desugarRoutine m :: desugarMethods rest

end

end Stmt

end TanLang
