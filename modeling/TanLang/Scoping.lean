import TanLang.Program
import TanLang.Table
/-!
# Scoping — where each name is declared

Before a program runs, every use of a name is given its distance: the
number of local scopes between the use and the scope that declares the
name at that point of the text. A name that no local scope declares has no
distance and belongs to the globals. The walk keeps a stack of the local
scopes, innermost first, and reports what breaks the scoping rules without
stopping at it.

Local scopes are the blocks, the functions, whose parameters and body
share one, and one around the methods of each class that holds `this`.
-/

namespace TanLang

/-- The distance from a use of a name to its declaration; none for a global. -/
abbrev Address := Option Nat

namespace Scoping

/-- What resolution objects to. -/
inductive Complaint where
  /-- A name declared twice in one local scope. -/
  | alreadyDeclared
  /-- A variable read while its own first value is computed. -/
  | ownInitial
  /-- A `return` outside all functions. -/
  | returnOutside
  /-- A `this` outside all classes. -/
  | thisOutside
  /-- A class that is its own superclass. -/
  | selfSuperclass
  deriving DecidableEq, Inhabited

/-- The wording of a complaint. -/
def Complaint.message : Complaint → String
  | alreadyDeclared => "Already a variable with this name in this scope."
  | ownInitial => "Can't read local variable in its own initializer."
  | returnOutside => "Can't return from top-level code."
  | thisOutside => "Can't use 'this' outside of a class."
  | selfSuperclass => "A class can't inherit from itself."

/-- A complaint and the token it is about. -/
structure Issue where
  /-- The token complained about. -/
  token : Token
  /-- What is wrong. -/
  complaint : Complaint
  deriving DecidableEq, Inhabited

/-- The report of an issue. -/
def Issue.report (i : Issue) : Report := i.token.report (Text.ofString i.complaint.message)

/-- A local scope in the making: each declared name, and whether it can be
read yet. -/
abbrev Frame := Table Bool

/-- What surrounds a piece of program. -/
structure Surroundings where
  /-- Whether it is in a function. -/
  inFunction : Bool := false
  /-- Whether it is in a class. -/
  inClass : Bool := false
  deriving DecidableEq, Inhabited

/-- What resolving a piece of program gives: the piece with its distances,
the local scopes after it, and what is wrong with it. -/
structure Resolved (α : Type) where
  /-- The piece. -/
  value : α
  /-- The local scopes, innermost first. -/
  frames : List Frame
  /-- The issues, in order. -/
  issues : List Issue

/-- A step of resolution, which reads and extends the local scopes. -/
def Step (α : Type) : Type := List Frame → Resolved α

namespace Step

variable {α β : Type}

/-- The step that does nothing. -/
@[always_inline, inline]
def result (a : α) : Step α := fun frames => ⟨a, frames, []⟩

/-- One step after another. -/
@[always_inline, inline]
def andThen (s : Step α) (f : α → Step β) : Step β := fun frames =>
  let first := s frames
  let second := f first.value first.frames
  ⟨second.value, second.frames, first.issues ++ second.issues⟩

@[always_inline]
instance : Monad Step where
  pure := result
  bind := andThen

end Step

/-- An issue. -/
def complain (token : Token) (c : Complaint) : Step Unit := fun frames =>
  ⟨(), frames, [⟨token, c⟩]⟩

/-- **The distance to the innermost scope that declares a name.** -/
def distance (name : Text) (frames : List Frame) : Address :=
  frames.findIdx? fun frame => frame.contains name

/-- The distance of a name here. -/
def locate (name : Token) : Step Address := fun frames =>
  ⟨distance name.lexeme frames, frames, []⟩

/-- What the innermost local scope says of a name: nothing, or whether it
can be read yet. -/
def innermost (name : Text) (frames : List Frame) : Option Bool :=
  frames.head?.bind fun frame => frame.find? name

/-- A mark put on a name in the innermost local scope, if there is one. -/
def mark (name : Text) (readable : Bool) : List Frame → List Frame
  | [] => []
  | frame :: outer => frame.insert name readable :: outer

/-- A name declared, but not yet to be read. The globals are not tracked. -/
def declare (name : Token) : Step Unit := fun frames =>
  ⟨(), mark name.lexeme false frames,
    if (innermost name.lexeme frames).isSome then [⟨name, .alreadyDeclared⟩] else []⟩

/-- A declared name that can be read from here on. -/
def define (name : Token) : Step Unit := fun frames => ⟨(), mark name.lexeme true frames, []⟩

/-- A read of a name, which must not stand in the name's own first value. -/
def checkReadable (name : Token) : Step Unit := fun frames =>
  ⟨(), frames, if innermost name.lexeme frames = some false then [⟨name, .ownInitial⟩] else []⟩

/-- A step in a local scope of its own, which starts with the names given. -/
def inScope {α : Type} (names : Frame) (s : Step α) : Step α := fun frames =>
  let r := s (names :: frames)
  ⟨r.value, r.frames.tail, r.issues⟩

/-- Parameters declared one after the other. -/
def declareAll : List Token → Step Unit
  | [] => pure ()
  | name :: rest => do
    declare name
    define name
    declareAll rest

mutual

/-- An expression. -/
def resolveExpr (around : Surroundings) : Expr Unit → Step (Expr Address)
  | .literal token value => return .literal token value
  | .grouping paren inner => do
    let inner ← resolveExpr around inner
    return .grouping paren inner
  | .unary op operand => do
    let operand ← resolveExpr around operand
    return .unary op operand
  | .binary left op right => do
    let left ← resolveExpr around left
    let right ← resolveExpr around right
    return .binary left op right
  | .ternary cond mark yes no => do
    let cond ← resolveExpr around cond
    let yes ← resolveExpr around yes
    let no ← resolveExpr around no
    return .ternary cond mark yes no
  | .logical left op right => do
    let left ← resolveExpr around left
    let right ← resolveExpr around right
    return .logical left op right
  | .var name _ => do
    checkReadable name
    let address ← locate name
    return .var name address
  | .assign name _ value => do
    let value ← resolveExpr around value
    let address ← locate name
    return .assign name address value
  | .call callee paren args => do
    let callee ← resolveExpr around callee
    let args ← resolveExprs around args
    return .call callee paren args
  | .get object name => do
    let object ← resolveExpr around object
    return .get object name
  | .set object name value => do
    -- the value comes first, which only the order of the issues shows
    let value ← resolveExpr around value
    let object ← resolveExpr around object
    return .set object name value
  | .receiver keyword _ => do
    if around.inClass then
      let address ← locate keyword
      return .receiver keyword address
    else
      complain keyword .thisOutside
      return .receiver keyword none

/-- Expressions in a row. -/
def resolveExprs (around : Surroundings) : List (Expr Unit) → Step (List (Expr Address))
  | [] => return []
  | e :: rest => do
    let e ← resolveExpr around e
    let rest ← resolveExprs around rest
    return e :: rest

end

/-- An expression that may be missing. -/
def resolveOption (around : Surroundings) : Option (Expr Unit) → Step (Option (Expr Address))
  | none => return none
  | some e => do
    let e ← resolveExpr around e
    return some e

/-- The superclass of a class, which must not be the class itself. -/
def resolveSuperclass (name : Token) : Option (Token × Unit) → Step (Option (Token × Address))
  | none => return none
  | some (superclass, _) => do
    if superclass.lexeme = name.lexeme then complain superclass .selfSuperclass
    checkReadable superclass
    let address ← locate superclass
    return some (superclass, address)

/-- The scope around the methods of a class. -/
def thisFrame : Frame := Table.empty.insert (Text.ofString "this") true

/-- A step in a local scope of its own if one is called for. -/
def inScopeIf {α : Type} (called : Bool) (s : Step α) : Step α :=
  if called then inScope .empty s else s

mutual

/-- A statement. -/
def resolveStmt (around : Surroundings) : Stmt Unit → Step (Stmt Address)
  | .block brace body => do
    let body ← inScope .empty (resolveStmts around body)
    return .block brace body
  | .expr e => do
    let e ← resolveExpr around e
    return .expr e
  | .print keyword value => do
    let value ← resolveExpr around value
    return .print keyword value
  | .varDecl name initial => do
    declare name
    let initial ← resolveOption around initial
    define name
    return .varDecl name initial
  | .branch keyword cond yes no => do
    let cond ← resolveExpr around cond
    let yes ← resolveStmt around yes
    let no ← resolveOptionStmt around no
    return .branch keyword cond yes no
  | .loop keyword cond body => do
    let cond ← resolveExpr around cond
    let body ← resolveOptionStmt around body
    return .loop keyword cond body
  | .forLoop keyword initial cond step body =>
    inScopeIf initial.isSome do
      let initial ← resolveOptionStmt around initial
      let cond ← resolveOption around cond
      let body ← resolveOptionStmt around body
      let step ← resolveOption around step
      return .forLoop keyword initial cond step body
  | .function decl => do
    declare decl.name
    define decl.name
    let decl ← resolveRoutine around decl
    return .function decl
  | .ret keyword value => do
    unless around.inFunction do complain keyword .returnOutside
    let value ← resolveOption around value
    return .ret keyword value
  | .classDecl name superclass methods => do
    declare name
    define name
    let superclass ← resolveSuperclass name superclass
    let methods ← inScope thisFrame (resolveMethods { around with inClass := true } methods)
    return .classDecl name superclass methods

/-- Statements in a row. -/
def resolveStmts (around : Surroundings) : List (Stmt Unit) → Step (List (Stmt Address))
  | [] => return []
  | s :: rest => do
    let s ← resolveStmt around s
    let rest ← resolveStmts around rest
    return s :: rest

/-- A statement that may be missing. -/
def resolveOptionStmt (around : Surroundings) : Option (Stmt Unit) → Step (Option (Stmt Address))
  | none => return none
  | some s => do
    let s ← resolveStmt around s
    return some s

/-- A function: **its parameters and its body share one scope**, the one
that a call puts the arguments into. -/
def resolveRoutine (around : Surroundings) : Routine (Stmt Unit) → Step (Routine (Stmt Address))
  | ⟨name, params, body⟩ =>
    inScope .empty do
      declareAll params
      let body ← resolveStmts { around with inFunction := true } body
      return ⟨name, params, body⟩

/-- The methods of a class. -/
def resolveMethods (around : Surroundings) :
    List (Routine (Stmt Unit)) → Step (List (Routine (Stmt Address)))
  | [] => return []
  | m :: rest => do
    let m ← resolveRoutine around m
    let rest ← resolveMethods around rest
    return m :: rest

end

/-- **A program with its distances**, and what is wrong with its scoping. -/
def resolve (p : Program Unit) : Resolved (Program Address) := resolveStmts {} p []

end Scoping

end TanLang
