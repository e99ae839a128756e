import TanLang.Program
/-!
# Programs — the nodes of the tree

All nodes of a program, each before its parts and the parts from left to
right: what a listing of the tree goes through.
-/

namespace TanLang

/-- A node of a program's tree. -/
inductive Node (α : Type) where
  /-- An expression. -/
  | expr (e : Expr α)
  /-- A statement, or a method, which is listed like a function. -/
  | stmt (s : Stmt α)

variable {α : Type}

namespace Expr

/-- The name of an expression's kind. -/
def kindName : Expr α → String
  | literal .. => "Literal"
  | grouping .. => "Grouping"
  | unary .. => "Unary"
  | binary .. => "Binary"
  | ternary .. => "Ternary"
  | logical .. => "Logical"
  | var .. => "Variable"
  | assign .. => "Assign"
  | call .. => "Call"
  | get .. => "Get"
  | set .. => "Set"
  | receiver .. => "This"

mutual

/-- The nodes of an expression, in front of others. -/
def list (e : Expr α) (rest : List (Node α)) : List (Node α) :=
  .expr e ::
    match e with
    | literal _ _ => rest
    | grouping _ inner => list inner rest
    | unary _ operand => list operand rest
    | binary left _ right => list left (list right rest)
    | ternary cond _ yes no => list cond (list yes (list no rest))
    | logical left _ right => list left (list right rest)
    | var _ _ => rest
    | assign _ _ value => list value rest
    | call callee _ args => list callee (listAll args rest)
    | get object _ => list object rest
    | set object _ value => list object (list value rest)
    | receiver _ _ => rest

/-- The nodes of expressions in a row, in front of others. -/
def listAll (es : List (Expr α)) (rest : List (Node α)) : List (Node α) :=
  match es with
  | [] => rest
  | e :: more => list e (listAll more rest)

end

/-- The nodes of an expression that may be missing, in front of others. -/
def listOption (e : Option (Expr α)) (rest : List (Node α)) : List (Node α) :=
  match e with
  | none => rest
  | some e => list e rest

end Expr

namespace Stmt

/-- The name of a statement's kind. -/
def kindName : Stmt α → String
  | block .. => "Block"
  | expr .. => "ExpressionStmt"
  | print .. => "Print"
  | varDecl .. => "Var"
  | branch .. => "If"
  | loop .. => "While"
  | forLoop .. => "For"
  | function .. => "Function"
  | ret .. => "Return"
  | classDecl .. => "Class"

mutual

/-- The nodes of a statement, in front of others. -/
def list (s : Stmt α) (rest : List (Node α)) : List (Node α) :=
  .stmt s ::
    match s with
    | block _ body => listAll body rest
    | expr e => e.list rest
    | print _ value => value.list rest
    | varDecl _ initial => Expr.listOption initial rest
    | branch _ cond yes no => cond.list (list yes (listOption no rest))
    | loop _ cond body => cond.list (listOption body rest)
    | forLoop _ initial cond step body =>
      listOption initial (Expr.listOption cond (Expr.listOption step (listOption body rest)))
    | function decl => listRoutine decl rest
    | ret _ value => Expr.listOption value rest
    | classDecl _ none methods => listMethods methods rest
    | classDecl _ (some superclass) methods =>
      .expr (.var superclass.1 superclass.2) :: listMethods methods rest

/-- The nodes of statements in a row, in front of others. -/
def listAll (ss : List (Stmt α)) (rest : List (Node α)) : List (Node α) :=
  match ss with
  | [] => rest
  | s :: more => list s (listAll more rest)

/-- The nodes of a statement that may be missing, in front of others. -/
def listOption (s : Option (Stmt α)) (rest : List (Node α)) : List (Node α) :=
  match s with
  | none => rest
  | some s => list s rest

/-- The nodes in a function's body, in front of others. -/
def listRoutine (r : Routine (Stmt α)) (rest : List (Node α)) : List (Node α) :=
  match r with
  | ⟨_, _, body⟩ => listAll body rest

/-- The nodes of a class's methods, in front of others. -/
def listMethods (ms : List (Routine (Stmt α))) (rest : List (Node α)) : List (Node α) :=
  match ms with
  | [] => rest
  | m :: more => .stmt (.function m) :: listRoutine m (listMethods more rest)

end

end Stmt

namespace Node

/-- The name of the node's kind. -/
def kindName : Node α → String
  | expr e => e.kindName
  | stmt s => s.kindName

/-- The line of the node. -/
def line : Node α → Int
  | expr e => e.line
  | stmt s => s.line

/-- The name and the mark of a use of a name, if the node is one. -/
def use? : Node α → Option (Token × α)
  | expr (.var name address) => some (name, address)
  | expr (.assign name address _) => some (name, address)
  | expr (.receiver keyword address) => some (keyword, address)
  | _ => none

end Node

/-- The nodes of a program. -/
def Program.nodes (p : Program α) : List (Node α) := Stmt.listAll p []

/-- The uses of names in a program, with their marks. -/
def Program.uses (p : Program α) : List (Token × α) := p.nodes.filterMap Node.use?

end TanLang
