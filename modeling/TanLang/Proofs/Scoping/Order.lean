import TanLang.Proofs.Scoping.Context
/-!
# Scoping — names mentioned before they are declared

A local scope is in order if nothing in it mentions a name that it declares
only later on, not even from a function or a block further in, and if no
variable is mentioned in its own first value. `Stmt.orderly` asks this of
every local scope in a statement. The globals are no local scope: at the top
of a program names may be mentioned in any order.
-/

namespace TanLang

variable {α : Type}

namespace Expr

mutual

/-- The names that an expression reads or assigns to. -/
def mentioned : Expr α → List Text
  | literal _ _ => []
  | grouping _ inner => mentioned inner
  | unary _ operand => mentioned operand
  | binary left _ right => mentioned left ++ mentioned right
  | ternary cond _ yes no => mentioned cond ++ mentioned yes ++ mentioned no
  | logical left _ right => mentioned left ++ mentioned right
  | var name _ => [name.lexeme]
  | assign name _ value => name.lexeme :: mentioned value
  | call callee _ args => mentioned callee ++ mentionedAll args
  | get object _ => mentioned object
  | set object _ value => mentioned object ++ mentioned value
  | receiver _ _ => []

/-- The same for expressions in a row. -/
def mentionedAll : List (Expr α) → List Text
  | [] => []
  | e :: rest => mentioned e ++ mentionedAll rest

end

/-- The same for an expression that may be missing. -/
def mentionedOption : Option (Expr α) → List Text
  | none => []
  | some e => e.mentioned

end Expr

namespace Stmt

mutual

/-- The names that a statement reads or assigns to, however deep inside. -/
def mentioned : Stmt α → List Text
  | block _ body => mentionedAll body
  | expr e => e.mentioned
  | print _ value => value.mentioned
  | varDecl _ initial => Expr.mentionedOption initial
  | branch _ cond yes no => cond.mentioned ++ mentioned yes ++ mentionedOption no
  | loop _ cond body => cond.mentioned ++ mentionedOption body
  | forLoop _ initial cond step body =>
    mentionedOption initial ++ Expr.mentionedOption cond ++ Expr.mentionedOption step ++
      mentionedOption body
  | function decl => mentionedRoutine decl
  | ret _ value => Expr.mentionedOption value
  | classDecl _ superclass methods =>
    (superclass.map fun s => s.1.lexeme).toList ++ mentionedMethods methods

/-- The same for statements in a row. -/
def mentionedAll : List (Stmt α) → List Text
  | [] => []
  | s :: rest => mentioned s ++ mentionedAll rest

/-- The same for a statement that may be missing. -/
def mentionedOption : Option (Stmt α) → List Text
  | none => []
  | some s => mentioned s

/-- The same for the body of a function. -/
def mentionedRoutine : Routine (Stmt α) → List Text
  | ⟨_, _, body⟩ => mentionedAll body

/-- The same for the methods of a class. -/
def mentionedMethods : List (Routine (Stmt α)) → List Text
  | [] => []
  | m :: rest => mentionedRoutine m ++ mentionedMethods rest

end

/-- The names that statements declare in the scope they stand in. -/
def declares (ss : List (Stmt α)) : List Text := ss.filterMap fun s => s.declared.map Token.lexeme

/-- The names mentioned before a statement has declared its own. -/
def early : Stmt α → List Text
  | varDecl _ initial => Expr.mentionedOption initial
  | _ => []

/-- **Statements are in order**: none mentions a name that is declared later,
or its own before it is declared. -/
def inOrder : List (Stmt α) → Bool
  | [] => true
  | s :: rest =>
    (declares [s]).all (fun x => !s.early.contains x) &&
      (declares rest).all (fun x => !s.mentioned.contains x) && inOrder rest

mutual

/-- **Every local scope in a statement is in order.** -/
def orderly : Stmt α → Bool
  | block _ body => inOrder body && orderlyAll body
  | branch _ _ yes no => orderly yes && orderlyOption no
  | loop _ _ body => orderlyOption body
  | forLoop _ initial _ _ body =>
    inOrder initial.toList && orderlyOption initial && orderlyOption body
  | function decl => orderlyRoutine decl
  | classDecl _ _ methods => orderlyMethods methods
  | expr _ => true
  | print _ _ => true
  | varDecl _ _ => true
  | ret _ _ => true

/-- The same for statements in a row, of which nothing is asked together. -/
def orderlyAll : List (Stmt α) → Bool
  | [] => true
  | s :: rest => orderly s && orderlyAll rest

/-- The same for a statement that may be missing. -/
def orderlyOption : Option (Stmt α) → Bool
  | none => true
  | some s => orderly s

/-- The same for a function, whose body is a local scope. -/
def orderlyRoutine : Routine (Stmt α) → Bool
  | ⟨_, _, body⟩ => inOrder body && orderlyAll body

/-- The same for the methods of a class. -/
def orderlyMethods : List (Routine (Stmt α)) → Bool
  | [] => true
  | m :: rest => orderlyRoutine m && orderlyMethods rest

end

theorem mem_declares_cons {s : Stmt α} {ss : List (Stmt α)} {x : Text} :
    x ∈ declares (s :: ss) ↔ (∃ name ∈ s.declared, name.lexeme = x) ∨ x ∈ declares ss := by
  unfold declares
  cases hs : s.declared with
  | none => simp [hs]
  | some name => simp [hs, eq_comm]

theorem inOrder_cons {s : Stmt α} {ss : List (Stmt α)} :
    inOrder (s :: ss) = true ↔ (∀ name ∈ s.declared, name.lexeme ∉ s.early) ∧
      (∀ x ∈ declares ss, x ∉ s.mentioned) ∧ inOrder ss = true := by
  have hown : (∀ x ∈ declares [s], x ∉ s.early) ↔
      ∀ name ∈ s.declared, name.lexeme ∉ s.early := by
    constructor
    · intro h name hname
      exact h _ (mem_declares_cons.2 (.inl ⟨name, hname, rfl⟩))
    · intro h x hx
      rcases mem_declares_cons.1 hx with ⟨name, hname, rfl⟩ | hx
      · exact h name hname
      · cases hx
  rw [inOrder]
  simp only [Bool.and_eq_true, List.all_eq_true, Bool.not_eq_true', List.contains_eq_mem,
    decide_eq_false_iff_not]
  rw [hown, and_assoc]

end Stmt

end TanLang
