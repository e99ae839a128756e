import TanLang.Proofs.Grammar
import TanLang.Proofs.Scoping.Resolution
/-!
# Marks — the tokens that errors are reported at

A runtime error is reported at a token of the code that was running: at an
operator, at a name that is used, at a property, or at the end of a call.
The marks of a tree are these tokens, each with what it is there for.
Writing out `for` loops and resolving names keeps the marks as they are, so
**the marks of a program that was parsed are tokens it was parsed from**,
its operators are ones that have a meaning where they stand, and its calls
end at closing parentheses.
-/

namespace TanLang

/-- A token of a tree that an error can be reported at. -/
inductive Mark where
  /-- An operator before its operand. -/
  | sign (op : Token)
  /-- An operator between its operands, both of which are evaluated. -/
  | operator (op : Token)
  /-- A name that is used or given to a class. -/
  | name (t : Token)
  /-- The name of a property. -/
  | property (t : Token)
  /-- The end of a call. -/
  | paren (t : Token)
  deriving DecidableEq

namespace Mark

/-- The token itself. -/
def token : Mark → Token
  | sign op => op
  | operator op => op
  | name t => t
  | property t => t
  | paren t => t

/-- The operators that stand before an operand. -/
def signs : List Token.Kind := [.bang, .minus]

/-- The operators that stand between two operands. -/
def operators : List Token.Kind :=
  [.equal, .notEqual, .plus, .minus, .star, .slash, .greater, .greaterEqual, .less, .lessEqual]

/-- **An operator has a meaning where it stands**, and a call ends at a
closing parenthesis. -/
def Known : Mark → Prop
  | sign op => op.kind ∈ signs
  | operator op => op.kind ∈ operators
  | paren t => t.kind = .rightParen
  | _ => True

/-- The mark is known and stands among some tokens. -/
structure From (w : List Token) (k : Mark) : Prop where
  mem : k.token ∈ w
  known : k.Known

theorem From.mono {w v : List Token} {k : Mark} (h : k.From w) (hsub : w ⊆ v) : k.From v :=
  ⟨hsub h.mem, h.known⟩

end Mark

variable {α : Type}

namespace Expr

mutual

/-- The marks of an expression. -/
def marks : Expr α → List Mark
  | literal _ _ => []
  | grouping _ inner => marks inner
  | unary op operand => .sign op :: marks operand
  | binary left op right => .operator op :: (marks left ++ marks right)
  | ternary cond _ yes no => marks cond ++ (marks yes ++ marks no)
  | logical left _ right => marks left ++ marks right
  | var name _ => [.name name]
  | assign name _ value => .name name :: marks value
  | call callee paren args => .paren paren :: (marks callee ++ marksAll args)
  | get object name => .property name :: marks object
  | set object name value => .property name :: (marks object ++ marks value)
  | receiver keyword _ => [.name keyword]

/-- The same for expressions in a row. -/
def marksAll : List (Expr α) → List Mark
  | [] => []
  | e :: rest => marks e ++ marksAll rest

end

/-- The same for an expression that may be missing. -/
def marksOption : Option (Expr α) → List Mark
  | none => []
  | some e => e.marks

end Expr

namespace Stmt

/-- The marks of the name of a superclass. -/
def marksSuperclass : Option (Token × α) → List Mark
  | none => []
  | some (name, _) => [.name name]

mutual

/-- The marks of a statement. The step of a `for` loop comes after the body,
as it is executed. -/
def marks : Stmt α → List Mark
  | block _ body => marksAll body
  | expr e => e.marks
  | print _ value => value.marks
  | varDecl _ initial => Expr.marksOption initial
  | branch _ cond yes no => cond.marks ++ (marks yes ++ marksOption no)
  | loop _ cond body => cond.marks ++ marksOption body
  | forLoop _ initial cond step body =>
    marksOption initial ++ (Expr.marksOption cond ++ (marksOption body ++ Expr.marksOption step))
  | function decl => marksRoutine decl
  | ret _ value => Expr.marksOption value
  | classDecl name superclass methods =>
    .name name :: (marksSuperclass superclass ++ marksMethods methods)

/-- The same for statements in a row. -/
def marksAll : List (Stmt α) → List Mark
  | [] => []
  | s :: rest => marks s ++ marksAll rest

/-- The same for a statement that may be missing. -/
def marksOption : Option (Stmt α) → List Mark
  | none => []
  | some s => marks s

/-- The same for the body of a function. -/
def marksRoutine : Routine (Stmt α) → List Mark
  | ⟨_, _, body⟩ => marksAll body

/-- The same for the methods of a class. -/
def marksMethods : List (Routine (Stmt α)) → List Mark
  | [] => []
  | m :: rest => marksRoutine m ++ marksMethods rest

end

theorem marksRoutine_eq (decl : Routine (Stmt α)) : marksRoutine decl = marksAll decl.body := by
  cases decl
  rw [marksRoutine]

/-- The marks of a method are among those of its class. -/
theorem marksRoutine_subset {decl : Routine (Stmt α)} {methods : List (Routine (Stmt α))}
    (h : decl ∈ methods) : marksRoutine decl ⊆ marksMethods methods := by
  induction methods with
  | nil => cases h
  | cons m rest ih =>
    intro k hk
    rw [marksMethods, List.mem_append]
    rcases List.mem_cons.1 h with rfl | h
    · exact .inl hk
    · exact .inr (ih h hk)

/-! ## Writing out `for` loops -/

theorem marks_writeOut (keyword : Token) (initial : Option (Stmt α)) (cond step : Option (Expr α))
    (body : Option (Stmt α)) :
    (writeOut keyword initial cond step body).marks =
      (forLoop keyword initial cond step body).marks := by
  have hloop : Stmt.marks (.loop keyword (cond.getD (.literal keyword (.bool true)))
      (repeated keyword step body)) =
        Expr.marksOption cond ++ (marksOption body ++ Expr.marksOption step) := by
    have hcond : (cond.getD (.literal keyword (.bool true))).marks = Expr.marksOption cond := by
      cases cond <;> rfl
    rw [marks, hcond]
    cases step <;> cases body <;>
      simp [repeated, marksOption, marks, marksAll, Expr.marksOption]
  cases initial with
  | none => exact hloop
  | some initial =>
    simp only [writeOut, marks, marksAll, marksOption, List.append_nil] at hloop ⊢
    rw [hloop]

mutual

theorem marks_desugar : ∀ s : Stmt α, s.desugar.marks = s.marks
  | block _ body => by simp only [desugar, marks, marks_desugarAll body]
  | expr _ => rfl
  | print _ _ => rfl
  | varDecl _ _ => rfl
  | branch _ _ yes no => by simp only [desugar, marks, marks_desugar yes, marks_desugarOption no]
  | loop _ _ body => by simp only [desugar, marks, marks_desugarOption body]
  | forLoop _ initial _ _ body => by
    simp only [desugar, marks_writeOut, marks, marks_desugarOption initial,
      marks_desugarOption body]
  | function decl => by simp only [desugar, marks, marks_desugarRoutine decl]
  | ret _ _ => rfl
  | classDecl _ _ methods => by simp only [desugar, marks, marks_desugarMethods methods]

theorem marks_desugarAll : ∀ ss : List (Stmt α), marksAll (desugarAll ss) = marksAll ss
  | [] => rfl
  | s :: rest => by simp only [desugarAll, marksAll, marks_desugar s, marks_desugarAll rest]

theorem marks_desugarOption : ∀ s : Option (Stmt α), marksOption (desugarOption s) = marksOption s
  | none => rfl
  | some s => by simp only [desugarOption, marksOption, marks_desugar s]

theorem marks_desugarRoutine : ∀ decl : Routine (Stmt α),
    marksRoutine (desugarRoutine decl) = marksRoutine decl
  | ⟨_, _, body⟩ => by simp only [desugarRoutine, marksRoutine, marks_desugarAll body]

theorem marks_desugarMethods : ∀ methods : List (Routine (Stmt α)),
    marksMethods (desugarMethods methods) = marksMethods methods
  | [] => rfl
  | m :: rest => by
    simp only [desugarMethods, marksMethods, marks_desugarRoutine m, marks_desugarMethods rest]

end

end Stmt

/-! ## Derived trees -/

namespace Grammar

/-- Every one of the marks is known and stands among some tokens. -/
def MarksFrom (w : List Token) (ks : List Mark) : Prop := ∀ k ∈ ks, k.From w

@[simp]
theorem marksFrom_nil {w : List Token} : MarksFrom w [] := List.forall_mem_nil _

@[simp]
theorem marksFrom_append {w : List Token} {ks ls : List Mark} :
    MarksFrom w (ks ++ ls) ↔ MarksFrom w ks ∧ MarksFrom w ls :=
  List.forall_mem_append

@[simp]
theorem marksFrom_cons {w : List Token} {k : Mark} {ks : List Mark} :
    MarksFrom w (k :: ks) ↔ k.From w ∧ MarksFrom w ks :=
  List.forall_mem_cons

theorem MarksFrom.mono {w v : List Token} {ks : List Mark} (h : MarksFrom w ks)
    (hsub : ∀ t ∈ w, t ∈ v) : MarksFrom v ks :=
  fun k hk => (h k hk).mono hsub

/-- The operators of a tier have a meaning in its trees. -/
theorem marksFrom_node {t : Parser.Tier} {op : Token} {w : List Token} {left right : Expr Unit}
    (hop : op.kind ∈ operators t) (hmem : op ∈ w) (hleft : MarksFrom w left.marks)
    (hright : MarksFrom w right.marks) : MarksFrom w (t.node left op right).marks := by
  have hboth : MarksFrom w (left.marks ++ right.marks) := marksFrom_append.2 ⟨hleft, hright⟩
  have hknown : ∀ kinds, kinds ⊆ Mark.operators → op.kind ∈ kinds →
      MarksFrom w (.operator op :: (left.marks ++ right.marks)) :=
    fun kinds hkinds h => marksFrom_cons.2 ⟨⟨hmem, hkinds h⟩, hboth⟩
  -- the two loosest tiers are evaluated by their first operand, the others by both
  cases t with
  | disjunction => exact hboth
  | conjunction => exact hboth
  | equality => exact hknown _ (by decide) hop
  | comparison => exact hknown _ (by decide) hop
  | sum => exact hknown _ (by decide) hop
  | product => exact hknown _ (by decide) hop

mutual

/-- **The marks of a derived expression are known tokens it is derived
from.** -/
theorem Expression.marksFrom {level : Level} {w : List Token} {e : Expr Unit} :
    Expression level w e → MarksFrom w e.marks
  | .assign _ _ hvalue => by
    rw [Expr.marks, marksFrom_cons]
    exact ⟨⟨by simp [Mark.token], trivial⟩, hvalue.marksFrom.mono (by simp +contextual)⟩
  | .assignField hobject _ _ _ hvalue => by
    rw [Expr.marks, marksFrom_cons, marksFrom_append]
    refine ⟨⟨by simp [Mark.token], trivial⟩, ?_, ?_⟩
    · exact hobject.marksFrom.mono (by simp +contextual)
    · exact hvalue.marksFrom.mono (by simp +contextual)
  | .assignNone h => h.marksFrom
  | .choice hcond _ hyes _ hno => by
    rw [Expr.marks, marksFrom_append, marksFrom_append]
    refine ⟨?_, ?_, ?_⟩
    · exact hcond.marksFrom.mono (by simp +contextual)
    · exact hyes.marksFrom.mono (by simp +contextual)
    · exact hno.marksFrom.mono (by simp +contextual)
  | .choiceNone h => h.marksFrom
  | .chain hleft hop hright =>
    marksFrom_node hop (by simp) (hleft.marksFrom.mono (by simp +contextual))
      (hright.marksFrom.mono (by simp +contextual))
  | .chainNone h => h.marksFrom
  | .sign hop h => by
    rw [Expr.marks, marksFrom_cons]
    refine ⟨⟨by simp [Mark.token], ?_⟩, h.marksFrom.mono (by simp +contextual)⟩
    rcases hop with hop | hop <;> simp [Mark.Known, Mark.signs, hop]
  | .signNone h => h.marksFrom
  | .invoke hcallee _ hclosing => by
    rw [Expr.marks, marksFrom_cons, marksFrom_append]
    refine ⟨⟨by simp [Mark.token], hclosing⟩, ?_, marksFrom_nil⟩
    exact hcallee.marksFrom.mono (by simp +contextual)
  | .invokeWith hcallee _ hargs _ hclosing => by
    rw [Expr.marks, marksFrom_cons, marksFrom_append]
    refine ⟨⟨by simp [Mark.token], hclosing⟩, ?_, ?_⟩
    · exact hcallee.marksFrom.mono (by simp +contextual)
    · exact hargs.marksFrom.mono (by simp +contextual)
  | .property hobject _ _ => by
    rw [Expr.marks, marksFrom_cons]
    exact ⟨⟨by simp [Mark.token], trivial⟩, hobject.marksFrom.mono (by simp +contextual)⟩
  | .callNone h => h.marksFrom
  | .constant _ => marksFrom_nil
  | .receiver _ => marksFrom_cons.2 ⟨⟨List.mem_singleton_self _, trivial⟩, marksFrom_nil⟩
  | .name _ => marksFrom_cons.2 ⟨⟨List.mem_singleton_self _, trivial⟩, marksFrom_nil⟩
  | .grouping _ h _ => by
    rw [Expr.marks]
    exact h.marksFrom.mono (by simp +contextual)

theorem Arguments.marksFrom {w : List Token} {es : List (Expr Unit)} :
    Arguments w es → MarksFrom w (Expr.marksAll es)
  | .one h => marksFrom_append.2 ⟨h.marksFrom, marksFrom_nil⟩
  | .more h _ hes => by
    rw [Expr.marksAll, marksFrom_append]
    exact ⟨h.marksFrom.mono (by simp +contextual), hes.marksFrom.mono (by simp +contextual)⟩

end

theorem Optional.marksFrom {w : List Token} {e : Option (Expr Unit)} (h : Optional w e) :
    MarksFrom w (Expr.marksOption e) := by
  cases h with
  | none => exact marksFrom_nil
  | some h => exact h.marksFrom

theorem Variable.marksFrom {w : List Token} {s : Stmt Unit} (h : Variable w s) :
    MarksFrom w s.marks := by
  cases h with
  | plain _ _ _ => exact marksFrom_nil
  | initial _ _ _ h _ => exact h.marksFrom.mono (by simp +contextual)

theorem Effect.marksFrom {w : List Token} {s : Stmt Unit} (h : Effect w s) :
    MarksFrom w s.marks := by
  cases h with
  | intro h _ => exact h.marksFrom.mono (by simp +contextual)

theorem Superclass.marksFrom {w : List Token} {superclass : Option (Token × Unit)}
    (h : Superclass w superclass) : MarksFrom w (Stmt.marksSuperclass superclass) := by
  cases h with
  | none => exact marksFrom_nil
  | some _ _ => exact marksFrom_cons.2 ⟨⟨by simp [Mark.token], trivial⟩, marksFrom_nil⟩

/-- The marks of a `for` loop are those of its clauses and its body. -/
theorem ForClauses.marksFrom {w b : List Token} {keyword : Token} {initial : Option (Stmt Unit)}
    {cond step : Option (Expr Unit)} {body : Option (Stmt Unit)}
    (h : ForClauses w initial cond step) (hbody : MarksFrom b (Stmt.marksOption body)) :
    MarksFrom (keyword :: (w ++ b)) (Stmt.marks (.forLoop keyword initial cond step body)) := by
  cases h with
  | intro _ hinitial hcond _ hstep _ =>
    refine marksFrom_append.2 ⟨?_, marksFrom_append.2 ⟨?_, marksFrom_append.2 ⟨?_, ?_⟩⟩⟩
    · cases hinitial with
      | none _ => exact marksFrom_nil
      | declared h => exact h.marksFrom.mono (by simp +contextual)
      | effect h => exact h.marksFrom.mono (by simp +contextual)
    · exact hcond.marksFrom.mono (by simp +contextual)
    · exact hbody.mono (by simp +contextual)
    · exact hstep.marksFrom.mono (by simp +contextual)

mutual

/-- **The marks of a derived statement are known tokens it is derived
from.** -/
theorem Statement.marksFrom {w : List Token} {s : Stmt Unit} :
    Statement w s → MarksFrom w s.marks
  | .effect h => h.marksFrom
  | .print _ h _ => h.marksFrom.mono (by simp +contextual)
  | .ret _ h _ => h.marksFrom.mono (by simp +contextual)
  | .block _ h => h.marksFrom.mono (by simp +contextual)
  | .branch _ _ hcond _ hyes => by
    refine marksFrom_append.2 ⟨?_, marksFrom_append.2 ⟨?_, marksFrom_nil⟩⟩
    · exact hcond.marksFrom.mono (by simp +contextual)
    · exact hyes.marksFrom.mono (by simp +contextual)
  | .branchElse _ _ hcond _ hyes _ hno => by
    refine marksFrom_append.2 ⟨?_, marksFrom_append.2 ⟨?_, ?_⟩⟩
    · exact hcond.marksFrom.mono (by simp +contextual)
    · exact hyes.marksFrom.mono (by simp +contextual)
    · exact hno.marksFrom.mono (by simp +contextual)
  | .loop _ _ hcond _ hbody => by
    refine marksFrom_append.2 ⟨?_, ?_⟩
    · exact hcond.marksFrom.mono (by simp +contextual)
    · exact hbody.marksFrom.mono (by simp +contextual)
  | .forLoop _ hclauses hbody => hclauses.marksFrom hbody.marksFrom
  | .forEmpty _ hclauses _ => hclauses.marksFrom marksFrom_nil

theorem Declaration.marksFrom {w : List Token} {s : Stmt Unit} :
    Declaration w s → MarksFrom w s.marks
  | .statement h => h.marksFrom
  | .varDecl h => h.marksFrom
  | .function _ h => h.marksFrom.mono (by simp +contextual)
  | .classDecl _ _ hsuperclass _ hmethods _ => by
    refine marksFrom_cons.2 ⟨⟨by simp [Mark.token], trivial⟩, marksFrom_append.2 ⟨?_, ?_⟩⟩
    · exact hsuperclass.marksFrom.mono (by simp +contextual)
    · exact hmethods.marksFrom.mono (by simp +contextual)

theorem Declarations.marksFrom {w : List Token} {ss : List (Stmt Unit)} :
    Declarations w ss → MarksFrom w (Stmt.marksAll ss)
  | .nil => marksFrom_nil
  | .cons h hrest => marksFrom_append.2
    ⟨h.marksFrom.mono (by simp +contextual), hrest.marksFrom.mono (by simp +contextual)⟩

theorem Body.marksFrom {w : List Token} {ss : List (Stmt Unit)} :
    Body w ss → MarksFrom w (Stmt.marksAll ss)
  | .intro h _ => h.marksFrom.mono (by simp +contextual)

theorem Method.marksFrom {w : List Token} {decl : Routine (Stmt Unit)} :
    Method w decl → MarksFrom w (Stmt.marksRoutine decl)
  | .intro _ _ _ _ _ hbody => by
    rw [Stmt.marksRoutine]
    exact hbody.marksFrom.mono (by simp +contextual)

theorem Methods.marksFrom {w : List Token} {ms : List (Routine (Stmt Unit))} :
    Methods w ms → MarksFrom w (Stmt.marksMethods ms)
  | .nil => marksFrom_nil
  | .cons h hrest => marksFrom_append.2
    ⟨h.marksFrom.mono (by simp +contextual), hrest.marksFrom.mono (by simp +contextual)⟩

end

end Grammar

/-! ## Resolving names -/

namespace Scoping

mutual

theorem marks_resolveExpr (around : Surroundings) : ∀ (e : Expr Unit) (frames : List Frame),
    (resolveExpr around e frames).value.marks = e.marks
  | .literal _ _, _ => rfl
  | .grouping _ inner, frames => marks_resolveExpr around inner frames
  | .unary op operand, frames =>
    congrArg (Mark.sign op :: ·) (marks_resolveExpr around operand frames)
  | .binary left _ right, frames => by
    simp only [resolveExpr, Step.bind_run, Step.pure_run, Expr.marks,
      marks_resolveExpr around left, marks_resolveExpr around right]
  | .ternary cond _ yes no, frames => by
    simp only [resolveExpr, Step.bind_run, Step.pure_run, Expr.marks,
      marks_resolveExpr around cond, marks_resolveExpr around yes, marks_resolveExpr around no]
  | .logical left _ right, frames => by
    simp only [resolveExpr, Step.bind_run, Step.pure_run, Expr.marks,
      marks_resolveExpr around left, marks_resolveExpr around right]
  | .var _ _, _ => rfl
  | .assign _ _ value, frames => by
    simp only [resolveExpr, Step.bind_run, Step.pure_run, Expr.marks,
      marks_resolveExpr around value]
  | .call callee _ args, frames => by
    simp only [resolveExpr, Step.bind_run, Step.pure_run, Expr.marks,
      marks_resolveExpr around callee, marks_resolveExprs around args]
  | .get _ name, frames => by
    simp only [resolveExpr, Step.bind_run, Step.pure_run, Expr.marks, marks_resolveExpr around]
  | .set object _ value, frames => by
    simp only [resolveExpr, Step.bind_run, Step.pure_run, Expr.marks,
      marks_resolveExpr around object, marks_resolveExpr around value]
  | .receiver _ _, _ => by
    simp only [resolveExpr]
    split <;> rfl

theorem marks_resolveExprs (around : Surroundings) :
    ∀ (es : List (Expr Unit)) (frames : List Frame),
      Expr.marksAll (resolveExprs around es frames).value = Expr.marksAll es
  | [], _ => rfl
  | e :: rest, frames => by
    simp only [resolveExprs, Step.bind_run, Step.pure_run, Expr.marksAll,
      marks_resolveExpr around e, marks_resolveExprs around rest]

end

theorem marks_resolveOption (around : Surroundings) (e : Option (Expr Unit))
    (frames : List Frame) :
    Expr.marksOption (resolveOption around e frames).value = Expr.marksOption e := by
  cases e with
  | none => rfl
  | some e => exact marks_resolveExpr around e frames

theorem marks_resolveSuperclass (name : Token) (superclass : Option (Token × Unit))
    (frames : List Frame) :
    Stmt.marksSuperclass (resolveSuperclass name superclass frames).value =
      Stmt.marksSuperclass superclass := by
  cases superclass with
  | none => rfl
  | some named =>
    simp only [resolveSuperclass]
    split <;> rfl

mutual

/-- **Resolution leaves the marks of a statement alone.** -/
theorem marks_resolveStmt : ∀ (s : Stmt Unit) (around : Surroundings) (frames : List Frame),
    (resolveStmt around s frames).value.marks = s.marks
  | .block _ body, around, frames => by
    simp only [resolveStmt, Step.bind_run, Step.pure_run, inScope_run, Stmt.marks,
      marks_resolveStmts body]
  | .expr e, around, frames => marks_resolveExpr around e frames
  | .print _ value, around, frames => marks_resolveExpr around value frames
  | .varDecl _ initial, around, frames => by
    simp only [resolveStmt, Step.bind_run, Step.pure_run, Stmt.marks, marks_resolveOption]
  | .branch _ _ yes no, around, frames => by
    simp only [resolveStmt, Step.bind_run, Step.pure_run, Stmt.marks, marks_resolveExpr,
      marks_resolveStmt yes, marks_resolveOptionStmt no]
  | .loop _ _ body, around, frames => by
    simp only [resolveStmt, Step.bind_run, Step.pure_run, Stmt.marks, marks_resolveExpr,
      marks_resolveOptionStmt body]
  | .forLoop _ initial _ _ body, around, frames => by
    simp only [resolveStmt, inScopeIf]
    split <;>
      simp only [inScope_run, Step.bind_run, Step.pure_run, Stmt.marks, marks_resolveOption,
        marks_resolveOptionStmt initial, marks_resolveOptionStmt body]
  | .function decl, around, frames => by
    simp only [resolveStmt, Step.bind_run, Step.pure_run, Stmt.marks, marks_resolveRoutine decl]
  | .ret _ value, around, frames => by
    simp only [resolveStmt]
    split <;> simp only [Step.bind_run, Step.pure_run, Stmt.marks, marks_resolveOption]
  | .classDecl _ superclass methods, around, frames => by
    simp only [resolveStmt, Step.bind_run, Step.pure_run, inScope_run, Stmt.marks,
      marks_resolveSuperclass, marks_resolveMethods methods]

theorem marks_resolveStmts :
    ∀ (ss : List (Stmt Unit)) (around : Surroundings) (frames : List Frame),
      Stmt.marksAll (resolveStmts around ss frames).value = Stmt.marksAll ss
  | [], _, _ => rfl
  | s :: rest, around, frames => by
    simp only [resolveStmts, Step.bind_run, Step.pure_run, Stmt.marksAll, marks_resolveStmt s,
      marks_resolveStmts rest]

theorem marks_resolveOptionStmt :
    ∀ (s : Option (Stmt Unit)) (around : Surroundings) (frames : List Frame),
      Stmt.marksOption (resolveOptionStmt around s frames).value = Stmt.marksOption s
  | none, _, _ => rfl
  | some s, around, frames => marks_resolveStmt s around frames

theorem marks_resolveRoutine :
    ∀ (decl : Routine (Stmt Unit)) (around : Surroundings) (frames : List Frame),
      Stmt.marksRoutine (resolveRoutine around decl frames).value = Stmt.marksRoutine decl
  | ⟨_, _, body⟩, around, frames => by
    simp only [resolveRoutine, inScope_run, Step.bind_run, Step.pure_run, Stmt.marksRoutine,
      marks_resolveStmts body]

theorem marks_resolveMethods :
    ∀ (ms : List (Routine (Stmt Unit))) (around : Surroundings) (frames : List Frame),
      Stmt.marksMethods (resolveMethods around ms frames).value = Stmt.marksMethods ms
  | [], _, _ => rfl
  | m :: rest, around, frames => by
    simp only [resolveMethods, Step.bind_run, Step.pure_run, Stmt.marksMethods,
      marks_resolveRoutine m, marks_resolveMethods rest]

end

theorem marks_resolve (p : Program Unit) : Stmt.marksAll (resolve p).value = Stmt.marksAll p :=
  marks_resolveStmts p {} []

end Scoping

end TanLang
