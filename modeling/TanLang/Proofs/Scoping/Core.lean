import TanLang.Proofs.Grammar
import TanLang.Proofs.Scoping.Context
/-!
# Scoping — the trees that are resolved

`Stmt.Core` says what resolution can rely on in a tree: `for` loops are
written out, what is repeated or chosen is never a declaration, nothing is
declared or assigned to under the name `this`, and every `this` is spelled
so. A tree that was derived from tokens is of this kind once its loops are
written out, because words are told apart before: a token that is an
identifier is not spelled `this`, and the keyword is.
-/

namespace TanLang

variable {α : Type}

namespace Expr

mutual

/-- Every `this` in an expression is spelled so, and nothing is assigned to
under that name. -/
def Spelled : Expr α → Prop
  | literal _ _ => True
  | grouping _ inner => Spelled inner
  | unary _ operand => Spelled operand
  | binary left _ right => Spelled left ∧ Spelled right
  | ternary cond _ yes no => Spelled cond ∧ Spelled yes ∧ Spelled no
  | logical left _ right => Spelled left ∧ Spelled right
  | var _ _ => True
  | assign name _ value => name.lexeme ≠ thisName ∧ Spelled value
  | call callee _ args => Spelled callee ∧ SpelledAll args
  | get object _ => Spelled object
  | set object _ value => Spelled object ∧ Spelled value
  | receiver keyword _ => keyword.lexeme = thisName

/-- The same for expressions in a row. -/
def SpelledAll : List (Expr α) → Prop
  | [] => True
  | e :: rest => Spelled e ∧ SpelledAll rest

end

/-- The same for an expression that may be missing. -/
def SpelledOption : Option (Expr α) → Prop
  | none => True
  | some e => e.Spelled

end Expr

namespace Stmt

mutual

/-- **What resolution can rely on in a statement.** -/
def Core : Stmt α → Prop
  | block _ body => CoreAll body
  | expr e => e.Spelled
  | print _ value => value.Spelled
  | varDecl name initial => name.lexeme ≠ thisName ∧ Expr.SpelledOption initial
  | branch _ cond yes no => cond.Spelled ∧ (yes.declared = none ∧ Core yes) ∧ CoreOption no
  | loop _ cond body => cond.Spelled ∧ CoreOption body
  | forLoop _ _ _ _ _ => False
  | function decl => decl.name.lexeme ≠ thisName ∧ CoreRoutine decl
  | ret _ value => Expr.SpelledOption value
  | classDecl name _ methods => name.lexeme ≠ thisName ∧ CoreMethods methods

/-- The same for statements in a row. -/
def CoreAll : List (Stmt α) → Prop
  | [] => True
  | s :: rest => Core s ∧ CoreAll rest

/-- The same for a statement that may be missing and declares nothing. -/
def CoreOption : Option (Stmt α) → Prop
  | none => True
  | some s => s.declared = none ∧ Core s

/-- The same for a function. -/
def CoreRoutine : Routine (Stmt α) → Prop
  | ⟨_, params, body⟩ => (∀ p ∈ params, p.lexeme ≠ thisName) ∧ CoreAll body

/-- The same for the methods of a class. -/
def CoreMethods : List (Routine (Stmt α)) → Prop
  | [] => True
  | m :: rest => CoreRoutine m ∧ CoreMethods rest

end

theorem name_desugarRoutine (decl : Routine (Stmt α)) : (desugarRoutine decl).name = decl.name := by
  cases decl
  rw [desugarRoutine]

theorem coreRoutine_desugarRoutine {decl : Routine (Stmt α)} :
    CoreRoutine (desugarRoutine decl) ↔
      (∀ p ∈ decl.params, p.lexeme ≠ thisName) ∧ CoreAll (desugarAll decl.body) := by
  cases decl
  rw [desugarRoutine, CoreRoutine]

/-- What a `for` loop repeats can be relied on as its parts can. -/
theorem coreOption_repeated {keyword : Token} {step : Option (Expr α)} {body : Option (Stmt α)}
    (hstep : Expr.SpelledOption step) (hbody : CoreOption body) :
    CoreOption (repeated keyword step body) := by
  cases step with
  | none => exact hbody
  | some step =>
    cases body with
    | none => exact ⟨rfl, hstep⟩
    | some body => exact ⟨rfl, hbody.2, hstep, trivial⟩

/-- **A `for` loop written out can be relied on as its parts can**, and
declares nothing where it stands. -/
theorem core_writeOut {keyword : Token} {initial : Option (Stmt α)} {cond step : Option (Expr α)}
    {body : Option (Stmt α)} (hinitial : ∀ s ∈ initial, s.Core)
    (hcond : Expr.SpelledOption cond) (hstep : Expr.SpelledOption step)
    (hbody : CoreOption body) :
    (writeOut keyword initial cond step body).declared = none ∧
      (writeOut keyword initial cond step body).Core := by
  have hcond' : (cond.getD (.literal keyword (.bool true))).Spelled := by
    cases cond with
    | none => trivial
    | some cond => exact hcond
  have hloop : Core (.loop keyword (cond.getD (.literal keyword (.bool true)))
      (repeated keyword step body)) := ⟨hcond', coreOption_repeated hstep hbody⟩
  cases initial with
  | none => exact ⟨rfl, hloop⟩
  | some initial => exact ⟨rfl, hinitial initial rfl, hloop, trivial⟩

end Stmt

/-! ## Derived trees -/

namespace Grammar

/-- **Words are told apart**: identifiers are not spelled `this`, and the
keyword is. -/
def Worded (w : List Token) : Prop :=
  ∀ t ∈ w, (t.kind = .identifier → t.lexeme ≠ thisName) ∧
    (t.kind = .thisWord → t.lexeme = thisName)

@[simp]
theorem worded_append {w v : List Token} : Worded (w ++ v) ↔ Worded w ∧ Worded v := by
  simp only [Worded, List.mem_append]
  constructor
  · exact fun h => ⟨fun t ht => h t (.inl ht), fun t ht => h t (.inr ht)⟩
  · exact fun h t ht => ht.elim (h.1 t) (h.2 t)

@[simp]
theorem worded_cons {t : Token} {w : List Token} :
    Worded (t :: w) ↔ ((t.kind = .identifier → t.lexeme ≠ thisName) ∧
      (t.kind = .thisWord → t.lexeme = thisName)) ∧ Worded w := by
  simp only [Worded, List.forall_mem_cons]

mutual

theorem Expression.spelled {level : Level} {w : List Token} {e : Expr Unit} :
    Expression level w e → Worded w → e.Spelled
  | .assign hname _ hvalue, hw => by
    simp only [worded_cons] at hw
    exact ⟨hw.1.1 hname, hvalue.spelled hw.2.2⟩
  | .assignField hobject _ _ _ hvalue, hw => by
    simp only [worded_append, worded_cons] at hw
    exact ⟨hobject.spelled hw.1, hvalue.spelled hw.2.2.2.2⟩
  | .assignNone h, hw => h.spelled hw
  | .choice hcond _ hyes _ hno, hw => by
    simp only [worded_append, worded_cons] at hw
    exact ⟨hcond.spelled hw.1, hyes.spelled hw.2.2.1, hno.spelled hw.2.2.2.2⟩
  | .choiceNone h, hw => h.spelled hw
  | .chain (t := t) hleft _ hright, hw => by
    simp only [worded_append, worded_cons] at hw
    have hboth := And.intro (hleft.spelled hw.1) (hright.spelled hw.2.2)
    cases t <;> exact hboth
  | .chainNone h, hw => h.spelled hw
  | .sign _ h, hw => h.spelled (worded_cons.1 hw).2
  | .signNone h, hw => h.spelled hw
  | .invoke hcallee _ _, hw => ⟨hcallee.spelled (worded_append.1 hw).1, trivial⟩
  | .invokeWith hcallee _ hargs _ _, hw => by
    simp only [worded_append, worded_cons] at hw
    exact ⟨hcallee.spelled hw.1, hargs.spelled hw.2.2.1⟩
  | .property hobject _ _, hw => hobject.spelled (worded_append.1 hw).1
  | .callNone h, hw => h.spelled hw
  | .constant _, _ => trivial
  | .receiver h, hw => (worded_cons.1 hw).1.2 h
  | .name _, _ => trivial
  | .grouping _ h _, hw => h.spelled (worded_append.1 (worded_cons.1 hw).2).1

theorem Arguments.spelled {w : List Token} {es : List (Expr Unit)} :
    Arguments w es → Worded w → Expr.SpelledAll es
  | .one h, hw => ⟨h.spelled hw, trivial⟩
  | .more h _ hes, hw => by
    simp only [worded_append, worded_cons] at hw
    exact ⟨h.spelled hw.1, hes.spelled hw.2.2⟩

end

theorem Optional.spelled {w : List Token} {e : Option (Expr Unit)} (h : Optional w e)
    (hw : Worded w) : Expr.SpelledOption e := by
  cases h with
  | none => trivial
  | some h => exact h.spelled hw

theorem Variable.core {w : List Token} {s : Stmt Unit} (h : Variable w s) (hw : Worded w) :
    s.desugar.Core := by
  cases h with
  | plain _ hname _ =>
    simp only [worded_cons] at hw
    exact ⟨hw.2.1.1 hname, trivial⟩
  | initial _ hname _ h _ =>
    simp only [worded_cons, worded_append] at hw
    exact ⟨hw.2.1.1 hname, h.spelled hw.2.2.2.1⟩

theorem Effect.core {w : List Token} {s : Stmt Unit} (h : Effect w s) (hw : Worded w) :
    s.desugar.declared = none ∧ s.desugar.Core := by
  cases h with
  | intro h _ => exact ⟨rfl, h.spelled (worded_append.1 hw).1⟩

theorem Names.worded {w names : List Token} (h : Names w names) (hw : Worded w) :
    ∀ p ∈ names, p.lexeme ≠ thisName := by
  induction h with
  | one hname =>
    intro p hp
    obtain rfl := List.mem_singleton.1 hp
    exact (worded_cons.1 hw).1.1 hname
  | more hname _ _ ih =>
    simp only [worded_cons] at hw
    intro p hp
    rcases List.mem_cons.1 hp with rfl | hp
    · exact hw.1.1 hname
    · exact ih hw.2.2 p hp

theorem Parameters.worded {w params : List Token} (h : Parameters w params) (hw : Worded w) :
    ∀ p ∈ params, p.lexeme ≠ thisName := by
  cases h with
  | none => exact fun p hp => absurd hp List.not_mem_nil
  | some h _ => exact h.worded hw

/-- The clauses of a `for` loop can be relied on. -/
theorem ForClauses.core {w : List Token} {initial : Option (Stmt Unit)}
    {cond step : Option (Expr Unit)} (h : ForClauses w initial cond step) (hw : Worded w) :
    (∀ s ∈ Stmt.desugarOption initial, s.Core) ∧ Expr.SpelledOption cond ∧
      Expr.SpelledOption step := by
  cases h with
  | intro _ hinitial hcond _ hstep _ =>
    simp only [worded_append, worded_cons] at hw
    refine ⟨?_, hcond.spelled hw.2.2.1, hstep.spelled hw.2.2.2.2.1⟩
    cases hinitial with
    | none => nofun
    | declared h =>
      rintro s ⟨⟩
      exact h.core hw.2.1
    | effect h =>
      rintro s ⟨⟩
      exact (h.core hw.2.1).2

mutual

/-- **A derived statement can be relied on** once its loops are written out,
and declares nothing where it stands. -/
theorem Statement.core {w : List Token} {s : Stmt Unit} :
    Statement w s → Worded w → s.desugar.declared = none ∧ s.desugar.Core
  | .effect h, hw => h.core hw
  | .print _ h _, hw => by
    simp only [worded_cons, worded_append] at hw
    exact ⟨rfl, h.spelled hw.2.1⟩
  | .ret _ h _, hw => by
    simp only [worded_cons, worded_append] at hw
    exact ⟨rfl, h.spelled hw.2.1⟩
  | .block _ h, hw => ⟨rfl, h.core (worded_cons.1 hw).2⟩
  | .branch _ _ hcond _ hyes, hw => by
    simp only [worded_cons, worded_append] at hw
    exact ⟨rfl, hcond.spelled hw.2.2.1, hyes.core hw.2.2.2.2, trivial⟩
  | .branchElse _ _ hcond _ hyes _ hno, hw => by
    simp only [worded_cons, worded_append] at hw
    exact ⟨rfl, hcond.spelled hw.2.2.1, hyes.core hw.2.2.2.2.1, hno.core hw.2.2.2.2.2.2⟩
  | .loop _ _ hcond _ hbody, hw => by
    simp only [worded_cons, worded_append] at hw
    exact ⟨rfl, hcond.spelled hw.2.2.1, hbody.core hw.2.2.2.2⟩
  | .forLoop _ hclauses hbody, hw => by
    simp only [worded_cons, worded_append] at hw
    obtain ⟨hinitial, hcond, hstep⟩ := hclauses.core hw.2.1
    exact Stmt.core_writeOut hinitial hcond hstep (hbody.core hw.2.2)
  | .forEmpty _ hclauses _, hw => by
    simp only [worded_cons, worded_append] at hw
    obtain ⟨hinitial, hcond, hstep⟩ := hclauses.core hw.2.1
    exact Stmt.core_writeOut hinitial hcond hstep trivial

/-- The same for a declaration, except for what it declares. -/
theorem Declaration.core {w : List Token} {s : Stmt Unit} :
    Declaration w s → Worded w → s.desugar.Core
  | .statement h, hw => (h.core hw).2
  | .varDecl h, hw => h.core hw
  | .function _ h, hw => by
    obtain ⟨hname, hdecl⟩ := h.core (worded_cons.1 hw).2
    refine ⟨?_, hdecl⟩
    rwa [Stmt.name_desugarRoutine]
  | .classDecl _ hname _ _ hmethods _, hw => by
    simp only [worded_cons, worded_append] at hw
    exact ⟨hw.2.1.1 hname, hmethods.core hw.2.2.2.2.1⟩

/-- The same for declarations in a row. -/
theorem Declarations.core {w : List Token} {ss : List (Stmt Unit)} :
    Declarations w ss → Worded w → Stmt.CoreAll (Stmt.desugarAll ss)
  | .nil, _ => trivial
  | .cons h hrest, hw => ⟨h.core (worded_append.1 hw).1, hrest.core (worded_append.1 hw).2⟩

/-- The same for a block after its opening brace. -/
theorem Body.core {w : List Token} {ss : List (Stmt Unit)} :
    Body w ss → Worded w → Stmt.CoreAll (Stmt.desugarAll ss)
  | .intro h _, hw => h.core (worded_append.1 hw).1

/-- The same for a function from its name on. -/
theorem Method.core {w : List Token} {decl : Routine (Stmt Unit)} :
    Method w decl → Worded w → decl.name.lexeme ≠ thisName ∧
      Stmt.CoreRoutine (Stmt.desugarRoutine decl)
  | .intro hname _ hparams _ _ hbody, hw => by
    simp only [worded_cons, worded_append] at hw
    refine ⟨hw.1.1 hname, Stmt.coreRoutine_desugarRoutine.2 ?_⟩
    exact ⟨hparams.worded hw.2.2.1, hbody.core hw.2.2.2.2.2⟩

/-- The same for methods in a row. -/
theorem Methods.core {w : List Token} {ms : List (Routine (Stmt Unit))} :
    Methods w ms → Worded w → Stmt.CoreMethods (Stmt.desugarMethods ms)
  | .nil, _ => trivial
  | .cons h hrest, hw =>
    ⟨(h.core (worded_append.1 hw).1).2, hrest.core (worded_append.1 hw).2⟩

end

end Grammar

end TanLang
