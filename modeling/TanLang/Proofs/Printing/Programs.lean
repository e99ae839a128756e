import TanLang.Program.Outline
import TanLang.Proofs.Printing.Expressions
/-!
# Printing — the expressions of programs

The tokens of a source are what their kinds are, and a tree that is derived
from them keeps each where its kind belongs. So do all expressions in a
program that is read from them, those included that come in where a `for`
loop is written out: **whatever two sources they are from, expressions that
are printed alike are the same** but for the lines of their tokens and the
spelling of their literals, as long as no two of the numbers in them are
printed alike.
-/

namespace TanLang

/-- Every one of the tokens is as a source has it. -/
def ScannedAll (w : List Token) : Prop := ∀ t ∈ w, t.Scanned

@[simp]
theorem scannedAll_append {w v : List Token} :
    ScannedAll (w ++ v) ↔ ScannedAll w ∧ ScannedAll v :=
  List.forall_mem_append

@[simp]
theorem scannedAll_cons {t : Token} {w : List Token} :
    ScannedAll (t :: w) ↔ t.Scanned ∧ ScannedAll w :=
  List.forall_mem_cons

theorem Token.OneOf.single {t : Token} {k : Token.Kind} (ht : t.Scanned) (hkind : t.kind = k) :
    t.OneOf [k] :=
  ⟨ht, List.mem_singleton.2 hkind⟩

/-! ## Statements that keep the tokens of a source -/

variable {α : Type}

/-- The same for an expression that may be missing. -/
def Expr.KeptOption (e : Option (Expr α)) : Prop := ∀ e' ∈ e, e'.Kept

namespace Stmt

/-- The same for the name of a superclass. -/
def KeptSuperclass (superclass : Option (Token × α)) : Prop :=
  ∀ sup ∈ superclass, sup.1.OneOf [.identifier]

mutual

/-- **All expressions right in a statement keep their tokens**, and so does
the name of a superclass. -/
def Kept : Stmt α → Prop
  | block _ body => KeptAll body
  | expr e => e.Kept
  | print _ value => value.Kept
  | varDecl _ initial => Expr.KeptOption initial
  | branch _ cond yes no => cond.Kept ∧ Kept yes ∧ KeptOption no
  | loop _ cond body => cond.Kept ∧ KeptOption body
  | forLoop _ initial cond step body =>
    KeptOption initial ∧ Expr.KeptOption cond ∧ Expr.KeptOption step ∧ KeptOption body
  | function decl => KeptRoutine decl
  | ret _ value => Expr.KeptOption value
  | classDecl _ superclass methods => KeptSuperclass superclass ∧ KeptMethods methods

/-- The same for statements in a row. -/
def KeptAll : List (Stmt α) → Prop
  | [] => True
  | s :: rest => Kept s ∧ KeptAll rest

/-- The same for a statement that may be missing. -/
def KeptOption : Option (Stmt α) → Prop
  | none => True
  | some s => Kept s

/-- The same for the body of a function. -/
def KeptRoutine : Routine (Stmt α) → Prop
  | ⟨_, _, body⟩ => KeptAll body

/-- The same for the methods of a class. -/
def KeptMethods : List (Routine (Stmt α)) → Prop
  | [] => True
  | m :: rest => KeptRoutine m ∧ KeptMethods rest

end

/-! ## Writing out loops -/

theorem kept_writeOut {keyword : Token} {initial : Option (Stmt α)} {cond step : Option (Expr α)}
    {body : Option (Stmt α)} (hinitial : KeptOption initial) (hcond : Expr.KeptOption cond)
    (hstep : Expr.KeptOption step) (hbody : KeptOption body) :
    (writeOut keyword initial cond step body).Kept := by
  have hrepeated : KeptOption (repeated keyword step body) := by
    cases step with
    | none => exact hbody
    | some e =>
      cases body with
      | none => exact hstep e rfl
      | some s => exact ⟨hbody, hstep e rfl, trivial⟩
  have hloop : (Stmt.loop keyword (cond.getD (.literal keyword (.bool true)))
      (repeated keyword step body)).Kept := by
    refine ⟨?_, hrepeated⟩
    cases cond with
    | none => trivial
    | some e => exact hcond e rfl
  cases initial with
  | none => exact hloop
  | some s => exact ⟨hinitial, hloop, trivial⟩

mutual

/-- **Writing out loops brings in no expression** but the literal `true`. -/
theorem Kept.desugar : ∀ {s : Stmt α}, s.Kept → s.desugar.Kept
  | block _ _, h => KeptAll.desugarAll h
  | expr _, h => h
  | print _ _, h => h
  | varDecl _ _, h => h
  | branch _ _ _ _, h => ⟨h.1, h.2.1.desugar, KeptOption.desugarOption h.2.2⟩
  | loop _ _ _, h => ⟨h.1, KeptOption.desugarOption h.2⟩
  | forLoop _ _ _ _ _, h => kept_writeOut (KeptOption.desugarOption h.1) h.2.1 h.2.2.1
    (KeptOption.desugarOption h.2.2.2)
  | function _, h => KeptRoutine.desugarRoutine h
  | ret _ _, h => h
  | classDecl _ _ _, h => ⟨h.1, KeptMethods.desugarMethods h.2⟩

theorem KeptAll.desugarAll : ∀ {ss : List (Stmt α)}, KeptAll ss → KeptAll (desugarAll ss)
  | [], _ => trivial
  | _ :: _, h => ⟨h.1.desugar, KeptAll.desugarAll h.2⟩

theorem KeptOption.desugarOption :
    ∀ {s : Option (Stmt α)}, KeptOption s → KeptOption (desugarOption s)
  | none, _ => trivial
  | some _, h => Kept.desugar h

theorem KeptRoutine.desugarRoutine :
    ∀ {decl : Routine (Stmt α)}, KeptRoutine decl → KeptRoutine (desugarRoutine decl)
  | ⟨_, _, _⟩, h => KeptAll.desugarAll h

theorem KeptMethods.desugarMethods :
    ∀ {ms : List (Routine (Stmt α))}, KeptMethods ms → KeptMethods (desugarMethods ms)
  | [], _ => trivial
  | _ :: _, h => ⟨KeptRoutine.desugarRoutine h.1, KeptMethods.desugarMethods h.2⟩

end

end Stmt

/-! ## Derived trees -/

namespace Grammar

theorem kept_node {t : Parser.Tier} {op : Token} {left right : Expr Unit} (hop : op.Scanned)
    (hkind : op.kind ∈ operators t) (hleft : left.Kept) (hright : right.Kept) :
    (t.node left op right).Kept := by
  have hboth : ∀ kinds, kinds ⊆ Mark.operators → op.kind ∈ kinds →
      (Expr.binary left op right).Kept :=
    fun kinds hkinds h => ⟨⟨hop, hkinds h⟩, hleft, hright⟩
  have hone : ∀ kinds : List Token.Kind, kinds ⊆ [.andWord, .orWord] → op.kind ∈ kinds →
      (Expr.logical left op right).Kept :=
    fun kinds hkinds h => ⟨⟨hop, hkinds h⟩, hleft, hright⟩
  cases t with
  | disjunction => exact hone _ (by decide) hkind
  | conjunction => exact hone _ (by decide) hkind
  | equality => exact hboth _ (by decide) hkind
  | comparison => exact hboth _ (by decide) hkind
  | sum => exact hboth _ (by decide) hkind
  | product => exact hboth _ (by decide) hkind

/-- A token that stands for a value has one that a literal can have. -/
theorem Constant.kept {t : Token} {value : Literal} (h : Constant t value) (ht : t.Scanned) :
    value.Kept := by
  cases h with
  | number hkind =>
    obtain ⟨x, hx, hliteral⟩ := ht.number hkind
    rw [hliteral]
    exact hx
  | string hkind =>
    obtain ⟨s, hliteral⟩ := ht.string hkind
    rw [hliteral]
    trivial
  | _ => trivial

mutual

/-- **A derived expression keeps the tokens it is derived from** where they
belong. -/
theorem Expression.kept {level : Level} {w : List Token} {e : Expr Unit} :
    Expression level w e → ScannedAll w → e.Kept
  | .assign hname _ hvalue, hw => by
    simp only [scannedAll_cons] at hw
    exact ⟨.single hw.1 hname, hvalue.kept hw.2.2⟩
  | .assignField hobject _ hname _ hvalue, hw => by
    simp only [scannedAll_append, scannedAll_cons] at hw
    exact ⟨.single hw.2.2.1 hname, hobject.kept hw.1, hvalue.kept hw.2.2.2.2⟩
  | .assignNone h, hw => h.kept hw
  | .choice hcond hmark hyes _ hno, hw => by
    simp only [scannedAll_append, scannedAll_cons] at hw
    exact ⟨.single hw.2.1 hmark, hcond.kept hw.1, hyes.kept hw.2.2.1, hno.kept hw.2.2.2.2⟩
  | .choiceNone h, hw => h.kept hw
  | .chain hleft hop hright, hw => by
    simp only [scannedAll_append, scannedAll_cons] at hw
    exact kept_node hw.2.1 hop (hleft.kept hw.1) (hright.kept hw.2.2)
  | .chainNone h, hw => h.kept hw
  | .sign hop h, hw => by
    simp only [scannedAll_cons] at hw
    refine ⟨⟨hw.1, ?_⟩, h.kept hw.2⟩
    rcases hop with hop | hop <;> simp [Mark.signs, hop]
  | .signNone h, hw => h.kept hw
  | .invoke hcallee _ hclosing, hw => by
    simp only [scannedAll_append, scannedAll_cons] at hw
    exact ⟨.single hw.2.2.1 hclosing, hcallee.kept hw.1, trivial⟩
  | .invokeWith hcallee _ hargs _ hclosing, hw => by
    simp only [scannedAll_append, scannedAll_cons] at hw
    exact ⟨.single hw.2.2.2.1 hclosing, hcallee.kept hw.1, hargs.kept hw.2.2.1⟩
  | .property hobject _ hname, hw => by
    simp only [scannedAll_append, scannedAll_cons] at hw
    exact ⟨.single hw.2.2.1 hname, hobject.kept hw.1⟩
  | .callNone h, hw => h.kept hw
  | .constant h, hw => h.kept (hw _ (List.mem_singleton_self _))
  | .receiver h, hw => Token.OneOf.single (hw _ (List.mem_singleton_self _)) h
  | .name h, hw => Token.OneOf.single (hw _ (List.mem_singleton_self _)) h
  | .grouping hopening h _, hw => by
    simp only [scannedAll_append, scannedAll_cons] at hw
    exact ⟨.single hw.1 hopening, h.kept hw.2.1⟩

theorem Arguments.kept {w : List Token} {es : List (Expr Unit)} :
    Arguments w es → ScannedAll w → Expr.KeptAll es
  | .one h, hw => ⟨h.kept hw, trivial⟩
  | .more h _ hes, hw => by
    simp only [scannedAll_append, scannedAll_cons] at hw
    exact ⟨h.kept hw.1, hes.kept hw.2.2⟩

end

theorem Optional.kept {w : List Token} {e : Option (Expr Unit)} (h : Optional w e)
    (hw : ScannedAll w) : Expr.KeptOption e := by
  rintro e' ⟨⟩
  cases h with
  | some h => exact h.kept hw

theorem Variable.kept {w : List Token} {s : Stmt Unit} (h : Variable w s) (hw : ScannedAll w) :
    s.Kept := by
  cases h with
  | plain _ _ _ => nofun
  | initial _ _ _ h _ =>
    simp only [scannedAll_append, scannedAll_cons] at hw
    rintro _ ⟨⟩
    exact h.kept hw.2.2.2.1

theorem Effect.kept {w : List Token} {s : Stmt Unit} (h : Effect w s) (hw : ScannedAll w) :
    s.Kept := by
  cases h with
  | intro h _ => exact h.kept (scannedAll_append.1 hw).1

theorem ForInitial.kept {w : List Token} {s : Option (Stmt Unit)} (h : ForInitial w s)
    (hw : ScannedAll w) : Stmt.KeptOption s := by
  cases h with
  | none _ => trivial
  | declared h => exact h.kept hw
  | effect h => exact h.kept hw

/-- A `for` loop has its clauses and its body. -/
theorem ForClauses.kept {w : List Token} {keyword : Token} {initial : Option (Stmt Unit)}
    {cond step : Option (Expr Unit)} {body : Option (Stmt Unit)}
    (h : ForClauses w initial cond step) (hw : ScannedAll w) (hbody : Stmt.KeptOption body) :
    (Stmt.forLoop keyword initial cond step body).Kept := by
  cases h with
  | intro _ hinitial hcond _ hstep _ =>
    simp only [scannedAll_append, scannedAll_cons] at hw
    exact ⟨hinitial.kept hw.2.1, hcond.kept hw.2.2.1, hstep.kept hw.2.2.2.2.1, hbody⟩

theorem Superclass.kept {w : List Token} {superclass : Option (Token × Unit)}
    (h : Superclass w superclass) (hw : ScannedAll w) : Stmt.KeptSuperclass superclass := by
  rintro sup ⟨⟩
  cases h with
  | some _ hname =>
    simp only [scannedAll_cons] at hw
    exact .single hw.2.1 hname

mutual

/-- **A derived statement keeps the tokens it is derived from** where they
belong. -/
theorem Statement.kept {w : List Token} {s : Stmt Unit} : Statement w s → ScannedAll w → s.Kept
  | .effect h, hw => h.kept hw
  | .print _ h _, hw => by
    simp only [scannedAll_append, scannedAll_cons] at hw
    exact h.kept hw.2.1
  | .ret _ h _, hw => by
    simp only [scannedAll_append, scannedAll_cons] at hw
    exact h.kept hw.2.1
  | .block _ h, hw => h.kept (scannedAll_cons.1 hw).2
  | .branch _ _ hcond _ hyes, hw => by
    simp only [scannedAll_append, scannedAll_cons] at hw
    exact ⟨hcond.kept hw.2.2.1, hyes.kept hw.2.2.2.2, trivial⟩
  | .branchElse _ _ hcond _ hyes _ hno, hw => by
    simp only [scannedAll_append, scannedAll_cons] at hw
    exact ⟨hcond.kept hw.2.2.1, hyes.kept hw.2.2.2.2.1, hno.kept hw.2.2.2.2.2.2⟩
  | .loop _ _ hcond _ hbody, hw => by
    simp only [scannedAll_append, scannedAll_cons] at hw
    exact ⟨hcond.kept hw.2.2.1, hbody.kept hw.2.2.2.2⟩
  | .forLoop _ hclauses hbody, hw => by
    simp only [scannedAll_append, scannedAll_cons] at hw
    exact hclauses.kept hw.2.1 (hbody.kept hw.2.2)
  | .forEmpty _ hclauses _, hw => by
    simp only [scannedAll_append, scannedAll_cons] at hw
    exact hclauses.kept hw.2.1 trivial

theorem Declaration.kept {w : List Token} {s : Stmt Unit} :
    Declaration w s → ScannedAll w → s.Kept
  | .statement h, hw => h.kept hw
  | .varDecl h, hw => h.kept hw
  | .function _ h, hw => h.kept (scannedAll_cons.1 hw).2
  | .classDecl _ _ hsuperclass _ hmethods _, hw => by
    simp only [scannedAll_append, scannedAll_cons] at hw
    exact ⟨hsuperclass.kept hw.2.2.1, hmethods.kept hw.2.2.2.2.1⟩

theorem Declarations.kept {w : List Token} {ss : List (Stmt Unit)} :
    Declarations w ss → ScannedAll w → Stmt.KeptAll ss
  | .nil, _ => trivial
  | .cons h hrest, hw => by
    obtain ⟨hfirst, hmore⟩ := scannedAll_append.1 hw
    exact ⟨h.kept hfirst, hrest.kept hmore⟩

theorem Body.kept {w : List Token} {ss : List (Stmt Unit)} :
    Body w ss → ScannedAll w → Stmt.KeptAll ss
  | .intro h _, hw => h.kept (scannedAll_append.1 hw).1

theorem Method.kept {w : List Token} {decl : Routine (Stmt Unit)} :
    Method w decl → ScannedAll w → Stmt.KeptRoutine decl
  | .intro _ _ _ _ _ hbody, hw => by
    simp only [scannedAll_append, scannedAll_cons] at hw
    rw [Stmt.KeptRoutine]
    exact hbody.kept hw.2.2.2.2.2

theorem Methods.kept {w : List Token} {ms : List (Routine (Stmt Unit))} :
    Methods w ms → ScannedAll w → Stmt.KeptMethods ms
  | .nil, _ => trivial
  | .cons h hrest, hw => by
    obtain ⟨hfirst, hmore⟩ := scannedAll_append.1 hw
    exact ⟨h.kept hfirst, hrest.kept hmore⟩

end

end Grammar

/-! ## The nodes of a program -/

namespace Expr

/-- A node is the expression itself or one of those after it. -/
theorem Kept.of_mem_cons {e e' : Expr α} {nodes rest : List (Node α)} (h : e.Kept)
    (hmem : .expr e' ∈ Node.expr e :: nodes)
    (hnodes : .expr e' ∈ nodes → e'.Kept ∨ .expr e' ∈ rest) : e'.Kept ∨ .expr e' ∈ rest := by
  rcases List.mem_cons.1 hmem with heq | hmem
  · cases heq
    exact .inl h
  · exact hnodes hmem

mutual

/-- **All nodes of an expression keep their tokens** if it does. -/
theorem Kept.of_mem_list {e' : Expr α} : ∀ {e : Expr α} {rest : List (Node α)}, e.Kept →
    .expr e' ∈ e.list rest → e'.Kept ∨ .expr e' ∈ rest
  | literal _ _, _, h, hmem => h.of_mem_cons hmem .inr
  | grouping _ _, _, h, hmem => h.of_mem_cons hmem h.2.of_mem_list
  | unary _ _, _, h, hmem => h.of_mem_cons hmem h.2.of_mem_list
  | binary _ _ _, _, h, hmem => h.of_mem_cons hmem fun hmem =>
    (h.2.1.of_mem_list hmem).elim .inl h.2.2.of_mem_list
  | ternary _ _ _ _, _, h, hmem => h.of_mem_cons hmem fun hmem =>
    (h.2.1.of_mem_list hmem).elim .inl fun hmem =>
      (h.2.2.1.of_mem_list hmem).elim .inl h.2.2.2.of_mem_list
  | logical _ _ _, _, h, hmem => h.of_mem_cons hmem fun hmem =>
    (h.2.1.of_mem_list hmem).elim .inl h.2.2.of_mem_list
  | var _ _, _, h, hmem => h.of_mem_cons hmem .inr
  | assign _ _ _, _, h, hmem => h.of_mem_cons hmem h.2.of_mem_list
  | call _ _ _, _, h, hmem => h.of_mem_cons hmem fun hmem =>
    (h.2.1.of_mem_list hmem).elim .inl (KeptAll.of_mem_listAll h.2.2)
  | get _ _, _, h, hmem => h.of_mem_cons hmem h.2.of_mem_list
  | set _ _ _, _, h, hmem => h.of_mem_cons hmem fun hmem =>
    (h.2.1.of_mem_list hmem).elim .inl h.2.2.of_mem_list
  | receiver _ _, _, h, hmem => h.of_mem_cons hmem .inr

theorem KeptAll.of_mem_listAll {e' : Expr α} : ∀ {es : List (Expr α)} {rest : List (Node α)},
    KeptAll es → .expr e' ∈ listAll es rest → e'.Kept ∨ .expr e' ∈ rest
  | [], _, _, hmem => .inr hmem
  | _ :: _, _, h, hmem => (h.1.of_mem_list hmem).elim .inl (KeptAll.of_mem_listAll h.2)

end

theorem KeptOption.of_mem_listOption {e' : Expr α} {e : Option (Expr α)} {rest : List (Node α)}
    (h : KeptOption e) (hmem : .expr e' ∈ listOption e rest) : e'.Kept ∨ .expr e' ∈ rest := by
  cases e with
  | none => exact .inr hmem
  | some e => exact (h e rfl).of_mem_list hmem

end Expr

namespace Stmt

/-- No expression is the node of a statement. -/
theorem mem_of_mem_cons {e : Expr α} {s : Stmt α} {nodes : List (Node α)}
    (hmem : .expr e ∈ Node.stmt s :: nodes) : .expr e ∈ nodes :=
  (List.mem_cons.1 hmem).resolve_left nofun

mutual

/-- **All expressions among the nodes of a statement keep their tokens** if
it does. -/
theorem Kept.of_mem_list {e : Expr α} : ∀ {s : Stmt α} {rest : List (Node α)}, s.Kept →
    .expr e ∈ s.list rest → e.Kept ∨ .expr e ∈ rest
  | block _ _, _, h, hmem => KeptAll.of_mem_listAll h (mem_of_mem_cons hmem)
  | expr _, _, h, hmem => Expr.Kept.of_mem_list h (mem_of_mem_cons hmem)
  | print _ _, _, h, hmem => Expr.Kept.of_mem_list h (mem_of_mem_cons hmem)
  | varDecl _ _, _, h, hmem => Expr.KeptOption.of_mem_listOption h (mem_of_mem_cons hmem)
  | branch _ _ _ _, _, h, hmem =>
    (h.1.of_mem_list (mem_of_mem_cons hmem)).elim .inl fun hmem =>
      (h.2.1.of_mem_list hmem).elim .inl (KeptOption.of_mem_listOption h.2.2)
  | loop _ _ _, _, h, hmem =>
    (h.1.of_mem_list (mem_of_mem_cons hmem)).elim .inl (KeptOption.of_mem_listOption h.2)
  | forLoop _ _ _ _ _, _, h, hmem =>
    (KeptOption.of_mem_listOption h.1 (mem_of_mem_cons hmem)).elim .inl fun hmem =>
      (h.2.1.of_mem_listOption hmem).elim .inl fun hmem =>
        (h.2.2.1.of_mem_listOption hmem).elim .inl (KeptOption.of_mem_listOption h.2.2.2)
  | function _, _, h, hmem => KeptRoutine.of_mem_listRoutine h (mem_of_mem_cons hmem)
  | ret _ _, _, h, hmem => Expr.KeptOption.of_mem_listOption h (mem_of_mem_cons hmem)
  | classDecl _ none _, _, h, hmem => KeptMethods.of_mem_listMethods h.2 (mem_of_mem_cons hmem)
  | classDecl _ (some superclass) _, _, h, hmem => by
    -- the superclass is listed as a use of its name
    have hname : (Expr.var superclass.1 superclass.2).Kept := h.1 superclass rfl
    exact hname.of_mem_cons (mem_of_mem_cons hmem) (KeptMethods.of_mem_listMethods h.2)

theorem KeptAll.of_mem_listAll {e : Expr α} : ∀ {ss : List (Stmt α)} {rest : List (Node α)},
    KeptAll ss → .expr e ∈ listAll ss rest → e.Kept ∨ .expr e ∈ rest
  | [], _, _, hmem => .inr hmem
  | _ :: _, _, h, hmem => (h.1.of_mem_list hmem).elim .inl (KeptAll.of_mem_listAll h.2)

theorem KeptOption.of_mem_listOption {e : Expr α} : ∀ {s : Option (Stmt α)}
    {rest : List (Node α)}, KeptOption s → .expr e ∈ listOption s rest →
    e.Kept ∨ .expr e ∈ rest
  | none, _, _, hmem => .inr hmem
  | some _, _, h, hmem => Kept.of_mem_list h hmem

theorem KeptRoutine.of_mem_listRoutine {e : Expr α} : ∀ {decl : Routine (Stmt α)}
    {rest : List (Node α)}, KeptRoutine decl → .expr e ∈ listRoutine decl rest →
    e.Kept ∨ .expr e ∈ rest
  | ⟨_, _, _⟩, _, h, hmem => KeptAll.of_mem_listAll h hmem

theorem KeptMethods.of_mem_listMethods {e : Expr α} : ∀ {ms : List (Routine (Stmt α))}
    {rest : List (Node α)}, KeptMethods ms → .expr e ∈ listMethods ms rest →
    e.Kept ∨ .expr e ∈ rest
  | [], _, _, hmem => .inr hmem
  | _ :: _, _, h, hmem =>
    (KeptRoutine.of_mem_listRoutine h.1 (mem_of_mem_cons hmem)).elim .inl
      (KeptMethods.of_mem_listMethods h.2)

end

end Stmt

/-! ## Expressions of sources -/

/-- The expression that a node is, if it is one. -/
def Node.expr? : Node α → Option (Expr α)
  | .expr e => some e
  | .stmt _ => none

/-- The expressions of a program, all parts of expressions included. -/
def Program.expressions (p : Program α) : List (Expr α) := p.nodes.filterMap Node.expr?

theorem Program.mem_expressions {p : Program α} {e : Expr α} :
    e ∈ p.expressions ↔ .expr e ∈ p.nodes := by
  constructor
  · intro h
    obtain ⟨node, hnode, hexpr⟩ := List.mem_filterMap.1 h
    cases node with
    | expr e' =>
      cases hexpr
      exact hnode
    | stmt s => cases hexpr
  · exact fun h => List.mem_filterMap.2 ⟨.expr e, h, rfl⟩

namespace Expr

/-- **The expression occurs in a program** that is read from a source without
anything to report. -/
def Occurs (e : Expr Unit) : Prop :=
  ∃ src : Text, Source.reports src = [] ∧ Program.reports (Source.tokens src) = [] ∧
    e ∈ Program.expressions (Program.ofTokens (Source.tokens src))

/-- What occurs keeps the tokens of its source. -/
theorem Occurs.kept {e : Expr Unit} (h : e.Occurs) : e.Kept := by
  obtain ⟨src, -, hparsed, hmem⟩ := h
  have hderived := (Program.derived_of_read (List.map_eq_nil_iff.1 hparsed)).1
  have htokens : ScannedAll (Program.ahead (Source.tokens src)) := fun t ht =>
    Source.scanned_of_mem_tokens ((List.takeWhile_sublist _).subset ht)
  have hkept := (hderived.kept htokens).desugarAll
  exact (hkept.of_mem_listAll (Program.mem_expressions.1 hmem)).resolve_right nofun

/-- **Printed expressions are unambiguous.** Expressions of any two programs,
read without anything to report, are printed alike exactly if they are the
same but for the lines of their tokens and the spelling of their literals, as
long as no two numbers in them are printed alike. -/
theorem printed_alike_iff {e e' : Expr Unit} (he : e.Occurs) (he' : e'.Occurs)
    (hnumbers : NumbersTold (e.literals ++ e'.literals)) : e.text = e'.text ↔ e.gist = e'.gist :=
  he.kept.text_eq_iff he'.kept hnumbers

/-- A call of a function that is named like the head of a call, one of its
arguments a string with an open parenthesis, written in two ways. -/
theorem printed_alike_iff_call :
    ∃ e e' : Expr Unit, e.Occurs ∧ e'.Occurs ∧ NumbersTold (e.literals ++ e'.literals) ∧
      e.text = "(call call 1.5 (- a) \"(call b\")" ∧ e'.text = e.text ∧
      e.line = 1 ∧ e'.line = 3 ∧ e.gist = e'.gist := by
  let src := Text.ofString "call(1.50, -a, \"(call b\");"
  let src' := Text.ofString "call(\n1.5, - a,\n\"(call b\");"
  let e := (Program.expressions (Program.ofTokens (Source.tokens src))).get
    ⟨0, by decide +kernel⟩
  let e' := (Program.expressions (Program.ofTokens (Source.tokens src'))).get
    ⟨0, by decide +kernel⟩
  have he : e.Occurs := ⟨src, by decide +kernel, by decide +kernel, List.get_mem _ _⟩
  have he' : e'.Occurs := ⟨src', by decide +kernel, by decide +kernel, List.get_mem _ _⟩
  have hliterals : e.literals ++ e'.literals =
      [.number 1.5, .string "(call b", .number 1.5, .string "(call b"] := by decide +kernel
  have hnumbers : NumbersTold (e.literals ++ e'.literals) := by
    rw [hliterals]
    intro x y hx hy _
    have hx : x = 1.5 := by simpa using hx
    have hy : y = 1.5 := by simpa using hy
    rw [hx, hy]
  have htext : e.text = e'.text := by decide +kernel
  exact ⟨e, e', he, he', hnumbers, by decide +kernel, htext.symm, by decide +kernel,
    by decide +kernel, (printed_alike_iff he he' hnumbers).1 htext⟩

end Expr

end TanLang
