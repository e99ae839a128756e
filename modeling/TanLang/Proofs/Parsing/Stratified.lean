import TanLang.Proofs.Parsing.Flattening
import TanLang.Proofs.Scoping.Context
/-!
# Parsing — the trees that can be written

A tree is stratified if every part of an expression binds as tightly as its
place asks for, every node keeps a token of the kind that it is read from, what
is chosen or repeated is no declaration, and no list has too many entries.
Such a tree can be derived from what it flattens to, so **parsing what a
stratified tree flattens to gives the tree back**, if every `else` in it
stands at the nearest `if`.
-/

namespace TanLang

open Token (mark)
open TanLang.Parser (Tier)

namespace Grammar

/-! ## How tightly an expression binds -/

/-- The tier that an operator belongs to. -/
def tierOf (k : Token.Kind) : Option Tier :=
  [Tier.disjunction, .conjunction, .equality, .comparison, .sum, .product].find? fun t =>
    k ∈ operators t

namespace Level

/-- How tightly a level binds. -/
def rank : Level → Nat
  | assignment => 0
  | choice => 1
  | chain .disjunction => 2
  | chain .conjunction => 3
  | chain .equality => 4
  | chain .comparison => 5
  | chain .sum => 6
  | chain .product => 7
  | sign => 8
  | call => 9
  | primary => 10

/-- The level that binds one step looser, if there is one. -/
def looser : Level → Level
  | assignment => assignment
  | choice => assignment
  | chain .disjunction => choice
  | chain .conjunction => chain .disjunction
  | chain .equality => chain .conjunction
  | chain .comparison => chain .equality
  | chain .sum => chain .comparison
  | chain .product => chain .sum
  | sign => chain .product
  | call => sign
  | primary => call

theorem rank_looser (l : Level) : l.looser.rank = l.rank - 1 := by
  cases l with
  | chain t => cases t <;> rfl
  | _ => rfl

theorem eq_of_rank_eq {l m : Level} (h : l.rank = m.rank) : l = m := by
  have hall : ∀ l : Level, ∀ m : Level, l.rank = m.rank → l = m := by
    intro l m
    cases l with
    | chain t => cases m with
      | chain u => cases t <;> cases u <;> decide
      | _ => cases t <;> decide
    | _ => cases m with
      | chain u => cases u <;> decide
      | _ => decide
  exact hall l m h

end Level

theorem Expression.looser {l : Level} {w : List Token} {e : Expr Unit} (h : Expression l w e) :
    Expression l.looser w e := by
  cases l with
  | assignment => exact h
  | choice => exact .assignNone h
  | chain t =>
    cases t with
    | disjunction => exact .choiceNone h
    | _ => exact .chainNone h
  | sign => exact .chainNone h
  | call => exact .signNone h
  | primary => exact .callNone h

/-- **What is derived from a level can be derived from every looser one.** -/
theorem Expression.loosen {l m : Level} {w : List Token} {e : Expr Unit} (h : Expression l w e)
    (hle : m.rank ≤ l.rank) : Expression m w e := by
  -- by induction on how many steps there are between the levels
  obtain ⟨steps, hsteps⟩ : ∃ steps, l.rank = m.rank + steps := ⟨l.rank - m.rank, by omega⟩
  induction steps generalizing l with
  | zero =>
    obtain rfl : l = m := Level.eq_of_rank_eq hsteps
    exact h
  | succ steps ih =>
    have hrank := l.rank_looser
    exact ih h.looser (by omega) (by omega)

end Grammar

open Grammar (Level tierOf between maxEntries)

/-! ## Stratified trees -/

/-- Whether the operators of a tier evaluate both their sides. -/
def Parser.Tier.evaluatesBoth : Tier → Bool
  | disjunction => false
  | conjunction => false
  | _ => true

variable {α : Type}

namespace Expr

/-- The level of an expression by its outermost operator. -/
def level : Expr α → Level
  | assign _ _ _ => .assignment
  | set _ _ _ => .assignment
  | ternary _ _ _ _ => .choice
  | binary _ op _ => ((tierOf op.kind).map Level.chain).getD .primary
  | logical _ op _ => ((tierOf op.kind).map Level.chain).getD .primary
  | unary _ _ => .sign
  | call _ _ _ => .call
  | get _ _ => .call
  | literal _ _ => .primary
  | grouping _ _ => .primary
  | var _ _ => .primary
  | receiver _ _ => .primary

/-- Whether an expression binds at least as tightly as a level. -/
def fits (l : Level) (e : Expr α) : Bool := l.rank ≤ e.level.rank

/-- Whether the sides of an operator fit a tier: the left one goes on with
operators of the tier, the right one binds tighter. -/
def sidesFit (t : Tier) (left right : Expr α) : Bool :=
  left.fits (.chain t) && right.fits (between t)

mutual

/-- **Whether an expression is stratified**: its parts bind as tightly as
their places ask for, and its nodes keep tokens of the kinds they are read
from. -/
def stratified : Expr α → Bool
  | literal token value => Parser.literalOf token == some value
  | grouping paren inner => paren.kind == .leftParen && stratified inner
  | unary op operand =>
    (op.kind == .bang || op.kind == .minus) && operand.fits .sign && stratified operand
  | binary left op right =>
    ((tierOf op.kind).any fun t => t.evaluatesBoth && sidesFit t left right) &&
      stratified left && stratified right
  | ternary cond question yes no =>
    question.kind == .question && cond.fits (.chain .disjunction) && yes.fits .choice &&
      no.fits .choice && stratified cond && stratified yes && stratified no
  | logical left op right =>
    ((tierOf op.kind).any fun t => !t.evaluatesBoth && sidesFit t left right) &&
      stratified left && stratified right
  | var name _ => name.kind == .identifier
  | assign name _ value => name.kind == .identifier && stratified value
  | call callee paren args =>
    paren.kind == .rightParen && args.length ≤ maxEntries && callee.fits .call &&
      stratified callee && stratifiedAll args
  | get object name => name.kind == .identifier && object.fits .call && stratified object
  | set object name value =>
    name.kind == .identifier && object.fits .call && stratified object && stratified value
  | receiver keyword _ => keyword.kind == .thisWord

/-- The same for expressions in a row. -/
def stratifiedAll : List (Expr α) → Bool
  | [] => true
  | e :: rest => stratified e && stratifiedAll rest

end

/-- The same for an expression that may be missing. -/
def stratifiedOption : Option (Expr α) → Bool
  | none => true
  | some e => e.stratified

end Expr

namespace Stmt

mutual

/-- **Whether a statement is stratified**: its expressions are, its nodes keep
tokens of the kinds they are read from, what is chosen or repeated is no
declaration, and there are no `for` loops. -/
def stratified : Stmt α → Bool
  | block brace body => brace.kind == .leftBrace && stratifiedAll body
  | expr e => e.stratified
  | print keyword value => keyword.kind == .printWord && value.stratified
  | varDecl name initial => name.kind == .identifier && Expr.stratifiedOption initial
  | branch keyword cond yes no =>
    keyword.kind == .ifWord && cond.stratified && yes.declared.isNone && stratified yes &&
      stratifiedElse no
  | loop keyword cond body =>
    keyword.kind == .whileWord && cond.stratified && stratifiedBody body
  | forLoop _ _ _ _ _ => false
  | function decl => stratifiedRoutine decl
  | ret keyword value => keyword.kind == .returnWord && Expr.stratifiedOption value
  | classDecl name superclass methods =>
    name.kind == .identifier && superclass.all (fun s => s.1.kind == .identifier) &&
      stratifiedMethods methods

/-- The same for statements in a row. -/
def stratifiedAll : List (Stmt α) → Bool
  | [] => true
  | s :: rest => stratified s && stratifiedAll rest

/-- The same for the second choice of an `if`, which may be missing. -/
def stratifiedElse : Option (Stmt α) → Bool
  | none => true
  | some s => s.declared.isNone && stratified s

/-- The same for the body of a `while` loop, which may not be missing. -/
def stratifiedBody : Option (Stmt α) → Bool
  | none => false
  | some s => s.declared.isNone && stratified s

/-- The same for a function. -/
def stratifiedRoutine : Routine (Stmt α) → Bool
  | ⟨name, params, body⟩ =>
    name.kind == .identifier && params.all (fun p => p.kind == .identifier) &&
      params.length ≤ maxEntries && stratifiedAll body

/-- The same for the methods of a class. -/
def stratifiedMethods : List (Routine (Stmt α)) → Bool
  | [] => true
  | m :: rest => stratifiedRoutine m && stratifiedMethods rest

end

end Stmt

/-! ## They can be derived -/

namespace Grammar

theorem mem_operators_of_tierOf {k : Token.Kind} {t : Tier} (h : tierOf k = some t) :
    k ∈ operators t := by
  have hfound := List.find?_some h
  exact of_decide_eq_true hfound

theorem constant_of_literalOf {t : Token} {value : Literal}
    (h : Parser.literalOf t = some value) : Constant t value := by
  unfold Parser.literalOf at h
  split at h
  · cases h
    exact .falsity ‹_›
  · cases h
    exact .truth ‹_›
  · cases h
    exact .nothing ‹_›
  · cases h
    exact .number ‹_›
  · cases h
    exact .string ‹_›
  · cases h

/-- The two sides of an operator, put together. -/
theorem expression_of_sides {t : Tier} {op : Token} {left right : Expr Unit}
    (htier : tierOf op.kind = some t) (hsides : Expr.sidesFit t left right = true)
    (hleft : Expression left.level left.flatten left)
    (hright : Expression right.level right.flatten right) :
    Expression (((tierOf op.kind).map Level.chain).getD .primary)
      (left.flatten ++ op :: right.flatten) (t.node left op right) := by
  simp only [Expr.sidesFit, Expr.fits, Bool.and_eq_true, decide_eq_true_eq] at hsides
  rw [htier]
  exact .chain (hleft.loosen hsides.1) (mem_operators_of_tierOf htier) (hright.loosen hsides.2)

mutual

/-- **A stratified expression is derived from what it flattens to.** -/
theorem expression_of_stratified : ∀ {e : Expr Unit}, e.stratified = true →
    Expression e.level e.flatten e
  | .literal _ _, h => by
    simp only [Expr.stratified, beq_iff_eq] at h
    exact .constant (constant_of_literalOf h)
  | .grouping _ _, h => by
    simp only [Expr.stratified, Bool.and_eq_true, beq_iff_eq] at h
    exact .grouping h.1 ((expression_of_stratified h.2).loosen (Nat.zero_le _)) rfl
  | .unary _ _, h => by
    simp only [Expr.stratified, Bool.and_eq_true, Bool.or_eq_true, beq_iff_eq] at h
    exact .sign h.1.1 ((expression_of_stratified h.2).loosen (of_decide_eq_true h.1.2))
  | .binary left op right, h => by
    simp only [Expr.stratified, Bool.and_eq_true] at h
    obtain ⟨⟨htier, hleft⟩, hright⟩ := h
    cases ht : tierOf op.kind with
    | none => simp [ht] at htier
    | some t =>
      simp only [ht, Option.any_some, Bool.and_eq_true] at htier
      have hboth := expression_of_sides ht htier.2 (expression_of_stratified hleft)
        (expression_of_stratified hright)
      cases t <;> first | exact hboth | cases htier.1
  | .logical left op right, h => by
    simp only [Expr.stratified, Bool.and_eq_true] at h
    obtain ⟨⟨htier, hleft⟩, hright⟩ := h
    cases ht : tierOf op.kind with
    | none => simp [ht] at htier
    | some t =>
      simp only [ht, Option.any_some, Bool.and_eq_true] at htier
      have hboth := expression_of_sides ht htier.2 (expression_of_stratified hleft)
        (expression_of_stratified hright)
      cases t <;> first | exact hboth | cases htier.1
  | .ternary _ _ _ _, h => by
    simp only [Expr.stratified, Bool.and_eq_true, beq_iff_eq] at h
    obtain ⟨⟨⟨⟨⟨⟨hmark, hcond⟩, hyes⟩, hno⟩, hcond'⟩, hyes'⟩, hno'⟩ := h
    exact .choice ((expression_of_stratified hcond').loosen (of_decide_eq_true hcond)) hmark
      ((expression_of_stratified hyes').loosen (of_decide_eq_true hyes)) rfl
      ((expression_of_stratified hno').loosen (of_decide_eq_true hno))
  | .var _ _, h => by
    simp only [Expr.stratified, beq_iff_eq] at h
    exact .name h
  | .assign _ _ _, h => by
    simp only [Expr.stratified, Bool.and_eq_true, beq_iff_eq] at h
    exact .assign h.1 rfl ((expression_of_stratified h.2).loosen (Nat.zero_le _))
  | .call callee paren args, h => by
    simp only [Expr.stratified, Bool.and_eq_true, beq_iff_eq, decide_eq_true_eq] at h
    obtain ⟨⟨⟨⟨hparen, hcount⟩, hfits⟩, hcallee⟩, hargs⟩ := h
    have hcallee := (expression_of_stratified hcallee).loosen (of_decide_eq_true hfits)
    cases args with
    | nil => exact .invoke hcallee rfl hparen
    | cons e rest =>
      exact .invokeWith hcallee rfl (arguments_of_stratified (List.cons_ne_nil _ _) hargs) hcount
        hparen
  | .get _ _, h => by
    simp only [Expr.stratified, Bool.and_eq_true, beq_iff_eq] at h
    exact .property ((expression_of_stratified h.2).loosen (of_decide_eq_true h.1.2)) rfl h.1.1
  | .set _ _ _, h => by
    simp only [Expr.stratified, Bool.and_eq_true, beq_iff_eq] at h
    obtain ⟨⟨⟨hname, hfits⟩, hobject⟩, hvalue⟩ := h
    exact .assignField ((expression_of_stratified hobject).loosen (of_decide_eq_true hfits)) rfl
      hname rfl ((expression_of_stratified hvalue).loosen (Nat.zero_le _))
  | .receiver _ _, h => by
    simp only [Expr.stratified, beq_iff_eq] at h
    exact .receiver h

/-- The same for the arguments of a call. -/
theorem arguments_of_stratified : ∀ {es : List (Expr Unit)}, es ≠ [] →
    Expr.stratifiedAll es = true → Arguments (Expr.flattenList es) es
  | [], hne, _ => absurd rfl hne
  | e :: rest, _, h => by
    rw [Expr.stratifiedAll, Bool.and_eq_true] at h
    have hfirst := (expression_of_stratified h.1).loosen (m := .assignment) (Nat.zero_le _)
    rw [Expr.flattenList]
    by_cases hrest : rest = []
    · rw [hrest, Expr.flattenMore, List.append_nil]
      exact .one hfirst
    · rw [Expr.flattenMore_eq hrest]
      exact .more hfirst rfl (arguments_of_stratified hrest h.2)

end

theorem optional_of_stratified {e : Option (Expr Unit)}
    (h : Expr.stratifiedOption e = true) : Optional (Expr.flattenOption e) e := by
  cases e with
  | none => exact .none
  | some e => exact .some ((expression_of_stratified h).loosen (Nat.zero_le _))

theorem variable_of_stratified {name : Token} {initial : Option (Expr Unit)}
    (hname : name.kind = .identifier) (h : Expr.stratifiedOption initial = true) :
    Variable (Stmt.varDecl name initial).flatten (.varDecl name initial) := by
  cases initial with
  | none => exact .plain rfl hname rfl
  | some e =>
    exact .initial rfl hname rfl ((expression_of_stratified h).loosen (Nat.zero_le _)) rfl

theorem names_of_stratified {params : List Token} (hne : params ≠ [])
    (h : ∀ p ∈ params, p.kind = .identifier) :
    Names (params.intersperse (mark .comma)) params := by
  induction params with
  | nil => exact absurd rfl hne
  | cons p rest ih =>
    rw [List.forall_mem_cons] at h
    cases rest with
    | nil => exact .one h.1
    | cons next rest =>
      rw [List.intersperse_cons_cons]
      exact .more h.1 rfl (ih (List.cons_ne_nil _ _) h.2)

theorem parameters_of_stratified {params : List Token} (h : ∀ p ∈ params, p.kind = .identifier)
    (hcount : params.length ≤ maxEntries) :
    Parameters (params.intersperse (mark .comma)) params := by
  by_cases hne : params = []
  · rw [hne]
    exact .none
  · exact .some (names_of_stratified hne h) hcount

theorem superclass_of_stratified {superclass : Option (Token × Unit)}
    (h : superclass.all (fun s => s.1.kind == .identifier) = true) :
    Superclass (Stmt.flattenSuperclass superclass) superclass := by
  cases superclass with
  | none => exact .none
  | some s => exact .some rfl (beq_iff_eq.1 h)

/-- A statement is derived as one, and as a declaration. -/
theorem derived_of_statement {w : List Token} {s : Stmt Unit} (h : Statement w s) :
    (s.declared = none → Statement w s) ∧ Declaration w s :=
  ⟨fun _ => h, .statement h⟩

mutual

/-- **A stratified statement is derived from what it flattens to**, as a
declaration and, if it is none, as a statement. -/
theorem declaration_of_stratified : ∀ {s : Stmt Unit}, s.stratified = true →
    (s.declared = none → Statement s.flatten s) ∧ Declaration s.flatten s
  | .block brace body, h => by
    simp only [Stmt.stratified, Bool.and_eq_true, beq_iff_eq] at h
    exact derived_of_statement (.block h.1 (body_of_stratified h.2))
  | .expr e, h =>
    derived_of_statement (.effect (.intro ((expression_of_stratified h).loosen (Nat.zero_le _))
      rfl))
  | .print keyword value, h => by
    simp only [Stmt.stratified, Bool.and_eq_true, beq_iff_eq] at h
    exact derived_of_statement
      (.print h.1 ((expression_of_stratified h.2).loosen (Nat.zero_le _)) rfl)
  | .varDecl name initial, h => by
    simp only [Stmt.stratified, Bool.and_eq_true, beq_iff_eq] at h
    exact ⟨nofun, .varDecl (variable_of_stratified h.1 h.2)⟩
  | .branch keyword cond yes no, h => by
    simp only [Stmt.stratified, Bool.and_eq_true, beq_iff_eq, Option.isNone_iff_eq_none] at h
    obtain ⟨⟨⟨⟨hkeyword, hcond⟩, hnone⟩, hyes⟩, hno⟩ := h
    have hcond := (expression_of_stratified hcond).loosen (m := .assignment) (Nat.zero_le _)
    have hyes := (declaration_of_stratified hyes).1 hnone
    refine derived_of_statement ?_
    cases no with
    | none =>
      rw [Stmt.flatten, Stmt.flattenElse, List.append_nil]
      exact .branch hkeyword rfl hcond rfl hyes
    | some no =>
      rw [Stmt.flatten, Stmt.flattenElse]
      exact .branchElse hkeyword rfl hcond rfl hyes rfl (else_of_stratified hno no rfl)
  | .loop keyword cond body, h => by
    simp only [Stmt.stratified, Bool.and_eq_true, beq_iff_eq] at h
    obtain ⟨⟨hkeyword, hcond⟩, hbody⟩ := h
    obtain ⟨s, rfl, hs⟩ := loopBody_of_stratified hbody
    exact derived_of_statement
      (.loop hkeyword rfl ((expression_of_stratified hcond).loosen (Nat.zero_le _)) rfl hs)
  | .forLoop _ _ _ _ _, h => by cases h
  | .function decl, h => ⟨nofun, .function rfl (method_of_stratified h)⟩
  | .ret keyword value, h => by
    simp only [Stmt.stratified, Bool.and_eq_true, beq_iff_eq] at h
    exact derived_of_statement (.ret h.1 (optional_of_stratified h.2) rfl)
  | .classDecl name superclass methods, h => by
    simp only [Stmt.stratified, Bool.and_eq_true, beq_iff_eq] at h
    exact ⟨nofun, .classDecl rfl h.1.1 (superclass_of_stratified h.1.2) rfl
      (methods_of_stratified h.2) rfl⟩

/-- The same for statements in a row. -/
theorem declarations_of_stratified : ∀ {ss : List (Stmt Unit)}, Stmt.stratifiedAll ss = true →
    Declarations (Stmt.flattenAll ss) ss
  | [], _ => .nil
  | s :: rest, h => by
    rw [Stmt.stratifiedAll, Bool.and_eq_true] at h
    exact .cons (declaration_of_stratified h.1).2 (declarations_of_stratified h.2)

/-- The same for a block after its opening brace. -/
theorem body_of_stratified {ss : List (Stmt Unit)} (h : Stmt.stratifiedAll ss = true) :
    Body (Stmt.flattenAll ss ++ [mark .rightBrace]) ss :=
  .intro (declarations_of_stratified h) rfl

/-- The same for the second choice of an `if`. -/
theorem else_of_stratified : ∀ {no : Option (Stmt Unit)}, Stmt.stratifiedElse no = true →
    ∀ s, no = some s → Statement s.flatten s
  | none, _ => nofun
  | some s, h => by
    rw [Stmt.stratifiedElse, Bool.and_eq_true, Option.isNone_iff_eq_none] at h
    rintro s ⟨⟩
    exact (declaration_of_stratified h.2).1 h.1

/-- The same for the body of a `while` loop. -/
theorem loopBody_of_stratified : ∀ {body : Option (Stmt Unit)},
    Stmt.stratifiedBody body = true → ∃ s, body = some s ∧ Statement s.flatten s
  | none, h => by cases h
  | some s, h => by
    rw [Stmt.stratifiedBody, Bool.and_eq_true, Option.isNone_iff_eq_none] at h
    exact ⟨s, rfl, (declaration_of_stratified h.2).1 h.1⟩

/-- The same for a function from its name on. -/
theorem method_of_stratified : ∀ {decl : Routine (Stmt Unit)},
    Stmt.stratifiedRoutine decl = true → Method (Stmt.flattenRoutine decl) decl
  | ⟨name, params, body⟩, h => by
    simp only [Stmt.stratifiedRoutine, Bool.and_eq_true, beq_iff_eq, List.all_eq_true,
      decide_eq_true_eq] at h
    obtain ⟨⟨⟨hname, hparams⟩, hcount⟩, hbody⟩ := h
    exact .intro hname rfl (parameters_of_stratified hparams hcount) rfl rfl
      (body_of_stratified hbody)

/-- The same for methods in a row. -/
theorem methods_of_stratified : ∀ {ms : List (Routine (Stmt Unit))},
    Stmt.stratifiedMethods ms = true → Methods (Stmt.flattenMethods ms) ms
  | [], _ => .nil
  | m :: rest, h => by
    rw [Stmt.stratifiedMethods, Bool.and_eq_true] at h
    exact .cons (method_of_stratified h.1) (methods_of_stratified h.2)

end

/-! ## The tokens they flatten to -/

/-- No token is the mark of the end or a `for`. -/
def Ordinary (w : List Token) : Prop := ∀ t ∈ w, t.kind ≠ .eof ∧ t.kind ≠ .forWord

@[simp]
theorem ordinary_nil : Ordinary [] := List.forall_mem_nil _

@[simp]
theorem ordinary_append {w v : List Token} : Ordinary (w ++ v) ↔ Ordinary w ∧ Ordinary v :=
  List.forall_mem_append

@[simp]
theorem ordinary_cons {t : Token} {w : List Token} :
    Ordinary (t :: w) ↔ (t.kind ≠ .eof ∧ t.kind ≠ .forWord) ∧ Ordinary w := List.forall_mem_cons

theorem Constant.ordinary {t : Token} {value : Literal} (h : Constant t value) : Ordinary [t] := by
  cases h <;> simp [*]

theorem ordinary_operator {t : Tier} {op : Token} (h : op.kind ∈ operators t) :
    op.kind ≠ .eof ∧ op.kind ≠ .forWord := by
  have hall : ∀ k ∈ operators t, k ≠ .eof ∧ k ≠ .forWord := by cases t <;> decide
  exact hall _ h

mutual

/-- **Expressions are derived from ordinary tokens.** -/
theorem Expression.ordinary {level : Level} {w : List Token} {e : Expr Unit} :
    Expression level w e → Ordinary w
  | .assign hname hequals hvalue => by simp [hname, hequals, hvalue.ordinary]
  | .assignField hobject hdot hname hequals hvalue => by
    simp [hobject.ordinary, hdot, hname, hequals, hvalue.ordinary]
  | .assignNone h => h.ordinary
  | .choice hcond hmark hyes hcolon hno => by
    simp [hcond.ordinary, hmark, hyes.ordinary, hcolon, hno.ordinary]
  | .choiceNone h => h.ordinary
  | .chain hleft hop hright => by
    simp only [ordinary_append, ordinary_cons]
    exact ⟨hleft.ordinary, ordinary_operator hop, hright.ordinary⟩
  | .chainNone h => h.ordinary
  | .sign hop h => by
    rcases hop with hop | hop <;> simp [hop, h.ordinary]
  | .signNone h => h.ordinary
  | .invoke hcallee hopening hclosing => by simp [hcallee.ordinary, hopening, hclosing]
  | .invokeWith hcallee hopening hargs _ hclosing => by
    simp [hcallee.ordinary, hopening, hargs.ordinary, hclosing]
  | .property hobject hdot hname => by simp [hobject.ordinary, hdot, hname]
  | .callNone h => h.ordinary
  | .constant h => h.ordinary
  | .receiver h => by simp [h]
  | .name h => by simp [h]
  | .grouping hopening h hclosing => by simp [hopening, h.ordinary, hclosing]

theorem Arguments.ordinary {w : List Token} {es : List (Expr Unit)} : Arguments w es → Ordinary w
  | .one h => h.ordinary
  | .more h hcomma hes => by simp [h.ordinary, hcomma, hes.ordinary]

end

theorem Optional.ordinary {w : List Token} {e : Option (Expr Unit)} (h : Optional w e) :
    Ordinary w := by
  cases h with
  | none => exact ordinary_nil
  | some h => exact h.ordinary

theorem Variable.ordinary {w : List Token} {s : Stmt Unit} (h : Variable w s) : Ordinary w := by
  cases h with
  | plain hkeyword hname hsemicolon => simp [hkeyword, hname, hsemicolon]
  | initial hkeyword hname hequals h hsemicolon =>
    simp [hkeyword, hname, hequals, h.ordinary, hsemicolon]

theorem Names.ordinary {w names : List Token} (h : Names w names) : Ordinary w := by
  induction h with
  | one h => simp [h]
  | more h hcomma _ ih => simp [h, hcomma, ih]

theorem Parameters.ordinary {w params : List Token} (h : Parameters w params) : Ordinary w := by
  cases h with
  | none => exact ordinary_nil
  | some h _ => exact h.ordinary

theorem Superclass.ordinary {w : List Token} {superclass : Option (Token × Unit)}
    (h : Superclass w superclass) : Ordinary w := by
  cases h with
  | none => exact ordinary_nil
  | some hless hname => simp [hless, hname]

mutual

/-- **A stratified statement flattens to ordinary tokens.** -/
theorem ordinary_flatten : ∀ {s : Stmt Unit}, s.stratified = true → Ordinary s.flatten
  | .block brace body, h => by
    simp only [Stmt.stratified, Bool.and_eq_true, beq_iff_eq] at h
    simp [Stmt.flatten, h.1, ordinary_flattenAll h.2]
  | .expr e, h => by
    simp [Stmt.flatten, (expression_of_stratified h).ordinary]
  | .print keyword value, h => by
    simp only [Stmt.stratified, Bool.and_eq_true, beq_iff_eq] at h
    simp [Stmt.flatten, h.1, (expression_of_stratified h.2).ordinary]
  | .varDecl name initial, h => by
    simp only [Stmt.stratified, Bool.and_eq_true, beq_iff_eq] at h
    exact (variable_of_stratified h.1 h.2).ordinary
  | .branch keyword cond yes no, h => by
    simp only [Stmt.stratified, Bool.and_eq_true, beq_iff_eq] at h
    obtain ⟨⟨⟨⟨hkeyword, hcond⟩, -⟩, hyes⟩, hno⟩ := h
    simp [Stmt.flatten, hkeyword, (expression_of_stratified hcond).ordinary,
      ordinary_flatten hyes, ordinary_flattenElse hno]
  | .loop keyword cond body, h => by
    simp only [Stmt.stratified, Bool.and_eq_true, beq_iff_eq] at h
    obtain ⟨⟨hkeyword, hcond⟩, hbody⟩ := h
    simp [Stmt.flatten, hkeyword, (expression_of_stratified hcond).ordinary,
      ordinary_flattenBody hbody]
  | .forLoop _ _ _ _ _, h => by cases h
  | .function decl, h => by
    simp [Stmt.flatten, ordinary_flattenRoutine h]
  | .ret keyword value, h => by
    simp only [Stmt.stratified, Bool.and_eq_true, beq_iff_eq] at h
    simp [Stmt.flatten, h.1, (optional_of_stratified h.2).ordinary]
  | .classDecl name superclass methods, h => by
    simp only [Stmt.stratified, Bool.and_eq_true, beq_iff_eq] at h
    simp [Stmt.flatten, h.1.1, (superclass_of_stratified h.1.2).ordinary,
      ordinary_flattenMethods h.2]

theorem ordinary_flattenAll : ∀ {ss : List (Stmt Unit)}, Stmt.stratifiedAll ss = true →
    Ordinary (Stmt.flattenAll ss)
  | [], _ => ordinary_nil
  | s :: rest, h => by
    rw [Stmt.stratifiedAll, Bool.and_eq_true] at h
    exact ordinary_append.2 ⟨ordinary_flatten h.1, ordinary_flattenAll h.2⟩

theorem ordinary_flattenElse : ∀ {no : Option (Stmt Unit)}, Stmt.stratifiedElse no = true →
    Ordinary (Stmt.flattenElse no)
  | none, _ => ordinary_nil
  | some s, h => by
    rw [Stmt.stratifiedElse, Bool.and_eq_true] at h
    simp [Stmt.flattenElse, ordinary_flatten h.2]

theorem ordinary_flattenBody : ∀ {body : Option (Stmt Unit)}, Stmt.stratifiedBody body = true →
    Ordinary (Stmt.flattenBody body)
  | none, _ => ordinary_nil
  | some s, h => by
    rw [Stmt.stratifiedBody, Bool.and_eq_true] at h
    exact ordinary_flatten h.2

theorem ordinary_flattenRoutine : ∀ {decl : Routine (Stmt Unit)},
    Stmt.stratifiedRoutine decl = true → Ordinary (Stmt.flattenRoutine decl)
  | ⟨name, params, body⟩, h => by
    simp only [Stmt.stratifiedRoutine, Bool.and_eq_true, beq_iff_eq, List.all_eq_true,
      decide_eq_true_eq] at h
    obtain ⟨⟨⟨hname, hparams⟩, hcount⟩, hbody⟩ := h
    simp [Stmt.flattenRoutine, hname, (parameters_of_stratified hparams hcount).ordinary,
      ordinary_flattenAll hbody]

theorem ordinary_flattenMethods : ∀ {ms : List (Routine (Stmt Unit))},
    Stmt.stratifiedMethods ms = true → Ordinary (Stmt.flattenMethods ms)
  | [], _ => ordinary_nil
  | m :: rest, h => by
    rw [Stmt.stratifiedMethods, Bool.and_eq_true] at h
    exact ordinary_append.2 ⟨ordinary_flattenRoutine h.1, ordinary_flattenMethods h.2⟩

end
end Grammar

/-! ## What is read is the tree -/

namespace Program

/-- What a stratified program flattens to is read to its end. -/
theorem ahead_flattenAll {p : Program Unit} (h : Stmt.stratifiedAll p = true) (rest : List Token)
    (hrest : ahead rest = []) : ahead (Stmt.flattenAll p ++ rest) = Stmt.flattenAll p := by
  unfold ahead at hrest ⊢
  rw [List.takeWhile_append_of_pos, hrest, List.append_nil]
  intro t ht
  exact decide_eq_true (Grammar.ordinary_flattenAll h t ht).1

/-- **A stratified program is read from what it flattens to.** -/
theorem ofTokens_of_flattenAll {p : Program Unit} {tokens : List Token}
    (h : Stmt.stratifiedAll p = true) (hnear : Stmt.NearestElseAll p)
    (htokens : ahead tokens = Stmt.flattenAll p) :
    ofTokens tokens = p ∧ reports tokens = [] := by
  have hderived := Grammar.declarations_of_stratified h
  have hfor : Grammar.ForFree (Stmt.flattenAll p) := fun t ht =>
    (Grammar.ordinary_flattenAll h t ht).2
  have hread : read tokens = ⟨p, []⟩ := read_of_derived (htokens ▸ hderived) hnear
  rw [ofTokens, reports, hread]
  exact ⟨hderived.desugar_eq hfor, rfl⟩

end Program

end TanLang
