import TanLang.Parser.Statement
/-!
# Parsing — where a parser stops

Whatever a parser reads, it leaves an end of the tokens it was given, so no
parser is ever anywhere but at one of them or at their end. If it gives up,
it does so at the tokens it leaves, and its last complaint is about the first
of them. The bound on nested calls is looked at nowhere but where it runs
out: **a parser with a higher bound answers as one with a lower bound does**
that has not run out of it.

`Prolongs` says all of this at once of two parsers that differ in their
bounds. There is one lemma for each way of putting parsers together, and then
one for each parser.
-/

namespace TanLang

namespace Parser

variable {α β : Type}

/-- **An outcome has its place** among the tokens ahead: those it leaves are
an end of them, and giving up comes with a complaint about the first one
left. -/
def Outcome.Placed (tokens : List Token) : Outcome α → Prop
  | .ok _ rest _ => rest <:+ tokens
  | .failed rest issues => rest <:+ tokens ∧ ∃ c, issues.getLast? = some ⟨rest.head?, c⟩
  | .exhausted => True

/-- Earlier complaints change nothing about where a parser has stopped, and
it may have started further on. -/
theorem Outcome.Placed.after {o : Outcome α} {tokens rest : List Token} (h : o.Placed rest)
    (hrest : rest <:+ tokens) (earlier : List Issue) : (o.after earlier).Placed tokens := by
  cases o with
  | ok a rest' issues => exact h.trans hrest
  | failed rest' issues =>
    obtain ⟨hsuffix, c, hlast⟩ := h
    refine ⟨hsuffix.trans hrest, c, ?_⟩
    rw [List.getLast?_append, hlast]
    rfl
  | exhausted => trivial

/-- **A parser goes on where another one runs out of its bound**, and answers
as that one does wherever it does not. -/
structure Prolongs (p q : Parser α) : Prop where
  same : ∀ tokens, p tokens ≠ .exhausted → q tokens = p tokens
  placed : ∀ tokens, (p tokens).Placed tokens

namespace Prolongs

variable {p q : Parser α} {f g : α → Parser β}

/-- A parser that calls no other. -/
theorem of_placed (h : ∀ tokens, (p tokens).Placed tokens) : Prolongs p p :=
  ⟨fun _ _ => rfl, h⟩

theorem stop : Prolongs Parser.stop q := ⟨fun _ h => absurd rfl h, fun _ => trivial⟩

theorem pure (a : α) : Prolongs (Pure.pure a) (Pure.pure a) :=
  of_placed fun tokens => List.suffix_refl tokens

theorem giveUp (c : Complaint) : Prolongs (Parser.giveUp c : Parser α) (Parser.giveUp c) :=
  of_placed fun tokens => ⟨List.suffix_refl tokens, c, rfl⟩

theorem complain (t : Option Token) (c : Complaint) :
    Prolongs (Parser.complain t c) (Parser.complain t c) :=
  of_placed fun tokens => List.suffix_refl tokens

theorem next : Prolongs Parser.next Parser.next := of_placed fun tokens => List.suffix_refl tokens

theorem nextKind : Prolongs Parser.nextKind Parser.nextKind :=
  of_placed fun tokens => List.suffix_refl tokens

theorem acceptWhere (wanted : Token.Kind → Bool) :
    Prolongs (Parser.acceptWhere wanted) (Parser.acceptWhere wanted) := by
  refine of_placed fun tokens => ?_
  cases tokens with
  | nil => exact List.suffix_refl _
  | cons t rest =>
    simp only [Parser.acceptWhere]
    split
    · exact List.suffix_cons t rest
    · exact List.suffix_refl _

theorem accept (kind : Token.Kind) : Prolongs (Parser.accept kind) (Parser.accept kind) :=
  acceptWhere _

theorem expect (kind : Token.Kind) (c : Complaint) :
    Prolongs (Parser.expect kind c) (Parser.expect kind c) := by
  refine of_placed fun tokens => ?_
  cases tokens with
  | nil => exact ⟨List.suffix_refl _, c, rfl⟩
  | cons t rest =>
    simp only [Parser.expect]
    split
    · exact List.suffix_cons t rest
    · exact ⟨List.suffix_refl _, c, rfl⟩

theorem atom : Prolongs Parser.atom Parser.atom := by
  refine of_placed fun tokens => ?_
  cases tokens with
  | nil => exact List.suffix_refl _
  | cons t rest =>
    simp only [Parser.atom]
    split
    · exact List.suffix_cons t rest
    · exact List.suffix_refl _

/-- **One parser after another.** -/
theorem bind (hp : Prolongs p q) (hf : ∀ a, Prolongs (f a) (g a)) :
    Prolongs (p >>= f) (q >>= g) where
  same tokens hne := by
    change andThen p f tokens ≠ .exhausted at hne
    change andThen q g tokens = andThen p f tokens
    unfold andThen at hne ⊢
    cases hpt : p tokens with
    | ok a rest issues =>
      have hsame := hp.same tokens (by rw [hpt]; nofun)
      rw [hpt] at hsame hne
      simp only [hsame] at hne ⊢
      -- the second parser has not run out either, or the two would have
      have hfa : f a rest ≠ .exhausted := by
        intro hexhausted
        rw [hexhausted] at hne
        exact hne rfl
      rw [(hf a).same rest hfa]
    | failed rest issues =>
      have hsame := hp.same tokens (by rw [hpt]; nofun)
      rw [hsame, hpt]
    | exhausted =>
      rw [hpt] at hne
      exact absurd rfl hne
  placed tokens := by
    change (andThen p f tokens).Placed tokens
    unfold andThen
    have hplaced := hp.placed tokens
    cases hpt : p tokens with
    | ok a rest issues =>
      rw [hpt] at hplaced
      exact ((hf a).placed rest).after hplaced issues
    | failed rest issues =>
      rw [hpt] at hplaced
      exact hplaced
    | exhausted => trivial

theorem map (h : α → β) (hp : Prolongs p q) : Prolongs (h <$> p) (h <$> q) :=
  hp.bind fun a => pure (h a)

theorem ite {c : Prop} [Decidable c] {p' q' : Parser α} (hp : Prolongs p q)
    (hp' : Prolongs p' q') : Prolongs (if c then p else p') (if c then q else q') := by
  split
  · exact hp
  · exact hp'

/-- A parser that first complains where there is no room left. -/
theorem limited {full : Prop} [Decidable full] {c : Complaint} {f g : Unit → Parser α}
    (hf : Prolongs (f ()) (g ())) :
    Prolongs (if full then Parser.next >>= fun t => Parser.complain t c >>= f else f ())
      (if full then Parser.next >>= fun t => Parser.complain t c >>= g else g ()) :=
  ite (next.bind fun t => (complain t c).bind fun _ => hf) hf

end Prolongs

/-! ## Going on after a failure -/

/-- Skipping leaves an end of the tokens. -/
theorem skipAfter_suffix (last : Token) (tokens : List Token) :
    skipAfter last tokens <:+ tokens := by
  induction tokens generalizing last with
  | nil => exact List.suffix_refl _
  | cons t rest ih =>
    rw [skipAfter]
    split
    · exact List.suffix_refl _
    · exact (ih t).trans (List.suffix_cons t rest)

theorem recover_suffix (tokens : List Token) : recover tokens <:+ tokens := by
  cases tokens with
  | nil => exact List.suffix_refl _
  | cons t rest => exact (skipAfter_suffix t rest).trans (List.suffix_cons t rest)

theorem Prolongs.recovering {p q : Parser α} (hp : Prolongs p q) :
    Prolongs (Parser.recovering p) (Parser.recovering q) where
  same tokens hne := by
    unfold Parser.recovering at hne ⊢
    cases hpt : p tokens with
    | ok a rest issues => rw [hp.same tokens (by rw [hpt]; nofun), hpt]
    | failed rest issues => rw [hp.same tokens (by rw [hpt]; nofun), hpt]
    | exhausted =>
      rw [hpt] at hne
      exact absurd rfl hne
  placed tokens := by
    unfold Parser.recovering
    have hplaced := hp.placed tokens
    cases hpt : p tokens with
    | ok a rest issues =>
      rw [hpt] at hplaced
      exact hplaced
    | failed rest issues =>
      rw [hpt] at hplaced
      exact (recover_suffix rest).trans hplaced.1
    | exhausted => trivial

/-! ## Expressions -/

/-- The parsers of expressions with two bounds. -/
structure ProlongsExpressions (n m : Nat) : Prop where
  assignment : Prolongs (assignment n) (assignment m)
  ternary : Prolongs (ternary n) (ternary m)
  tier : ∀ t, Prolongs (tier n t) (tier m t)
  tierRest : ∀ t left, Prolongs (tierRest n t left) (tierRest m t left)
  operand : ∀ t, Prolongs (operand n t) (operand m t)
  unary : Prolongs (unary n) (unary m)
  call : Prolongs (call n) (call m)
  callRest : ∀ e, Prolongs (callRest n e) (callRest m e)
  arguments : ∀ count, Prolongs (arguments n count) (arguments m count)
  primary : Prolongs (primary n) (primary m)

section

variable {n m : Nat} (ih : ProlongsExpressions n m)

include ih

theorem assignment_prolongs : Prolongs (assignment (n + 1)) (assignment (m + 1)) := by
  rw [assignment, assignment]
  refine .bind ih.ternary fun target => .bind (.accept _) fun equals => ?_
  cases equals with
  | none => exact .pure target
  | some equals =>
    refine .bind ih.assignment fun value => ?_
    split
    · exact .pure _
    · exact .bind (.complain _ _) fun _ => .pure target

theorem ternary_prolongs : Prolongs (ternary (n + 1)) (ternary (m + 1)) := by
  rw [ternary, ternary]
  refine .bind (ih.tier _) fun cond => .bind (.accept _) fun mark => ?_
  cases mark with
  | none => exact .pure cond
  | some mark =>
    exact .bind ih.ternary fun yes => .bind (.expect _ _) fun _ => .bind ih.ternary fun no =>
      .pure _

theorem tier_prolongs (t : Tier) : Prolongs (tier (n + 1) t) (tier (m + 1) t) := by
  rw [tier, tier]
  exact .bind (ih.operand t) fun left => ih.tierRest t left

theorem tierRest_prolongs (t : Tier) (left : Expr Unit) :
    Prolongs (tierRest (n + 1) t left) (tierRest (m + 1) t left) := by
  rw [tierRest, tierRest]
  refine .bind (.acceptWhere _) fun op => ?_
  cases op with
  | none => exact .pure left
  | some op => exact .bind (ih.operand t) fun right => ih.tierRest t _

theorem operand_prolongs (t : Tier) : Prolongs (operand (n + 1) t) (operand (m + 1) t) := by
  rw [operand, operand]
  split
  · exact ih.tier _
  · exact ih.unary

theorem unary_prolongs : Prolongs (unary (n + 1)) (unary (m + 1)) := by
  rw [unary, unary]
  refine .bind (.acceptWhere _) fun op => ?_
  cases op with
  | some op => exact .bind ih.unary fun right => .pure _
  | none => exact .bind .nextKind fun kind => .ite (.giveUp _) ih.call

theorem call_prolongs : Prolongs (call (n + 1)) (call (m + 1)) := by
  rw [call, call]
  exact .bind ih.primary fun e => ih.callRest e

theorem callRest_prolongs (e : Expr Unit) :
    Prolongs (callRest (n + 1) e) (callRest (m + 1) e) := by
  rw [callRest, callRest]
  refine .bind (.accept _) fun opening => ?_
  cases opening with
  | some opening =>
    -- what follows the arguments, whether there are any or not
    have hclosed : ∀ args : List (Expr Unit), Prolongs
        (expect .rightParen .argumentsEnd >>= fun paren => callRest n (.call e paren args))
        (expect .rightParen .argumentsEnd >>= fun paren => callRest m (.call e paren args)) :=
      fun args => .bind (.expect _ _) fun paren => ih.callRest _
    exact .bind .nextKind fun kind =>
      .ite (.bind (.pure []) hclosed) (.bind (ih.arguments 0) hclosed)
  | none =>
    refine .bind (.accept _) fun dot => ?_
    cases dot with
    | none => exact .pure e
    | some dot => exact .bind (.expect _ _) fun name => ih.callRest _

theorem arguments_prolongs (count : Nat) :
    Prolongs (arguments (n + 1) count) (arguments (m + 1) count) := by
  rw [arguments, arguments]
  refine .limited (.bind ih.assignment fun arg => .bind (.accept _) fun comma => ?_)
  cases comma with
  | none => exact .pure [arg]
  | some comma => exact .bind (ih.arguments _) fun more => .pure (arg :: more)

theorem primary_prolongs : Prolongs (primary (n + 1)) (primary (m + 1)) := by
  rw [primary, primary]
  refine .bind .atom fun e => ?_
  cases e with
  | some e => exact .pure e
  | none =>
    refine .bind (.accept _) fun paren => ?_
    cases paren with
    | none => exact .giveUp _
    | some paren => exact .bind ih.assignment fun inner => .bind (.expect _ _) fun _ => .pure _

end

/-- **The parsers of expressions answer alike within any bound that is
enough.** -/
theorem prolongsExpressions : ∀ {n m : Nat}, n ≤ m → ProlongsExpressions n m
  | 0, _, _ =>
    ⟨.stop, .stop, fun _ => .stop, fun _ _ => .stop, fun _ => .stop, .stop, .stop, fun _ => .stop,
      fun _ => .stop, .stop⟩
  | _ + 1, _ + 1, hle =>
    have ih := prolongsExpressions (Nat.le_of_succ_le_succ hle)
    ⟨assignment_prolongs ih, ternary_prolongs ih, tier_prolongs ih, tierRest_prolongs ih,
      operand_prolongs ih, unary_prolongs ih, call_prolongs ih, callRest_prolongs ih,
      arguments_prolongs ih, primary_prolongs ih⟩

/-! ## Statements -/

section

variable {n m : Nat} (hle : n ≤ m)

include hle

theorem varDeclaration_prolongs : Prolongs (varDeclaration n) (varDeclaration m) := by
  refine .bind (.expect _ _) fun name => .bind (.accept _) fun equals => ?_
  -- what follows the first value, whether there is one or not
  have hclosed : ∀ initial : Option (Expr Unit), Prolongs
      (expect .semicolon .variableEnd >>= fun _ => pure (Stmt.varDecl name initial))
      (expect .semicolon .variableEnd >>= fun _ => pure (Stmt.varDecl name initial)) :=
    fun initial => .bind (.expect _ _) fun _ => .pure _
  cases equals with
  | some equals => exact .bind (.map _ (prolongsExpressions hle).assignment) hclosed
  | none => exact .bind (.pure none) hclosed

theorem expressionStatement_prolongs :
    Prolongs (expressionStatement n) (expressionStatement m) :=
  .bind (prolongsExpressions hle).assignment fun _ => .bind (.expect _ _) fun _ => .pure _

theorem expressionUnless_prolongs (kind : Token.Kind) :
    Prolongs (expressionUnless kind n) (expressionUnless kind m) :=
  .bind .nextKind fun _ => .ite (.pure none) (.map _ (prolongsExpressions hle).assignment)

theorem printStatement_prolongs (keyword : Token) :
    Prolongs (printStatement n keyword) (printStatement m keyword) :=
  .bind (prolongsExpressions hle).assignment fun _ => .bind (.expect _ _) fun _ => .pure _

theorem returnStatement_prolongs (keyword : Token) :
    Prolongs (returnStatement n keyword) (returnStatement m keyword) :=
  .bind (expressionUnless_prolongs hle _) fun _ => .bind (.expect _ _) fun _ => .pure _

theorem forInitial_prolongs : Prolongs (forInitial n) (forInitial m) := by
  refine .bind (.accept _) fun semicolon => ?_
  cases semicolon with
  | some semicolon => exact .pure none
  | none =>
    refine .bind (.accept _) fun keyword => ?_
    cases keyword with
    | some keyword => exact .map _ (varDeclaration_prolongs hle)
    | none => exact .map _ (expressionStatement_prolongs hle)

end

theorem parameters_prolongs : ∀ {n m : Nat}, n ≤ m → ∀ count,
    Prolongs (parameters n count) (parameters m count)
  | 0, _, _, _ => .stop
  | n + 1, m + 1, hle, count => by
    rw [parameters, parameters]
    refine .limited (.bind (.expect _ _) fun param => .bind (.accept _) fun comma => ?_)
    cases comma with
    | none => exact .pure [param]
    | some comma =>
      exact .bind (parameters_prolongs (Nat.le_of_succ_le_succ hle) _) fun more =>
        .pure (param :: more)

/-- The parsers of statements and declarations with two bounds. -/
structure ProlongsStatements (n m : Nat) : Prop where
  declaration : Prolongs (declaration n) (declaration m)
  declared : Prolongs (declared n) (declared m)
  classDeclaration : Prolongs (classDeclaration n) (classDeclaration m)
  methods : Prolongs (methods n) (methods m)
  routine : ∀ kind, Prolongs (routine n kind) (routine m kind)
  blockBody : Prolongs (blockBody n) (blockBody m)
  declarations : ∀ closing, Prolongs (declarations n closing) (declarations m closing)
  statement : Prolongs (statement n) (statement m)
  forStatement : ∀ keyword, Prolongs (forStatement n keyword) (forStatement m keyword)
  ifStatement : ∀ keyword, Prolongs (ifStatement n keyword) (ifStatement m keyword)
  whileStatement : ∀ keyword, Prolongs (whileStatement n keyword) (whileStatement m keyword)

section

variable {n m : Nat} (hle : n ≤ m) (ih : ProlongsStatements n m)

include hle ih

theorem declared_prolongs : Prolongs (declared (n + 1)) (declared (m + 1)) := by
  rw [declared, declared]
  refine .bind (.accept _) fun keyword => ?_
  cases keyword with
  | some keyword => exact ih.classDeclaration
  | none =>
    refine .bind (.accept _) fun keyword => ?_
    cases keyword with
    | some keyword => exact .map _ (ih.routine _)
    | none =>
      refine .bind (.accept _) fun keyword => ?_
      cases keyword with
      | some keyword => exact varDeclaration_prolongs hle
      | none => exact ih.statement

omit hle in
theorem classDeclaration_prolongs :
    Prolongs (classDeclaration (n + 1)) (classDeclaration (m + 1)) := by
  rw [classDeclaration, classDeclaration]
  refine .bind (.expect _ _) fun name => .bind (.accept _) fun less => ?_
  -- the body of the class, whether it has a superclass or not
  have hbody : ∀ superclass : Option Token, Prolongs
      (expect .leftBrace .classBody >>= fun _ => methods n >>= fun ms =>
        expect .rightBrace .classEnd >>= fun _ =>
          pure (Stmt.classDecl name (superclass.map fun t => (t, ())) ms))
      (expect .leftBrace .classBody >>= fun _ => methods m >>= fun ms =>
        expect .rightBrace .classEnd >>= fun _ =>
          pure (Stmt.classDecl name (superclass.map fun t => (t, ())) ms)) :=
    fun superclass => .bind (.expect _ _) fun _ => .bind ih.methods fun _ =>
      .bind (.expect _ _) fun _ => .pure _
  cases less with
  | some less => exact .bind (.map _ (.expect _ _)) hbody
  | none => exact .bind (.pure none) hbody

omit hle in
theorem methods_prolongs : Prolongs (methods (n + 1)) (methods (m + 1)) := by
  rw [methods, methods]
  exact .bind .nextKind fun kind => .ite (.pure [])
    (.bind (ih.routine _) fun _ => .bind ih.methods fun _ => .pure _)

theorem routine_prolongs (kind : RoutineKind) :
    Prolongs (routine (n + 1) kind) (routine (m + 1) kind) := by
  rw [routine, routine]
  refine .bind (.expect _ _) fun name => .bind (.expect _ _) fun _ => .bind .nextKind fun next => ?_
  -- the body of the function, whether it has parameters or not
  have hbody : ∀ params : List Token, Prolongs
      (expect .rightParen .parametersEnd >>= fun _ => expect .leftBrace (.routineBody kind) >>=
        fun _ => blockBody n >>= fun body => pure (⟨name, params, body⟩ : Routine (Stmt Unit)))
      (expect .rightParen .parametersEnd >>= fun _ => expect .leftBrace (.routineBody kind) >>=
        fun _ => blockBody m >>= fun body => pure (⟨name, params, body⟩ : Routine (Stmt Unit))) :=
    fun params => .bind (.expect _ _) fun _ => .bind (.expect _ _) fun _ =>
      .bind ih.blockBody fun _ => .pure _
  exact .ite (.bind (.pure []) hbody) (.bind (parameters_prolongs hle 0) hbody)

omit hle in
theorem blockBody_prolongs : Prolongs (blockBody (n + 1)) (blockBody (m + 1)) := by
  rw [blockBody, blockBody]
  exact .bind (ih.declarations _) fun body => .bind (.expect _ _) fun _ => .pure body

omit hle in
theorem declarations_prolongs (closing : Option Token.Kind) :
    Prolongs (declarations (n + 1) closing) (declarations (m + 1) closing) := by
  rw [declarations, declarations]
  exact .bind .nextKind fun kind => .ite (.pure [])
    (.bind ih.declaration fun _ => .bind (ih.declarations _) fun _ => .pure _)

theorem statement_prolongs : Prolongs (statement (n + 1)) (statement (m + 1)) := by
  rw [statement, statement]
  refine .bind (.acceptWhere _) fun opening => ?_
  cases opening with
  | none => exact expressionStatement_prolongs hle
  | some opening =>
    dsimp only
    split
    · exact ih.forStatement opening
    · exact ih.ifStatement opening
    · exact printStatement_prolongs hle opening
    · exact returnStatement_prolongs hle opening
    · exact ih.whileStatement opening
    · exact .map _ ih.blockBody

theorem forStatement_prolongs (keyword : Token) :
    Prolongs (forStatement (n + 1) keyword) (forStatement (m + 1) keyword) := by
  rw [forStatement, forStatement]
  refine .bind (.expect _ _) fun _ => .bind (forInitial_prolongs hle) fun initial =>
    .bind (expressionUnless_prolongs hle _) fun cond => .bind (.expect _ _) fun _ =>
    .bind (expressionUnless_prolongs hle _) fun step => .bind (.expect _ _) fun _ =>
    .bind (.accept _) fun semicolon => ?_
  cases semicolon with
  | some semicolon => exact .pure _
  | none => exact .bind ih.statement fun body => .pure _

theorem ifStatement_prolongs (keyword : Token) :
    Prolongs (ifStatement (n + 1) keyword) (ifStatement (m + 1) keyword) := by
  rw [ifStatement, ifStatement]
  refine .bind (.expect _ _) fun _ => .bind (prolongsExpressions hle).assignment fun cond =>
    .bind (.expect _ _) fun _ => .bind ih.statement fun yes => .bind (.accept _) fun otherwise => ?_
  cases otherwise with
  | some otherwise => exact .bind ih.statement fun no => .pure _
  | none => exact .pure _

theorem whileStatement_prolongs (keyword : Token) :
    Prolongs (whileStatement (n + 1) keyword) (whileStatement (m + 1) keyword) := by
  rw [whileStatement, whileStatement]
  exact .bind (.expect _ _) fun _ => .bind (prolongsExpressions hle).assignment fun cond =>
    .bind (.expect _ _) fun _ => .bind ih.statement fun body => .pure _

end

/-- **The parsers of statements answer alike within any bound that is
enough.** -/
theorem prolongsStatements : ∀ {n m : Nat}, n ≤ m → ProlongsStatements n m
  | 0, _, _ =>
    ⟨.stop, .stop, .stop, .stop, fun _ => .stop, .stop, fun _ => .stop, .stop, fun _ => .stop,
      fun _ => .stop, fun _ => .stop⟩
  | _ + 1, _ + 1, hle =>
    have hle' := Nat.le_of_succ_le_succ hle
    have ih := prolongsStatements hle'
    ⟨.recovering ih.declared, declared_prolongs hle' ih, classDeclaration_prolongs ih,
      methods_prolongs ih, routine_prolongs hle' ih, blockBody_prolongs ih,
      declarations_prolongs ih, statement_prolongs hle' ih, forStatement_prolongs hle' ih,
      ifStatement_prolongs hle' ih, whileStatement_prolongs hle' ih⟩

end Parser

end TanLang
