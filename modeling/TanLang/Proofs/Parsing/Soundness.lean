import TanLang.Proofs.Grammar
import TanLang.Proofs.Parsing.Contract
/-!
# Parsing — what is accepted can be derived

Every parser of the library meets its contract: within the bound it is
given it comes to an answer, it complains before it gives up, and an
answer without a complaint has a derivation for exactly the tokens taken.
The left side of an assignment is judged after the fact, by its tree; so
the derivation of a tree that can be assigned to is taken apart first.

The bounds count what can be called before a token is read. An expression
needs seventeen of them, one for each level it goes through, a block
twenty-two, and each token read pays for thirty-two more.
-/

namespace TanLang

open Grammar TanLang.Parser

/-! ## Derivations of what can be assigned to -/

namespace Grammar

/-- No operator builds a variable or a property. -/
theorem node_isOperation (t : Tier) (left right : Expr Unit) (op : Token) :
    t.node left op right = .logical left op right ∨
      t.node left op right = .binary left op right := by
  cases t
  · exact .inl rfl
  · exact .inl rfl
  · exact .inr rfl
  · exact .inr rfl
  · exact .inr rfl
  · exact .inr rfl

/-- **A tree that is a variable was derived from its name alone.** -/
theorem Expression.of_var {name : Token} {level : Level} {w : List Token} {e : Expr Unit} :
    Expression level w e → e = .var name () → w = [name] ∧ name.kind = .identifier
  | .assign .. => nofun
  | .assignField .. => nofun
  | .assignNone h => of_var h
  | .choice .. => nofun
  | .choiceNone h => of_var h
  | .chain .. => fun he => by
    rcases node_isOperation _ _ _ _ with hn | hn <;> rw [hn] at he <;> cases he
  | .chainNone h => of_var h
  | .sign .. => nofun
  | .signNone h => of_var h
  | .invoke .. => nofun
  | .invokeWith .. => nofun
  | .property .. => nofun
  | .callNone h => of_var h
  | .constant .. => nofun
  | .receiver .. => nofun
  | .name h => fun he => by
    cases he
    exact ⟨rfl, h⟩
  | .grouping .. => nofun

/-- **A tree that is a property was derived from a call, a period and its
name.** -/
theorem Expression.of_get {object : Expr Unit} {name : Token} {level : Level} {w : List Token}
    {e : Expr Unit} :
    Expression level w e → e = .get object name →
      ∃ c dot, w = c ++ [dot, name] ∧ Expression .call c object ∧ dot.kind = .period ∧
        name.kind = .identifier
  | .assign .. => nofun
  | .assignField .. => nofun
  | .assignNone h => of_get h
  | .choice .. => nofun
  | .choiceNone h => of_get h
  | .chain .. => fun he => by
    rcases node_isOperation _ _ _ _ with hn | hn <;> rw [hn] at he <;> cases he
  | .chainNone h => of_get h
  | .sign .. => nofun
  | .signNone h => of_get h
  | .invoke .. => nofun
  | .invokeWith .. => nofun
  | .property hobject hdot hname => fun he => by
    cases he
    exact ⟨_, _, rfl, hobject, hdot, hname⟩
  | .callNone h => of_get h
  | .constant .. => nofun
  | .receiver .. => nofun
  | .name .. => nofun
  | .grouping .. => nofun

/-- **The derivation of an assignment** from that of its left side, if the
left side can be assigned to. -/
theorem Expression.of_assignTo {w v : List Token} {target value e : Expr Unit} {equals : Token}
    (htarget : Expression .choice w target) (hequals : equals.kind = .assign)
    (hvalue : Expression .assignment v value) (he : assignTo target value = some e) :
    Expression .assignment (w ++ equals :: v) e := by
  unfold assignTo at he
  split at he
  · obtain rfl := Option.some.inj he
    obtain ⟨rfl, hname⟩ := htarget.of_var rfl
    exact .assign hname hequals hvalue
  · obtain rfl := Option.some.inj he
    obtain ⟨c, dot, rfl, hobject, hdot, hname⟩ := htarget.of_get rfl
    rw [List.append_assoc]
    exact .assignField hobject hdot hname hequals hvalue
  · cases he

/-- A single token that the parser takes for an expression is derived as one. -/
theorem Expression.of_atomOf {t : Token} {e : Expr Unit} (h : atomOf t = some e) :
    Expression .primary [t] e := by
  unfold atomOf literalOf at h
  cases hk : t.kind <;> simp only [hk, reduceCtorEq, Option.some.injEq] at h <;> subst h
  · exact .name hk
  · exact .constant (.number hk)
  · exact .constant (.string hk)
  · exact .constant (.falsity hk)
  · exact .constant (.nothing hk)
  · exact .receiver hk
  · exact .constant (.truth hk)

/-- The parser's operators of a tier are the grammar's. -/
theorem takes_eq (t : Tier) (k : Token.Kind) : t.takes k = true ↔ k ∈ operators t := by
  cases t <;> simp [Tier.takes, operators, or_assoc]

end Grammar

namespace Parser

/-! ## Expressions -/

/-- How deep the parsers of a tier call each other before they read. -/
def Tier.rank : Tier → Nat
  | disjunction => 15
  | conjunction => 13
  | equality => 11
  | comparison => 9
  | sum => 7
  | product => 5

/-- **What the parsers of expressions do within a bound.** The operators
and calls after an expression extend its derivation to the left. -/
structure ReadsExpressions (n : Nat) : Prop where
  assignment : ∀ tokens, 32 * tokens.length + 17 ≤ n →
    Meets (assignment n) tokens 1 fun e w _ => Expression .assignment w e
  ternary : ∀ tokens, 32 * tokens.length + 16 ≤ n →
    Meets (ternary n) tokens 1 fun e w _ => Expression .choice w e
  tier : ∀ t tokens, 32 * tokens.length + t.rank ≤ n →
    Meets (tier n t) tokens 1 fun e w _ => Expression (.chain t) w e
  tierRest : ∀ t left tokens, 32 * tokens.length + 1 ≤ n →
    Meets (tierRest n t left) tokens 0 fun e v _ =>
      ∀ w, Expression (.chain t) w left → Expression (.chain t) (w ++ v) e
  operand : ∀ t tokens, 32 * tokens.length + t.rank ≤ n + 1 →
    Meets (operand n t) tokens 1 fun e w _ => Expression (between t) w e
  unary : ∀ tokens, 32 * tokens.length + 3 ≤ n →
    Meets (unary n) tokens 1 fun e w _ => Expression .sign w e
  call : ∀ tokens, 32 * tokens.length + 2 ≤ n →
    Meets (call n) tokens 1 fun e w _ => Expression .call w e
  callRest : ∀ callee tokens, 32 * tokens.length + 1 ≤ n →
    Meets (callRest n callee) tokens 0 fun e v _ =>
      ∀ w, Expression .call w callee → Expression .call (w ++ v) e
  arguments : ∀ count tokens, 32 * tokens.length + 18 ≤ n →
    Meets (arguments n count) tokens 1 fun args w _ =>
      Arguments w args ∧ count + args.length ≤ maxEntries
  primary : ∀ tokens, 32 * tokens.length + 1 ≤ n →
    Meets (primary n) tokens 1 fun e w _ => Expression .primary w e

section

variable {n : Nat} {tokens : List Token} (ih : ReadsExpressions n)

include ih

theorem assignment_meets (hn : 32 * tokens.length + 17 ≤ n + 1) :
    Meets (assignment (n + 1)) tokens 1 fun e w _ => Expression .assignment w e := by
  rw [assignment]
  refine Meets.bind (by omega) (ih.ternary tokens (by omega)) fun target rest hrest => ?_
  refine Meets.accept (fun _ => Meets.pure fun w h => ?_) fun equals rest' htokens hequals => ?_
  · rw [List.append_nil]
    exact .assignNone h
  · have hlength : rest.length = rest'.length + 1 := by rw [htokens]; rfl
    refine Meets.bind (by omega) (ih.assignment rest' (by omega)) fun value rest'' _ => ?_
    split
    case h_1 e he =>
      refine Meets.pure fun v hv w hw => ?_
      rw [List.append_nil]
      exact hw.of_assignTo hequals hv he
    case h_2 => exact Meets.complain (Meets.pure trivial)

theorem ternary_meets (hn : 32 * tokens.length + 16 ≤ n + 1) :
    Meets (ternary (n + 1)) tokens 1 fun e w _ => Expression .choice w e := by
  rw [ternary]
  refine Meets.bind (by omega) (ih.tier .disjunction tokens (by simp only [Tier.rank]; omega))
    fun cond rest hrest => ?_
  refine Meets.accept (fun _ => Meets.pure fun w h => ?_) fun mark rest' htokens hmark => ?_
  · rw [List.append_nil]
    exact .choiceNone h
  · have hlength : rest.length = rest'.length + 1 := by rw [htokens]; rfl
    refine Meets.bind (by omega) (ih.ternary rest' (by omega)) fun yes rest₁ hrest₁ => ?_
    refine Meets.expect fun colon rest₂ htokens₁ hcolon => ?_
    have hlength₁ : rest₁.length = rest₂.length + 1 := by rw [htokens₁]; rfl
    refine Meets.bind (by omega) (ih.ternary rest₂ (by omega)) fun no rest₃ _ => ?_
    refine Meets.pure fun wno hno wyes hyes wcond hcond => ?_
    rw [List.append_nil]
    exact .choice hcond hmark hyes hcolon hno

theorem tier_meets {t : Tier} (hn : 32 * tokens.length + t.rank ≤ n + 1) :
    Meets (tier (n + 1) t) tokens 1 fun e w _ => Expression (.chain t) w e := by
  rw [tier]
  refine Meets.bind (by omega) (ih.operand t tokens hn) fun left rest hrest => ?_
  have hrank : 5 ≤ t.rank := by cases t <;> simp [Tier.rank]
  refine (ih.tierRest t left rest (by omega)).mono (Nat.le_refl _) fun e v _ h w hw => ?_
  exact h w (.chainNone hw)

theorem tierRest_meets {t : Tier} {left : Expr Unit} (hn : 32 * tokens.length + 1 ≤ n + 1) :
    Meets (tierRest (n + 1) t left) tokens 0 fun e v _ =>
      ∀ w, Expression (.chain t) w left → Expression (.chain t) (w ++ v) e := by
  rw [tierRest]
  refine Meets.acceptWhere (fun _ => Meets.pure fun w h => ?_) fun op rest htokens hop => ?_
  · rw [List.append_nil]
    exact h
  · have hlength : tokens.length = rest.length + 1 := by rw [htokens]; rfl
    have hrank : t.rank ≤ 15 := by cases t <;> simp [Tier.rank]
    refine Meets.bind (by omega) (ih.operand t rest (by omega)) fun right rest' hrest' => ?_
    refine (ih.tierRest t _ rest' (by omega)).mono (Nat.le_refl _) fun e v _ h r hr l hl => ?_
    have hop' : op.kind ∈ operators t := (takes_eq t op.kind).1 hop
    simpa only [List.append_assoc, List.cons_append] using h _ (.chain hl hop' hr)

theorem operand_meets {t : Tier} (hn : 32 * tokens.length + t.rank ≤ n + 1 + 1) :
    Meets (operand (n + 1) t) tokens 1 fun e w _ => Expression (between t) w e := by
  rw [operand]
  cases t <;> simp only [Tier.rank] at hn
  case product => exact ih.unary tokens (by omega)
  all_goals exact ih.tier _ tokens (by simp only [Tier.rank]; omega)

theorem unary_meets (hn : 32 * tokens.length + 3 ≤ n + 1) :
    Meets (unary (n + 1)) tokens 1 fun e w _ => Expression .sign w e := by
  rw [unary]
  refine Meets.acceptWhere (fun _ => Meets.nextKind ?_) fun op rest htokens hop => ?_
  · split
    · exact Meets.giveUp
    · exact (ih.call tokens (by omega)).mono (Nat.le_refl _) fun _ _ _ h => .signNone h
  · have hlength : tokens.length = rest.length + 1 := by rw [htokens]; rfl
    refine Meets.bind (by omega) (ih.unary rest (by omega)) fun right rest' _ => ?_
    refine Meets.pure fun w h => ?_
    rw [List.append_nil]
    exact .sign (by simpa using hop) h

theorem call_meets (hn : 32 * tokens.length + 2 ≤ n + 1) :
    Meets (call (n + 1)) tokens 1 fun e w _ => Expression .call w e := by
  rw [call]
  refine Meets.bind (by omega) (ih.primary tokens (by omega)) fun e rest hrest => ?_
  exact (ih.callRest e rest (by omega)).mono (Nat.le_refl _) fun e' v _ h w hw =>
    h w (.callNone hw)

theorem callRest_meets {callee : Expr Unit} (hn : 32 * tokens.length + 1 ≤ n + 1) :
    Meets (callRest (n + 1) callee) tokens 0 fun e v _ =>
      ∀ w, Expression .call w callee → Expression .call (w ++ v) e := by
  rw [callRest]
  refine Meets.accept (fun _ => ?_) fun opening rest htokens hopening => ?_
  · refine Meets.accept (fun _ => Meets.pure fun w h => ?_) fun dot rest htokens hdot => ?_
    · rw [List.append_nil]
      exact h
    · have hlength : tokens.length = rest.length + 1 := by rw [htokens]; rfl
      refine Meets.expect fun name rest' htokens' hname => ?_
      have hlength' : rest.length = rest'.length + 1 := by rw [htokens']; rfl
      refine (ih.callRest _ rest' (by omega)).mono (Nat.le_refl _) fun e v _ h w hw => ?_
      simpa only [List.append_assoc, List.cons_append, List.nil_append]
        using h _ (.property hw hdot hname)
  · have hlength : tokens.length = rest.length + 1 := by rw [htokens]; rfl
    refine Meets.nextKind ?_
    -- what follows the arguments, whether there are any or not
    have hclosed : ∀ (args : List (Expr Unit)) (rest' : List Token),
        rest'.length ≤ rest.length →
        Meets (do
          let paren ← expect .rightParen .argumentsEnd
          callRest n (.call callee paren args)) rest' 0 fun e v _ =>
          ∃ closing v', v = closing :: v' ∧ closing.kind = .rightParen ∧
            ∀ w, Expression .call w (.call callee closing args) →
              Expression .call (w ++ v') e := by
      intro args rest' hrest'
      refine Meets.expect fun closing rest'' htokens' hclosing => ?_
      have hlength' : rest'.length = rest''.length + 1 := by rw [htokens']; rfl
      exact (ih.callRest _ rest'' (by omega)).mono (Nat.le_refl _) fun e v _ h =>
        ⟨closing, v, rfl, hclosing, h⟩
    split
    · refine Meets.step (w := []) rfl rfl ?_
      refine (hclosed [] rest (Nat.le_refl _)).mono (Nat.le_refl _) ?_
      rintro e v _ ⟨closing, v', rfl, hclosing, h⟩ w hw
      simpa only [List.append_assoc, List.cons_append, List.nil_append]
        using h _ (.invoke hw hopening hclosing)
    · refine Meets.bind (by omega) (ih.arguments 0 rest (by omega)) fun args rest' hrest' => ?_
      refine (hclosed args rest' (by omega)).mono (Nat.le_refl _) ?_
      rintro e v _ ⟨closing, v', rfl, hclosing, h⟩ a ⟨hargs, hcount⟩ w hw
      rw [Nat.zero_add] at hcount
      simpa only [List.append_assoc, List.cons_append, List.nil_append]
        using h _ (.invokeWith hw hopening hargs hcount hclosing)

theorem arguments_meets {count : Nat} (hn : 32 * tokens.length + 18 ≤ n + 1) :
    Meets (arguments (n + 1) count) tokens 1 fun args w _ =>
      Arguments w args ∧ count + args.length ≤ maxEntries := by
  rw [arguments]
  refine Meets.limited ?_
  refine Meets.bind (by omega) (ih.assignment tokens (by omega)) fun arg rest hrest => ?_
  refine Meets.accept (fun _ => Meets.pure fun w h hroom => ?_) fun comma rest' htokens hcomma => ?_
  · rw [List.append_nil]
    exact ⟨.one h, Nat.lt_of_not_le hroom⟩
  · have hlength : rest.length = rest'.length + 1 := by rw [htokens]; rfl
    refine Meets.bind (by omega) (ih.arguments (count + 1) rest' (by omega)) fun more rest'' _ => ?_
    refine Meets.pure fun v hmore w harg hroom => ?_
    rw [List.append_nil]
    exact ⟨.more harg hcomma hmore.1, by simp only [List.length_cons]; omega⟩

theorem primary_meets (hn : 32 * tokens.length + 1 ≤ n + 1) :
    Meets (primary (n + 1)) tokens 1 fun e w _ => Expression .primary w e := by
  rw [primary]
  refine Meets.atom ?_ fun t rest e _ he => Meets.pure (.of_atomOf he)
  refine Meets.accept (fun _ => Meets.giveUp) fun opening rest htokens hopening => ?_
  have hlength : tokens.length = rest.length + 1 := by rw [htokens]; rfl
  refine Meets.bind (by omega) (ih.assignment rest (by omega)) fun inner rest' _ => ?_
  refine Meets.expect fun closing rest'' _ hclosing => Meets.pure fun w h => ?_
  exact .grouping hopening h hclosing

end

/-- **The parsers of expressions meet their contracts**, whatever the bound. -/
theorem readsExpressions : ∀ n, ReadsExpressions n
  | 0 =>
    { assignment := by omega, ternary := by omega, tier := by intro t; cases t <;> simp [Tier.rank],
      tierRest := by omega, operand := by intro t; cases t <;> simp [Tier.rank],
      unary := by omega, call := by omega, callRest := by omega, arguments := by omega,
      primary := by omega }
  | n + 1 =>
    have ih := readsExpressions n
    { assignment := fun _ => assignment_meets ih
      ternary := fun _ => ternary_meets ih
      tier := fun _ _ => tier_meets ih
      tierRest := fun _ _ _ => tierRest_meets ih
      operand := fun _ _ => operand_meets ih
      unary := fun _ => unary_meets ih
      call := fun _ => call_meets ih
      callRest := fun _ _ => callRest_meets ih
      arguments := fun _ _ => arguments_meets ih
      primary := fun _ => primary_meets ih }

/-! ## Statements -/

/-- No `else` is ahead where a statement ends in an open `if`. -/
def ClosedBefore (s : Stmt Unit) (rest : List Token) : Prop :=
  s.trailingIf = true → ∀ t ∈ rest.head?, t.kind ≠ .elseWord

/-- **What a statement that was read is**: derived, with every `else` at its
nearest `if`, also one that may be ahead. -/
structure ReadStatement (w : List Token) (s : Stmt Unit) (rest : List Token) : Prop where
  derived : Statement w s
  nearest : s.NearestElse
  closed : ClosedBefore s rest

theorem nearestElse_of_variable {w : List Token} {s : Stmt Unit} (h : Variable w s) :
    s.NearestElse := by
  cases h <;> trivial

theorem nearestElse_of_effect {w : List Token} {s : Stmt Unit} (h : Effect w s) :
    s.NearestElse := by
  cases h; trivial

theorem not_trailingIf_of_effect {w : List Token} {s : Stmt Unit} (h : Effect w s) :
    s.trailingIf = false := by
  cases h; rfl

/-- A statement that cannot take an `else` is closed before anything. -/
theorem closedBefore_of_not_trailingIf {s : Stmt Unit} {rest : List Token}
    (h : s.trailingIf = false) : ClosedBefore s rest := by
  intro ht
  rw [h] at ht
  cases ht

section

variable {n : Nat} {tokens : List Token}

theorem expressionStatement_meets (hn : 32 * tokens.length + 17 ≤ n) :
    Meets (expressionStatement n) tokens 1 fun s w _ => Effect w s := by
  refine Meets.bind (by omega) ((readsExpressions n).assignment tokens hn) fun e rest _ => ?_
  refine Meets.expect fun semicolon rest' _ hsemicolon => Meets.pure fun w h => ?_
  exact .intro h hsemicolon

theorem varDeclaration_meets (hn : 32 * tokens.length ≤ n) :
    Meets (varDeclaration n) tokens 1 fun s w _ =>
      ∀ keyword : Token, keyword.kind = .varWord → Variable (keyword :: w) s := by
  refine Meets.expect fun name rest htokens hname => ?_
  have hlength : tokens.length = rest.length + 1 := by rw [htokens]; rfl
  refine Meets.accept (fun _ => ?_) fun equals rest' htokens' hequals => ?_
  · refine Meets.step (w := []) rfl rfl (Meets.expect fun semicolon rest' _ hsemicolon => ?_)
    exact Meets.pure fun keyword hkeyword => .plain hkeyword hname hsemicolon
  · have hlength' : rest.length = rest'.length + 1 := by rw [htokens']; rfl
    refine Meets.bind (by omega) (Meets.map ((readsExpressions n).assignment rest' (by omega)))
      fun initial rest'' _ => ?_
    refine Meets.expect fun semicolon rest₃ _ hsemicolon => Meets.pure ?_
    rintro w ⟨e, rfl, h⟩ keyword hkeyword
    exact .initial hkeyword hname hequals h hsemicolon

theorem expressionUnless_meets {kind : Token.Kind} (hn : 32 * tokens.length + 17 ≤ n) :
    Meets (expressionUnless kind n) tokens 0 fun e w _ => Optional w e := by
  refine Meets.nextKind ?_
  split
  · exact Meets.pure .none
  · refine (Meets.map ((readsExpressions n).assignment tokens hn)).mono (Nat.zero_le 1) ?_
    rintro _ w _ ⟨e, rfl, h⟩
    exact .some h

theorem printStatement_meets {keyword : Token} (hkeyword : keyword.kind = .printWord)
    (hn : 32 * tokens.length + 17 ≤ n) :
    Meets (printStatement n keyword) tokens 1 fun s w rest =>
      ReadStatement (keyword :: w) s rest := by
  refine Meets.bind (by omega) ((readsExpressions n).assignment tokens hn) fun e rest _ => ?_
  refine Meets.expect fun semicolon rest' _ hsemicolon => Meets.pure fun w h => ?_
  exact ⟨.print hkeyword h hsemicolon, trivial, closedBefore_of_not_trailingIf rfl⟩

theorem returnStatement_meets {keyword : Token} (hkeyword : keyword.kind = .returnWord)
    (hn : 32 * tokens.length + 17 ≤ n) :
    Meets (returnStatement n keyword) tokens 0 fun s w rest =>
      ReadStatement (keyword :: w) s rest := by
  refine Meets.bind (by omega) (expressionUnless_meets hn) fun e rest _ => ?_
  refine Meets.expect fun semicolon rest' _ hsemicolon => Meets.pure fun w h => ?_
  exact ⟨.ret hkeyword h hsemicolon, trivial, closedBefore_of_not_trailingIf rfl⟩

theorem forInitial_meets (hn : 32 * tokens.length + 17 ≤ n) :
    Meets (forInitial n) tokens 1 fun i w _ => ForInitial w i ∧ Stmt.NearestElseOption i := by
  refine Meets.accept (fun _ => ?_) fun semicolon rest _ hsemicolon => ?_
  · refine Meets.accept (fun _ => ?_) fun keyword rest htokens hkeyword => ?_
    · refine (Meets.map (expressionStatement_meets hn)).mono (Nat.le_refl _) ?_
      rintro _ w _ ⟨s, rfl, h⟩
      exact ⟨.effect h, nearestElse_of_effect h⟩
    · have hlength : tokens.length = rest.length + 1 := by rw [htokens]; rfl
      refine (Meets.map (varDeclaration_meets (by omega))).mono (Nat.zero_le 1) ?_
      rintro _ w _ ⟨s, rfl, h⟩
      exact ⟨.declared (h keyword hkeyword), nearestElse_of_variable (h keyword hkeyword)⟩
  · exact Meets.pure ⟨.none hsemicolon, trivial⟩

theorem parameters_meets : ∀ {n count : Nat} {tokens : List Token},
    32 * tokens.length + 1 ≤ n →
    Meets (parameters n count) tokens 1 fun params w _ =>
      Names w params ∧ count + params.length ≤ maxEntries := by
  intro n
  induction n with
  | zero => intro count tokens hn; omega
  | succ n ih =>
    intro count tokens hn
    rw [parameters]
    refine Meets.limited ?_
    refine Meets.expect fun param rest htokens hparam => ?_
    have hlength : tokens.length = rest.length + 1 := by rw [htokens]; rfl
    refine Meets.accept (fun _ => Meets.pure fun hroom => ⟨.one hparam, Nat.lt_of_not_le hroom⟩)
      fun comma rest' htokens' hcomma => ?_
    have hlength' : rest.length = rest'.length + 1 := by rw [htokens']; rfl
    refine Meets.bind (by omega) (ih (by omega)) fun more rest'' _ => ?_
    refine Meets.pure fun w hmore hroom => ?_
    rw [List.append_nil]
    exact ⟨.more hparam hcomma hmore.1, by simp only [List.length_cons]; omega⟩

end

/-- **What the parsers of statements and declarations do within a bound.** -/
structure ReadsStatements (n : Nat) : Prop where
  declaration : ∀ tokens, tokens ≠ [] → 32 * tokens.length + 20 ≤ n →
    Meets (declaration n) tokens 1 fun o w _ =>
      ∃ s, o = some s ∧ Declaration w s ∧ s.NearestElse
  declared : ∀ tokens, 32 * tokens.length + 19 ≤ n →
    Meets (declared n) tokens 1 fun s w _ => Declaration w s ∧ s.NearestElse
  classDeclaration : ∀ tokens, 32 * tokens.length + 1 ≤ n →
    Meets (classDeclaration n) tokens 1 fun s w _ =>
      (∀ keyword : Token, keyword.kind = .classWord → Declaration (keyword :: w) s) ∧
        s.NearestElse
  methods : ∀ tokens, 32 * tokens.length + 2 ≤ n →
    Meets (methods n) tokens 0 fun ms w _ => Methods w ms ∧ Stmt.NearestElseMethods ms
  routine : ∀ kind tokens, 32 * tokens.length + 1 ≤ n →
    Meets (routine n kind) tokens 1 fun r w _ => Method w r ∧ Stmt.NearestElseRoutine r
  blockBody : ∀ tokens, 32 * tokens.length + 22 ≤ n →
    Meets (blockBody n) tokens 1 fun ss w _ => Body w ss ∧ Stmt.NearestElseAll ss
  declarations : ∀ closing tokens, 32 * tokens.length + 21 ≤ n →
    Meets (declarations n closing) tokens 0 fun ss w rest =>
      (Declarations w ss ∧ Stmt.NearestElseAll ss) ∧
        (rest.head?.map Token.kind = none ∨ rest.head?.map Token.kind = closing)
  statement : ∀ tokens, 32 * tokens.length + 18 ≤ n →
    Meets (statement n) tokens 1 fun s w rest => ReadStatement w s rest
  forStatement : ∀ (keyword : Token) (tokens : List Token), keyword.kind = .forWord →
    32 * tokens.length + 1 ≤ n →
    Meets (forStatement n keyword) tokens 0 fun s w rest => ReadStatement (keyword :: w) s rest
  ifStatement : ∀ (keyword : Token) (tokens : List Token), keyword.kind = .ifWord →
    32 * tokens.length + 1 ≤ n →
    Meets (ifStatement n keyword) tokens 0 fun s w rest => ReadStatement (keyword :: w) s rest
  whileStatement : ∀ (keyword : Token) (tokens : List Token), keyword.kind = .whileWord →
    32 * tokens.length + 1 ≤ n →
    Meets (whileStatement n keyword) tokens 0 fun s w rest =>
      ReadStatement (keyword :: w) s rest

section

variable {n : Nat} {tokens : List Token} (ih : ReadsStatements n)

include ih

theorem declared_meets (hn : 32 * tokens.length + 19 ≤ n + 1) :
    Meets (declared (n + 1)) tokens 1 fun s w _ => Declaration w s ∧ s.NearestElse := by
  rw [declared]
  refine Meets.accept (fun _ => ?_) fun keyword rest htokens hkeyword => ?_
  · refine Meets.accept (fun _ => ?_) fun keyword rest htokens hkeyword => ?_
    · refine Meets.accept (fun _ => ?_) fun keyword rest htokens hkeyword => ?_
      · exact (ih.statement tokens (by omega)).mono (Nat.le_refl _) fun s w rest h =>
          ⟨.statement h.derived, h.nearest⟩
      · have hlength : tokens.length = rest.length + 1 := by rw [htokens]; rfl
        exact (varDeclaration_meets (by omega)).mono (Nat.zero_le 1) fun s w rest h =>
          ⟨.varDecl (h keyword hkeyword), nearestElse_of_variable (h keyword hkeyword)⟩
    · have hlength : tokens.length = rest.length + 1 := by rw [htokens]; rfl
      refine (Meets.map (ih.routine .function rest (by omega))).mono (Nat.zero_le 1) ?_
      rintro _ w _ ⟨r, rfl, h⟩
      exact ⟨.function hkeyword h.1, h.2⟩
  · have hlength : tokens.length = rest.length + 1 := by rw [htokens]; rfl
    exact (ih.classDeclaration rest (by omega)).mono (Nat.zero_le 1) fun s w rest h =>
      ⟨h.1 keyword hkeyword, h.2⟩

theorem classDeclaration_meets (hn : 32 * tokens.length + 1 ≤ n + 1) :
    Meets (classDeclaration (n + 1)) tokens 1 fun s w _ =>
      (∀ keyword : Token, keyword.kind = .classWord → Declaration (keyword :: w) s) ∧
        s.NearestElse := by
  rw [classDeclaration]
  refine Meets.expect fun name rest htokens hname => ?_
  have hlength : tokens.length = rest.length + 1 := by rw [htokens]; rfl
  -- the body of the class, after its superclass if it has one
  have hbody : ∀ (superclass : Option Token) (rest' : List Token),
      rest'.length ≤ rest.length →
      Meets (do
        let _ ← expect .leftBrace .classBody
        let methods ← methods n
        let _ ← expect .rightBrace .classEnd
        return Stmt.classDecl name (superclass.map fun t => (t, ())) methods) rest' 0
        fun s v _ =>
          (∀ (keyword : Token) (u : List Token), keyword.kind = .classWord →
            Superclass u (superclass.map fun t => (t, ())) →
              Declaration (keyword :: name :: (u ++ v)) s) ∧ s.NearestElse := by
    intro superclass rest' hrest'
    refine Meets.expect fun opening rest₁ htokens₁ hopening => ?_
    have hlength₁ : rest'.length = rest₁.length + 1 := by rw [htokens₁]; rfl
    refine Meets.bind (by omega) (ih.methods rest₁ (by omega)) fun ms rest₂ hrest₂ => ?_
    refine Meets.expect fun closing rest₃ _ hclosing => Meets.pure fun m hms => ?_
    exact ⟨fun keyword u hkeyword hsuper =>
      .classDecl hkeyword hname hsuper hopening hms.1 hclosing, hms.2⟩
  refine Meets.accept (fun _ => ?_) fun less rest' htokens' hless => ?_
  · refine Meets.step (w := []) rfl rfl ?_
    refine (hbody none rest (Nat.le_refl _)).mono (Nat.le_refl _) fun s v _ h => ?_
    exact ⟨fun keyword hkeyword => h.1 keyword [] hkeyword .none, h.2⟩
  · have hlength' : rest.length = rest'.length + 1 := by rw [htokens']; rfl
    refine Meets.bind (by omega) (Meets.map Meets.expect_last) fun superclass rest'' hrest'' => ?_
    refine (hbody superclass rest'' (by omega)).mono (Nat.le_refl _) ?_
    rintro s v _ h w ⟨t, rfl, rfl, ht⟩
    exact ⟨fun keyword hkeyword => h.1 keyword [less, t] hkeyword (.some hless ht), h.2⟩

theorem methods_meets (hn : 32 * tokens.length + 2 ≤ n + 1) :
    Meets (methods (n + 1)) tokens 0 fun ms w _ =>
      Methods w ms ∧ Stmt.NearestElseMethods ms := by
  rw [methods]
  refine Meets.nextKind ?_
  split
  · exact Meets.pure ⟨.nil, trivial⟩
  · refine Meets.bind (by omega) (ih.routine .method tokens (by omega)) fun m rest hrest => ?_
    refine Meets.bind (by omega) (ih.methods rest (by omega)) fun ms rest' _ => ?_
    refine Meets.pure fun v hms w hm => ?_
    rw [List.append_nil]
    exact ⟨.cons hm.1 hms.1, hm.2, hms.2⟩

theorem routine_meets {kind : RoutineKind} (hn : 32 * tokens.length + 1 ≤ n + 1) :
    Meets (routine (n + 1) kind) tokens 1 fun r w _ =>
      Method w r ∧ Stmt.NearestElseRoutine r := by
  rw [routine]
  refine Meets.expect fun name rest htokens hname => ?_
  have hlength : tokens.length = rest.length + 1 := by rw [htokens]; rfl
  refine Meets.expect fun opening rest₁ htokens₁ hopening => Meets.nextKind ?_
  have hlength₁ : rest.length = rest₁.length + 1 := by rw [htokens₁]; rfl
  -- what follows the parameters, whether there are any or not
  have hbody : ∀ (params rest' : List Token), rest'.length ≤ rest₁.length →
      Meets (do
        let _ ← expect .rightParen .parametersEnd
        let _ ← expect .leftBrace (.routineBody kind)
        let body ← blockBody n
        return (⟨name, params, body⟩ : Routine (Stmt Unit))) rest' 0 fun r v _ =>
        (∀ p, Parameters p params → Method (name :: opening :: (p ++ v)) r) ∧
          Stmt.NearestElseRoutine r := by
    intro params rest' hrest'
    refine Meets.expect fun closing rest₂ htokens₂ hclosing => ?_
    have hlength₂ : rest'.length = rest₂.length + 1 := by rw [htokens₂]; rfl
    refine Meets.expect fun brace rest₃ htokens₃ hbrace => ?_
    have hlength₃ : rest₂.length = rest₃.length + 1 := by rw [htokens₃]; rfl
    refine Meets.bind (by omega) (ih.blockBody rest₃ (by omega)) fun body rest₄ _ => Meets.pure ?_
    intro b hb
    rw [List.append_nil]
    exact ⟨fun p hp => .intro hname hopening hp hclosing hbrace hb.1, hb.2⟩
  split
  · refine Meets.step (w := []) rfl rfl ?_
    refine (hbody [] rest₁ (Nat.le_refl _)).mono (Nat.le_refl _) fun r v _ h => ?_
    exact ⟨h.1 [] .none, h.2⟩
  · refine Meets.bind (by omega) (parameters_meets (by omega)) fun params rest' hrest' => ?_
    refine (hbody params rest' (by omega)).mono (Nat.le_refl _) ?_
    rintro r v _ h p ⟨hp, hcount⟩
    rw [Nat.zero_add] at hcount
    exact ⟨h.1 p (.some hp hcount), h.2⟩

theorem blockBody_meets (hn : 32 * tokens.length + 22 ≤ n + 1) :
    Meets (blockBody (n + 1)) tokens 1 fun ss w _ => Body w ss ∧ Stmt.NearestElseAll ss := by
  rw [blockBody]
  refine Meets.bind_add (k := 0) (j := 1) (ih.declarations _ tokens (by omega))
    fun ss rest _ => ?_
  refine Meets.expect fun closing rest' _ hclosing => Meets.pure fun w h => ?_
  exact ⟨.intro h.1.1 hclosing, h.1.2⟩

theorem declarations_meets {closing : Option Token.Kind} (hn : 32 * tokens.length + 21 ≤ n + 1) :
    Meets (declarations (n + 1) closing) tokens 0 fun ss w rest =>
      (Declarations w ss ∧ Stmt.NearestElseAll ss) ∧
        (rest.head?.map Token.kind = none ∨ rest.head?.map Token.kind = closing) := by
  rw [declarations]
  refine Meets.nextKind ?_
  split
  case isTrue hend => exact Meets.pure ⟨⟨.nil, trivial⟩, hend⟩
  case isFalse hmore =>
    have hne : tokens ≠ [] := by
      rintro rfl
      exact hmore (.inl rfl)
    refine Meets.bind (by omega) (ih.declaration tokens hne (by omega)) fun first rest hrest => ?_
    refine Meets.bind (by omega) (ih.declarations closing rest (by omega)) fun ss rest' _ => ?_
    refine Meets.pure ?_
    rintro v ⟨⟨hss, hnearest⟩, hend⟩ w ⟨s, rfl, hs, hnear⟩
    rw [List.append_nil]
    exact ⟨⟨.cons hs hss, hnear, hnearest⟩, hend⟩

theorem statement_meets (hn : 32 * tokens.length + 18 ≤ n + 1) :
    Meets (statement (n + 1)) tokens 1 fun s w rest => ReadStatement w s rest := by
  rw [statement]
  refine Meets.acceptWhere (fun _ => ?_) fun opening rest htokens hopening => ?_
  · exact (expressionStatement_meets (by omega)).mono (Nat.le_refl _) fun s w rest h =>
      ⟨.effect h, nearestElse_of_effect h,
        closedBefore_of_not_trailingIf (not_trailingIf_of_effect h)⟩
  · have hlength : tokens.length = rest.length + 1 := by rw [htokens]; rfl
    dsimp only
    split
    case h_1 hkind => exact ih.forStatement opening rest hkind (by omega)
    case h_2 hkind => exact ih.ifStatement opening rest hkind (by omega)
    case h_3 hkind =>
      exact (printStatement_meets hkind (by omega)).mono (Nat.zero_le 1) fun _ _ _ h => h
    case h_4 hkind => exact returnStatement_meets hkind (by omega)
    case h_5 hkind => exact ih.whileStatement opening rest hkind (by omega)
    case h_6 hfor hif hprint hreturn hwhile =>
      have hbrace : opening.kind = .leftBrace := by
        cases hk : opening.kind <;> simp_all [opensStatement]
      refine (Meets.map (ih.blockBody rest (by omega))).mono (Nat.zero_le 1) ?_
      rintro _ w _ ⟨body, rfl, h⟩
      exact ⟨.block hbrace h.1, h.2, closedBefore_of_not_trailingIf rfl⟩

theorem forStatement_meets {keyword : Token} (hkeyword : keyword.kind = .forWord)
    (hn : 32 * tokens.length + 1 ≤ n + 1) :
    Meets (forStatement (n + 1) keyword) tokens 0 fun s w rest =>
      ReadStatement (keyword :: w) s rest := by
  rw [forStatement]
  refine Meets.expect fun opening rest htokens hopening => ?_
  have hlength : tokens.length = rest.length + 1 := by rw [htokens]; rfl
  refine Meets.bind (by omega) (forInitial_meets (by omega)) fun initial rest₁ hrest₁ => ?_
  refine Meets.bind (by omega) (expressionUnless_meets (by omega)) fun cond rest₂ hrest₂ => ?_
  refine Meets.expect fun semicolon rest₃ htokens₃ hsemicolon => ?_
  have hlength₃ : rest₂.length = rest₃.length + 1 := by rw [htokens₃]; rfl
  refine Meets.bind (by omega) (expressionUnless_meets (by omega)) fun step rest₄ hrest₄ => ?_
  refine Meets.expect fun closing rest₅ htokens₅ hclosing => ?_
  have hlength₅ : rest₄.length = rest₅.length + 1 := by rw [htokens₅]; rfl
  refine Meets.accept (fun _ => ?_) fun empty rest₆ _ hempty => ?_
  · refine Meets.bind (by omega) (ih.statement rest₅ (by omega)) fun body rest₆ _ => Meets.pure ?_
    intro b hbody s hstep c hcond i hinitial
    have hclauses := ForClauses.intro hopening hinitial.1 hcond hsemicolon hstep hclosing
    refine ⟨?_, ⟨hinitial.2, hbody.nearest⟩, hbody.closed⟩
    simpa only [List.append_assoc, List.cons_append, List.nil_append, List.append_nil]
      using Statement.forLoop hkeyword hclauses hbody.derived
  · refine Meets.pure fun s hstep c hcond i hinitial => ?_
    have hclauses := ForClauses.intro hopening hinitial.1 hcond hsemicolon hstep hclosing
    refine ⟨?_, ⟨hinitial.2, trivial⟩, closedBefore_of_not_trailingIf rfl⟩
    simpa only [List.append_assoc, List.cons_append, List.nil_append, List.append_nil]
      using Statement.forEmpty hkeyword hclauses hempty

theorem ifStatement_meets {keyword : Token} (hkeyword : keyword.kind = .ifWord)
    (hn : 32 * tokens.length + 1 ≤ n + 1) :
    Meets (ifStatement (n + 1) keyword) tokens 0 fun s w rest =>
      ReadStatement (keyword :: w) s rest := by
  rw [ifStatement]
  refine Meets.expect fun opening rest htokens hopening => ?_
  have hlength : tokens.length = rest.length + 1 := by rw [htokens]; rfl
  refine Meets.bind (by omega) ((readsExpressions n).assignment rest (by omega))
    fun cond rest₁ hrest₁ => ?_
  refine Meets.expect fun closing rest₂ htokens₂ hclosing => ?_
  have hlength₂ : rest₁.length = rest₂.length + 1 := by rw [htokens₂]; rfl
  refine Meets.bind (by omega) (ih.statement rest₂ (by omega)) fun yes rest₃ hrest₃ => ?_
  refine Meets.accept (fun hnone => ?_) fun otherwise rest₄ htokens₄ hotherwise => ?_
  · refine Meets.pure fun y hyes c hcond => ?_
    rw [List.append_nil]
    exact ⟨.branch hkeyword hopening hcond hclosing hyes.derived,
      ⟨hyes.nearest, trivial, fun h => absurd h Bool.false_ne_true⟩, fun _ => hnone⟩
  · have hlength₄ : rest₃.length = rest₄.length + 1 := by rw [htokens₄]; rfl
    refine Meets.bind (by omega) (ih.statement rest₄ (by omega)) fun no rest₅ _ => Meets.pure ?_
    intro m hno y hyes c hcond
    -- the `else` was ahead when the first branch was read, so that one is closed
    have hclosed : yes.trailingIf = false := by
      refine Bool.eq_false_iff.2 fun h => ?_
      exact hyes.closed h otherwise (by rw [htokens₄]; rfl) hotherwise
    rw [List.append_nil]
    exact ⟨.branchElse hkeyword hopening hcond hclosing hyes.derived hotherwise hno.derived,
      ⟨hyes.nearest, hno.nearest, fun _ => hclosed⟩, hno.closed⟩

theorem whileStatement_meets {keyword : Token} (hkeyword : keyword.kind = .whileWord)
    (hn : 32 * tokens.length + 1 ≤ n + 1) :
    Meets (whileStatement (n + 1) keyword) tokens 0 fun s w rest =>
      ReadStatement (keyword :: w) s rest := by
  rw [whileStatement]
  refine Meets.expect fun opening rest htokens hopening => ?_
  have hlength : tokens.length = rest.length + 1 := by rw [htokens]; rfl
  refine Meets.bind (by omega) ((readsExpressions n).assignment rest (by omega))
    fun cond rest₁ hrest₁ => ?_
  refine Meets.expect fun closing rest₂ htokens₂ hclosing => ?_
  have hlength₂ : rest₁.length = rest₂.length + 1 := by rw [htokens₂]; rfl
  refine Meets.bind (by omega) (ih.statement rest₂ (by omega)) fun body rest₃ _ => Meets.pure ?_
  intro b hbody c hcond
  rw [List.append_nil]
  exact ⟨.loop hkeyword hopening hcond hclosing hbody.derived, hbody.nearest, hbody.closed⟩

end

/-- **The parsers of statements meet their contracts**, whatever the bound. -/
theorem readsStatements : ∀ n, ReadsStatements n
  | 0 =>
    { declaration := by omega, declared := by omega, classDeclaration := by omega,
      methods := by omega, routine := by omega, blockBody := by omega, declarations := by omega,
      statement := by omega, forStatement := by omega, ifStatement := by omega,
      whileStatement := by omega }
  | n + 1 =>
    have ih := readsStatements n
    { declaration := fun tokens htokens hn =>
        Meets.recovering (ih.declared tokens (by omega)) htokens (Nat.le_refl _)
      declared := fun _ => declared_meets ih
      classDeclaration := fun _ => classDeclaration_meets ih
      methods := fun _ => methods_meets ih
      routine := fun _ _ => routine_meets ih
      blockBody := fun _ => blockBody_meets ih
      declarations := fun _ _ => declarations_meets ih
      statement := fun _ => statement_meets ih
      forStatement := fun _ _ hkeyword => forStatement_meets ih hkeyword
      ifStatement := fun _ _ hkeyword => ifStatement_meets ih hkeyword
      whileStatement := fun _ _ hkeyword => whileStatement_meets ih hkeyword }

end Parser

end TanLang
