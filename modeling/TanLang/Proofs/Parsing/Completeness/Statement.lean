import TanLang.Proofs.Parsing.Completeness
/-!
# Parsing — derived statements are accepted

The same as for expressions, for statements and declarations. What is ahead
cannot be taken for more of a statement, except for an `else` after an open
`if`; so a tree comes back as it was derived if every `else` in it is at its
nearest `if`, and no other one is ahead.
-/

namespace TanLang

open Grammar

namespace Parser

/-! ## Parts of statements -/

section

variable {w : List Token} {rest : List Token} {n : Nat}

theorem assignment_eq {e : Expr Unit} (h : Expression .assignment w e)
    (hrest : Stops .assignment rest) (hn : 32 * (w ++ rest).length + 17 ≤ n) :
    assignment n (w ++ rest) = .ok e rest [] :=
  yields_of_expression h rest n hrest hn

theorem expressionStatement_eq {s : Stmt Unit} (h : Effect w s)
    (hn : 32 * (w ++ rest).length + 17 ≤ n) :
    expressionStatement n (w ++ rest) = .ok s rest [] := by
  cases h with
  | @intro semicolon w e h hsemicolon =>
    have htokens : w ++ [semicolon] ++ rest = w ++ semicolon :: rest := by simp
    rw [htokens] at hn ⊢
    refine (bind_eq (assignment_eq h (stops_of_kind hsemicolon (by decide)) hn)).trans ?_
    exact bind_eq (expect_eq hsemicolon)

/-- A variable declaration is its keyword and what is read after it. -/
theorem varDeclaration_eq {s : Stmt Unit} (h : Variable w s) :
    ∃ keyword v, w = keyword :: v ∧ keyword.kind = .varWord ∧
      ∀ rest n, 32 * (v ++ rest).length + 17 ≤ n →
        varDeclaration n (v ++ rest) = .ok s rest [] := by
  cases h with
  | @plain keyword name semicolon hkeyword hname hsemicolon =>
    refine ⟨keyword, _, rfl, hkeyword, fun rest n _ => ?_⟩
    refine (bind_eq (expect_eq hname)).trans ?_
    refine (bind_eq (accept_eq_none (head_ne_of_kind hsemicolon (by decide)))).trans ?_
    rw [pure_bind_eq]
    exact bind_eq (expect_eq hsemicolon)
  | @initial keyword name equals semicolon w e hkeyword hname hequals h hsemicolon =>
    refine ⟨keyword, _, rfl, hkeyword, fun rest n hn => ?_⟩
    have htokens : name :: equals :: (w ++ [semicolon]) ++ rest =
        name :: equals :: (w ++ semicolon :: rest) := by simp
    rw [htokens] at hn ⊢
    simp only [List.length_cons] at hn
    refine (bind_eq (expect_eq hname)).trans ((bind_eq (accept_eq_some hequals)).trans ?_)
    have hstops : Stops .assignment (semicolon :: rest) := stops_of_kind hsemicolon (by decide)
    refine (bind_eq (map_eq (assignment_eq h hstops (by omega)))).trans ?_
    exact bind_eq (expect_eq hsemicolon)

/-- An expression that may be missing, before a token that tells which. -/
theorem expressionUnless_eq {e : Option (Expr Unit)} {t : Token} {kind : Token.Kind}
    (h : Optional w e) (ht : t.kind = kind) (hn : 32 * (w ++ t :: rest).length + 17 ≤ n)
    (hstarts : kind ∉ starts .assignment)
    (hstops : kind ∉ followers .assignment) :
    expressionUnless kind n (w ++ t :: rest) = .ok e (t :: rest) [] := by
  refine (bind_eq nextKind_eq).trans ?_
  cases h with
  | none =>
    have hkind : ([] ++ t :: rest).head?.map Token.kind = some kind := by simp [ht]
    rw [if_pos hkind]
    rfl
  | some h =>
    have hkind : (w ++ t :: rest).head?.map Token.kind ≠ some kind := by
      intro hk
      obtain ⟨u, hu, huk⟩ := Option.map_eq_some_iff.1 hk
      exact (startsWith_of_expression h).append.head_ne kind hstarts u hu huk
    rw [if_neg hkind]
    exact map_eq (assignment_eq h (stops_of_kind ht hstops) hn)

theorem forInitial_eq {initial : Option (Stmt Unit)} (h : ForInitial w initial)
    (hn : 32 * (w ++ rest).length + 17 ≤ n) : forInitial n (w ++ rest) = .ok initial rest [] := by
  cases h with
  | none h => exact bind_eq (accept_eq_some h)
  | declared h =>
    obtain ⟨keyword, v, rfl, hkeyword, hread⟩ := varDeclaration_eq h
    simp only [List.cons_append, List.length_cons] at hn ⊢
    refine (bind_eq (accept_eq_none (head_ne_of_kind hkeyword (by decide)))).trans ?_
    refine (bind_eq (accept_eq_some hkeyword)).trans ?_
    exact map_eq (hread rest n (by omega))
  | @effect w s h =>
    have hstart : StartsWith (starts .assignment) w := by
      cases h with
      | intro h _ => exact (startsWith_of_expression h).append
    refine (bind_eq (accept_eq_none (hstart.append.head_ne .semicolon (by decide)))).trans ?_
    refine (bind_eq (accept_eq_none (hstart.append.head_ne .varWord (by decide)))).trans ?_
    exact map_eq (expressionStatement_eq h hn)

theorem parameters_eq {params : List Token} {closing : Token} (h : Names w params)
    (hclosing : closing.kind = .rightParen) :
    ∀ {n count : Nat}, count + params.length ≤ maxEntries →
      32 * (w ++ closing :: rest).length ≤ n →
      parameters n count (w ++ closing :: rest) = .ok params (closing :: rest) [] := by
  induction h with
  | @one name hname =>
    intro n count hcount hn
    simp only [List.cons_append, List.nil_append, List.length_cons, List.length_nil] at hn hcount
    obtain ⟨n, rfl⟩ : ∃ k, n = k + 1 := ⟨n - 1, by omega⟩
    have hfew : ¬ maxArguments ≤ count := by
      simp only [maxEntries] at hcount
      simp only [maxArguments]
      omega
    rw [parameters, if_neg hfew]
    refine (bind_eq (expect_eq hname)).trans ?_
    exact bind_eq (accept_eq_none (head_ne_of_kind hclosing (by decide)))
  | @more name comma w names hname hcomma _ ih =>
    intro n count hcount hn
    simp only [List.cons_append, List.length_cons] at hn hcount
    obtain ⟨n, rfl⟩ : ∃ k, n = k + 1 := ⟨n - 1, by omega⟩
    have hfew : ¬ maxArguments ≤ count := by
      simp only [maxEntries] at hcount
      simp only [maxArguments]
      omega
    rw [parameters, if_neg hfew]
    refine (bind_eq (expect_eq hname)).trans ((bind_eq (accept_eq_some hcomma)).trans ?_)
    exact bind_eq (ih (by omega) (by omega))

end

/-! ## How a statement starts -/

/-- The kinds that a statement starts with. -/
def statementStarts : List Token.Kind :=
  [.forWord, .ifWord, .printWord, .returnWord, .whileWord, .leftBrace] ++ starts .assignment

/-- The kinds that a declaration starts with. -/
def declarationStarts : List Token.Kind :=
  [.classWord, .functionWord, .varWord] ++ statementStarts

theorem startsWith_of_effect {w : List Token} {s : Stmt Unit} (h : Effect w s) :
    StartsWith (starts .assignment) w := by
  cases h with
  | intro h _ => exact (startsWith_of_expression h).append

theorem startsWith_of_statement {w : List Token} {s : Stmt Unit} :
    Statement w s → StartsWith statementStarts w
  | .effect h => (startsWith_of_effect h).mono (by decide)
  | .print h .. => ⟨_, _, rfl, by rw [h]; decide⟩
  | .ret h .. => ⟨_, _, rfl, by rw [h]; decide⟩
  | .block h .. => ⟨_, _, rfl, by rw [h]; decide⟩
  | .branch h .. => ⟨_, _, rfl, by rw [h]; decide⟩
  | .branchElse h .. => ⟨_, _, rfl, by rw [h]; decide⟩
  | .loop h .. => ⟨_, _, rfl, by rw [h]; decide⟩
  | .forLoop h .. => ⟨_, _, rfl, by rw [h]; decide⟩
  | .forEmpty h .. => ⟨_, _, rfl, by rw [h]; decide⟩

theorem startsWith_of_declaration {w : List Token} {s : Stmt Unit} :
    Declaration w s → StartsWith declarationStarts w
  | .statement h => (startsWith_of_statement h).mono (by decide)
  | .varDecl h => by
    obtain ⟨keyword, v, rfl, hkeyword, -⟩ := varDeclaration_eq h
    exact ⟨_, _, rfl, by rw [hkeyword]; decide⟩
  | .function h .. => ⟨_, _, rfl, by rw [h]; decide⟩
  | .classDecl h .. => ⟨_, _, rfl, by rw [h]; decide⟩

/-- After declarations comes what can start one, or what was ahead of them. -/
theorem head_ne_of_declarations {w rest : List Token} {ss : List (Stmt Unit)}
    {kind : Token.Kind} (h : Declarations w ss) (hkind : kind ∉ declarationStarts)
    (hrest : ∀ t ∈ rest.head?, t.kind ≠ kind) : ∀ t ∈ (w ++ rest).head?, t.kind ≠ kind := by
  cases h with
  | nil => exact hrest
  | cons h _ => exact ((startsWith_of_declaration h).append.append).head_ne kind hkind

/-! ## Statements -/

/-- **What the parser makes of a statement** that no `else` ahead belongs to. -/
def YieldsStatement (w : List Token) (s : Stmt Unit) : Prop :=
  ∀ rest n, ClosedBefore s rest → 32 * (w ++ rest).length + 18 ≤ n →
    statement n (w ++ rest) = .ok s rest []

/-- The same for a declaration. -/
def YieldsDeclaration (w : List Token) (s : Stmt Unit) : Prop :=
  ∀ rest n, ClosedBefore s rest → 32 * (w ++ rest).length + 19 ≤ n →
    declared n (w ++ rest) = .ok s rest []

/-- The same for declarations up to the end or to a closing brace. -/
def YieldsDeclarations (w : List Token) (ss : List (Stmt Unit)) : Prop :=
  ∀ rest n closing, closing = none ∨ closing = some .rightBrace →
    rest.head?.map Token.kind = none ∨ rest.head?.map Token.kind = closing →
    32 * (w ++ rest).length + 21 ≤ n → declarations n closing (w ++ rest) = .ok ss rest []

/-- The same for a block after its opening brace. -/
def YieldsBody (w : List Token) (ss : List (Stmt Unit)) : Prop :=
  ∀ rest n, 32 * (w ++ rest).length + 22 ≤ n → blockBody n (w ++ rest) = .ok ss rest []

/-- The same for a function from its name on. -/
def YieldsRoutine (w : List Token) (decl : Routine (Stmt Unit)) : Prop :=
  ∀ rest n kind, 32 * (w ++ rest).length + 1 ≤ n → routine n kind (w ++ rest) = .ok decl rest []

/-- The same for the methods of a class up to its closing brace. -/
def YieldsMethods (w : List Token) (ms : List (Routine (Stmt Unit))) : Prop :=
  ∀ closing rest n, closing.kind = .rightBrace → 32 * (w ++ closing :: rest).length + 2 ≤ n →
    methods n (w ++ closing :: rest) = .ok ms (closing :: rest) []

namespace YieldsStatement

variable {w : List Token} {s : Stmt Unit}

theorem effect (h : Effect w s) : YieldsStatement w s := by
  intro rest n _ hn
  obtain ⟨n, rfl⟩ : ∃ k, n = k + 1 := ⟨n - 1, by omega⟩
  have hopens : ∀ t ∈ (w ++ rest).head?, opensStatement t.kind = false := by
    intro t ht
    have hall : ∀ k ∈ starts .assignment, opensStatement k = false := by decide
    obtain ⟨u, v, rfl, hu⟩ := startsWith_of_effect h
    obtain rfl : u = t := by simpa using ht
    exact hall _ hu
  rw [statement]
  exact (bind_eq (acceptWhere_eq_none hopens)).trans (expressionStatement_eq h (by omega))

/-- A statement with a keyword is left to the parser for it. -/
theorem opened {keyword : Token} {v rest : List Token} {n : Nat} {p : Parser (Stmt Unit)}
    (hopens : opensStatement keyword.kind = true)
    (hp : (match keyword.kind with
      | .forWord => forStatement n keyword
      | .ifWord => ifStatement n keyword
      | .printWord => printStatement n keyword
      | .returnWord => returnStatement n keyword
      | .whileWord => whileStatement n keyword
      | _ => .block keyword <$> blockBody n) = p)
    (hread : p (v ++ rest) = .ok s rest []) :
    statement (n + 1) (keyword :: v ++ rest) = .ok s rest [] := by
  rw [statement]
  refine (bind_eq (acceptWhere_eq_some hopens)).trans ?_
  rw [← hp] at hread
  exact hread

theorem print {keyword semicolon : Token} {e : Expr Unit} (hkeyword : keyword.kind = .printWord)
    (h : Expression .assignment w e) (hsemicolon : semicolon.kind = .semicolon) :
    YieldsStatement (keyword :: (w ++ [semicolon])) (.print keyword e) := by
  intro rest n _ hn
  obtain ⟨n, rfl⟩ : ∃ k, n = k + 1 := ⟨n - 1, by omega⟩
  refine opened (p := printStatement n keyword) (by rw [hkeyword]; rfl) (by rw [hkeyword]) ?_
  have htokens : w ++ [semicolon] ++ rest = w ++ semicolon :: rest := by simp
  simp only [List.cons_append, List.length_cons, htokens] at hn ⊢
  refine (bind_eq (assignment_eq h (stops_of_kind hsemicolon (by decide)) (by omega))).trans ?_
  exact bind_eq (expect_eq hsemicolon)

theorem ret {keyword semicolon : Token} {e : Option (Expr Unit)}
    (hkeyword : keyword.kind = .returnWord) (h : Optional w e)
    (hsemicolon : semicolon.kind = .semicolon) :
    YieldsStatement (keyword :: (w ++ [semicolon])) (.ret keyword e) := by
  intro rest n _ hn
  obtain ⟨n, rfl⟩ : ∃ k, n = k + 1 := ⟨n - 1, by omega⟩
  refine opened (p := returnStatement n keyword) (by rw [hkeyword]; rfl) (by rw [hkeyword]) ?_
  have htokens : w ++ [semicolon] ++ rest = w ++ semicolon :: rest := by simp
  simp only [List.cons_append, List.length_cons, htokens] at hn ⊢
  refine (bind_eq (expressionUnless_eq h hsemicolon (by omega) (by decide) (by decide))).trans ?_
  exact bind_eq (expect_eq hsemicolon)

theorem block {opening : Token} {body : List (Stmt Unit)} (hopening : opening.kind = .leftBrace)
    (h : YieldsBody w body) : YieldsStatement (opening :: w) (.block opening body) := by
  intro rest n _ hn
  obtain ⟨n, rfl⟩ : ∃ k, n = k + 1 := ⟨n - 1, by omega⟩
  refine opened (p := .block opening <$> blockBody n) (by rw [hopening]; rfl)
    (by rw [hopening]) ?_
  simp only [List.cons_append, List.length_cons] at hn
  exact map_eq (h rest n (by omega))

theorem branch {keyword opening closing : Token} {c : List Token} {cond : Expr Unit}
    (hkeyword : keyword.kind = .ifWord) (hopening : opening.kind = .leftParen)
    (hcond : Expression .assignment c cond) (hclosing : closing.kind = .rightParen)
    (h : YieldsStatement w s) :
    YieldsStatement (keyword :: opening :: (c ++ closing :: w)) (.branch keyword cond s none) := by
  intro rest n hrest hn
  obtain ⟨n, rfl⟩ : ∃ k, n = k + 2 := ⟨n - 2, by omega⟩
  refine opened (p := ifStatement (n + 1) keyword) (by rw [hkeyword]; rfl) (by rw [hkeyword]) ?_
  have htokens : opening :: (c ++ closing :: w) ++ rest =
      opening :: (c ++ closing :: (w ++ rest)) := by simp
  have hbefore : ∀ t ∈ rest.head?, t.kind ≠ .elseWord := hrest rfl
  rw [List.cons_append, htokens] at hn
  rw [htokens, ifStatement]
  simp only [List.length_cons] at hn
  have hlength : (c ++ closing :: (w ++ rest)).length = c.length + ((w ++ rest).length + 1) :=
    List.length_append
  refine (bind_eq (expect_eq hopening)).trans ?_
  refine (bind_eq (assignment_eq hcond (stops_of_kind hclosing (by decide)) (by omega))).trans ?_
  refine (bind_eq (expect_eq hclosing)).trans ?_
  refine (bind_eq (h rest n (fun _ => hbefore) (by omega))).trans ?_
  exact bind_eq (accept_eq_none hbefore)

theorem branchElse {keyword opening closing otherwise : Token} {c v : List Token}
    {cond : Expr Unit} {no : Stmt Unit} (hkeyword : keyword.kind = .ifWord)
    (hopening : opening.kind = .leftParen) (hcond : Expression .assignment c cond)
    (hclosing : closing.kind = .rightParen) (h : YieldsStatement w s)
    (hclosed : s.trailingIf = false) (hotherwise : otherwise.kind = .elseWord)
    (hno : YieldsStatement v no) :
    YieldsStatement (keyword :: opening :: (c ++ closing :: (w ++ otherwise :: v)))
      (.branch keyword cond s (some no)) := by
  intro rest n hrest hn
  obtain ⟨n, rfl⟩ : ∃ k, n = k + 2 := ⟨n - 2, by omega⟩
  refine opened (p := ifStatement (n + 1) keyword) (by rw [hkeyword]; rfl) (by rw [hkeyword]) ?_
  have htokens : opening :: (c ++ closing :: (w ++ otherwise :: v)) ++ rest =
      opening :: (c ++ closing :: (w ++ otherwise :: (v ++ rest))) := by simp
  rw [List.cons_append, htokens] at hn
  rw [htokens, ifStatement]
  simp only [List.length_cons] at hn
  have hlength : (c ++ closing :: (w ++ otherwise :: (v ++ rest))).length =
      c.length + ((w ++ otherwise :: (v ++ rest)).length + 1) := List.length_append
  have hlength' : (w ++ otherwise :: (v ++ rest)).length = w.length + ((v ++ rest).length + 1) :=
    List.length_append
  refine (bind_eq (expect_eq hopening)).trans ?_
  refine (bind_eq (assignment_eq hcond (stops_of_kind hclosing (by decide)) (by omega))).trans ?_
  refine (bind_eq (expect_eq hclosing)).trans ?_
  -- the first branch does not end in an open `if`, which would take the `else`
  refine (bind_eq (h _ n (closedBefore_of_not_trailingIf hclosed) (by omega))).trans ?_
  refine (bind_eq (accept_eq_some hotherwise)).trans ?_
  exact bind_eq (hno rest n hrest (by omega))

theorem loop {keyword opening closing : Token} {c : List Token} {cond : Expr Unit}
    (hkeyword : keyword.kind = .whileWord) (hopening : opening.kind = .leftParen)
    (hcond : Expression .assignment c cond) (hclosing : closing.kind = .rightParen)
    (h : YieldsStatement w s) :
    YieldsStatement (keyword :: opening :: (c ++ closing :: w)) (.loop keyword cond (some s)) := by
  intro rest n hrest hn
  obtain ⟨n, rfl⟩ : ∃ k, n = k + 2 := ⟨n - 2, by omega⟩
  refine opened (p := whileStatement (n + 1) keyword) (by rw [hkeyword]; rfl) (by rw [hkeyword]) ?_
  have htokens : opening :: (c ++ closing :: w) ++ rest =
      opening :: (c ++ closing :: (w ++ rest)) := by simp
  rw [List.cons_append, htokens] at hn
  rw [htokens, whileStatement]
  simp only [List.length_cons] at hn
  have hlength : (c ++ closing :: (w ++ rest)).length = c.length + ((w ++ rest).length + 1) :=
    List.length_append
  refine (bind_eq (expect_eq hopening)).trans ?_
  refine (bind_eq (assignment_eq hcond (stops_of_kind hclosing (by decide)) (by omega))).trans ?_
  refine (bind_eq (expect_eq hclosing)).trans ?_
  exact bind_eq (h rest n hrest (by omega))

/-- The clauses of a `for` loop are read before its body. -/
theorem forStatement_eq {keyword : Token} {c tokens : List Token} {initial : Option (Stmt Unit)}
    {cond step : Option (Expr Unit)} {n : Nat} (h : ForClauses c initial cond step)
    (hn : 32 * (c ++ tokens).length ≤ n) :
    forStatement (n + 1) keyword (c ++ tokens) = (do
      match ← accept .semicolon with
      | some _ => return .forLoop keyword initial cond step none
      | none =>
        let body ← statement n
        return .forLoop keyword initial cond step (some body) : Parser (Stmt Unit)) tokens := by
  cases h with
  | @intro opening semicolon closing i c s initial cond step hopening hinitial hcond hsemicolon
      hstep hclosing =>
    have htokens : opening :: (i ++ (c ++ semicolon :: (s ++ [closing]))) ++ tokens =
        opening :: (i ++ (c ++ semicolon :: (s ++ closing :: tokens))) := by simp
    rw [htokens] at hn ⊢
    have hlength : (i ++ (c ++ semicolon :: (s ++ closing :: tokens))).length =
        i.length + (c ++ semicolon :: (s ++ closing :: tokens)).length := List.length_append
    have hlength' : (c ++ semicolon :: (s ++ closing :: tokens)).length =
        c.length + ((s ++ closing :: tokens).length + 1) := List.length_append
    simp only [List.length_cons] at hn
    rw [forStatement]
    refine (bind_eq (expect_eq hopening)).trans ?_
    refine (bind_eq (forInitial_eq hinitial (by omega))).trans ?_
    refine (bind_eq (expressionUnless_eq hcond hsemicolon (by omega) (by decide)
      (by decide))).trans ?_
    refine (bind_eq (expect_eq hsemicolon)).trans ?_
    refine (bind_eq (expressionUnless_eq hstep hclosing (by omega) (by decide)
      (by decide))).trans ?_
    exact bind_eq (expect_eq hclosing)

theorem forLoop {keyword : Token} {c : List Token} {initial : Option (Stmt Unit)}
    {cond step : Option (Expr Unit)} (hkeyword : keyword.kind = .forWord)
    (hclauses : ForClauses c initial cond step) (hw : StartsWith statementStarts w)
    (h : YieldsStatement w s) :
    YieldsStatement (keyword :: (c ++ w)) (.forLoop keyword initial cond step (some s)) := by
  intro rest n hrest hn
  obtain ⟨n, rfl⟩ : ∃ k, n = k + 2 := ⟨n - 2, by omega⟩
  refine opened (p := forStatement (n + 1) keyword) (by rw [hkeyword]; rfl) (by rw [hkeyword]) ?_
  have hpositive : 1 ≤ c.length := by
    cases hclauses
    exact Nat.succ_pos _
  have hlength : (c ++ (w ++ rest)).length = c.length + (w ++ rest).length := List.length_append
  rw [List.cons_append, List.append_assoc, List.length_cons] at hn
  rw [List.append_assoc, forStatement_eq hclauses (by omega)]
  refine (bind_eq (accept_eq_none (hw.append.head_ne .semicolon (by decide)))).trans ?_
  exact bind_eq (h rest n hrest (by omega))

theorem forEmpty {keyword semicolon : Token} {c : List Token} {initial : Option (Stmt Unit)}
    {cond step : Option (Expr Unit)} (hkeyword : keyword.kind = .forWord)
    (hclauses : ForClauses c initial cond step) (hsemicolon : semicolon.kind = .semicolon) :
    YieldsStatement (keyword :: (c ++ [semicolon])) (.forLoop keyword initial cond step none) := by
  intro rest n _ hn
  obtain ⟨n, rfl⟩ : ∃ k, n = k + 2 := ⟨n - 2, by omega⟩
  refine opened (p := forStatement (n + 1) keyword) (by rw [hkeyword]; rfl) (by rw [hkeyword]) ?_
  rw [List.cons_append, List.append_assoc, List.length_cons] at hn
  rw [List.append_assoc, forStatement_eq hclauses (by omega)]
  exact bind_eq (accept_eq_some hsemicolon)

end YieldsStatement

theorem YieldsDeclaration.statement {w : List Token} {s : Stmt Unit} (h : YieldsStatement w s)
    (hw : StartsWith statementStarts w) : YieldsDeclaration w s := by
  intro rest n hrest hn
  obtain ⟨n, rfl⟩ : ∃ k, n = k + 1 := ⟨n - 1, by omega⟩
  rw [declared]
  refine (bind_eq (accept_eq_none (hw.append.head_ne .classWord (by decide)))).trans ?_
  refine (bind_eq (accept_eq_none (hw.append.head_ne .functionWord (by decide)))).trans ?_
  refine (bind_eq (accept_eq_none (hw.append.head_ne .varWord (by decide)))).trans ?_
  exact h rest n hrest (by omega)

theorem YieldsDeclaration.varDecl {w : List Token} {s : Stmt Unit} (h : Variable w s) :
    YieldsDeclaration w s := by
  intro rest n _ hn
  obtain ⟨n, rfl⟩ : ∃ k, n = k + 1 := ⟨n - 1, by omega⟩
  obtain ⟨keyword, v, rfl, hkeyword, hread⟩ := varDeclaration_eq h
  simp only [List.cons_append, List.length_cons] at hn ⊢
  rw [declared]
  refine (bind_eq (accept_eq_none (head_ne_of_kind hkeyword (by decide)))).trans ?_
  refine (bind_eq (accept_eq_none (head_ne_of_kind hkeyword (by decide)))).trans ?_
  refine (bind_eq (accept_eq_some hkeyword)).trans ?_
  exact hread rest n (by omega)

theorem YieldsDeclaration.function {w : List Token} {keyword : Token}
    {decl : Routine (Stmt Unit)} (hkeyword : keyword.kind = .functionWord)
    (h : YieldsRoutine w decl) : YieldsDeclaration (keyword :: w) (.function decl) := by
  intro rest n _ hn
  obtain ⟨n, rfl⟩ : ∃ k, n = k + 1 := ⟨n - 1, by omega⟩
  simp only [List.cons_append, List.length_cons] at hn ⊢
  rw [declared]
  refine (bind_eq (accept_eq_none (head_ne_of_kind hkeyword (by decide)))).trans ?_
  refine (bind_eq (accept_eq_some hkeyword)).trans ?_
  exact map_eq (h rest n .function (by omega))

theorem YieldsDeclaration.classDecl {m c : List Token} {keyword name opening closing : Token}
    {superclass : Option (Token × Unit)} {ms : List (Routine (Stmt Unit))}
    (hkeyword : keyword.kind = .classWord) (hname : name.kind = .identifier)
    (hsuperclass : Superclass c superclass) (hopening : opening.kind = .leftBrace)
    (h : YieldsMethods m ms) (hclosing : closing.kind = .rightBrace) :
    YieldsDeclaration (keyword :: name :: (c ++ opening :: (m ++ [closing])))
      (.classDecl name superclass ms) := by
  intro rest n _ hn
  obtain ⟨n, rfl⟩ : ∃ k, n = k + 2 := ⟨n - 2, by omega⟩
  have htokens : keyword :: name :: (c ++ opening :: (m ++ [closing])) ++ rest =
      keyword :: name :: (c ++ opening :: (m ++ closing :: rest)) := by simp
  rw [htokens] at hn ⊢
  have hlength : (c ++ opening :: (m ++ closing :: rest)).length =
      c.length + ((m ++ closing :: rest).length + 1) := List.length_append
  simp only [List.length_cons] at hn
  rw [declared]
  refine (bind_eq (accept_eq_some hkeyword)).trans ?_
  rw [classDeclaration]
  refine (bind_eq (expect_eq hname)).trans ?_
  -- the braces and the methods are read alike with and without a superclass
  have hbody : ∀ t : Option Token, (do
      let _ ← expect .leftBrace .classBody
      let methods ← methods n
      let _ ← expect .rightBrace .classEnd
      return .classDecl name (t.map fun t => (t, ())) methods : Parser (Stmt Unit))
        (opening :: (m ++ closing :: rest)) =
      .ok (.classDecl name (t.map fun t => (t, ())) ms) rest [] := by
    intro t
    refine (bind_eq (expect_eq hopening)).trans ?_
    refine (bind_eq (h closing rest n hclosing (by omega))).trans ?_
    exact bind_eq (expect_eq hclosing)
  cases hsuperclass with
  | none =>
    refine (bind_eq (accept_eq_none (head_ne_of_kind hopening (by decide)))).trans ?_
    rw [pure_bind_eq]
    exact hbody none
  | @some less sup hless hsup =>
    refine (bind_eq (accept_eq_some hless)).trans ?_
    exact (bind_eq (map_eq (expect_eq hsup))).trans (hbody (some sup))

theorem YieldsDeclarations.nil : YieldsDeclarations [] [] := by
  intro rest n closing _ hrest hn
  obtain ⟨n, rfl⟩ : ∃ k, n = k + 1 := ⟨n - 1, by omega⟩
  rw [declarations]
  refine (bind_eq nextKind_eq).trans ?_
  rw [List.nil_append, if_pos hrest]
  rfl

/-- A token ahead of declarations is no `else`. -/
theorem closedBefore_of_declarations {v rest : List Token} {s : Stmt Unit}
    {ss : List (Stmt Unit)} {closing : Option Token.Kind} (h : Declarations v ss)
    (hclosing : closing = none ∨ closing = some .rightBrace)
    (hrest : rest.head?.map Token.kind = none ∨ rest.head?.map Token.kind = closing) :
    ClosedBefore s (v ++ rest) := by
  intro _
  refine head_ne_of_declarations h (by decide) fun t ht hkind => ?_
  rw [Option.mem_def] at ht
  rw [ht] at hrest
  rcases hclosing with rfl | rfl <;> simp [hkind] at hrest

theorem YieldsDeclarations.cons {w v : List Token} {s : Stmt Unit} {ss : List (Stmt Unit)}
    (h : YieldsDeclaration w s) (hw : StartsWith declarationStarts w) (hv : Declarations v ss)
    (hss : YieldsDeclarations v ss) : YieldsDeclarations (w ++ v) (s :: ss) := by
  intro rest n closing hclosing hrest hn
  obtain ⟨n, rfl⟩ : ∃ k, n = k + 2 := ⟨n - 2, by omega⟩
  rw [List.append_assoc] at hn ⊢
  have hlength : (w ++ (v ++ rest)).length = w.length + (v ++ rest).length := List.length_append
  have hpositive : 1 ≤ w.length := by
    obtain ⟨t, u, rfl, -⟩ := hw
    exact Nat.succ_pos _
  -- a declaration is ahead, neither the end nor a closing brace
  have hgoes : ¬ ((w ++ (v ++ rest)).head?.map Token.kind = none ∨
      (w ++ (v ++ rest)).head?.map Token.kind = closing) := by
    obtain ⟨t, u, rfl, ht⟩ := hw
    rcases hclosing with rfl | rfl
    · simp
    · simp only [List.cons_append, List.head?_cons, Option.map_some, Option.some.injEq,
        reduceCtorEq, false_or]
      rintro hkind
      rw [hkind] at ht
      revert ht
      decide
  have hfirst : declaration (n + 1) (w ++ (v ++ rest)) = .ok (some s) (v ++ rest) [] := by
    have hread := h (v ++ rest) n (closedBefore_of_declarations hv hclosing hrest) (by omega)
    simp only [declaration, recovering, hread]
  rw [declarations]
  refine (bind_eq nextKind_eq).trans ?_
  rw [if_neg hgoes]
  refine (bind_eq hfirst).trans ?_
  exact bind_eq (hss rest (n + 1) closing hclosing hrest (by omega))

theorem YieldsBody.intro {w : List Token} {ss : List (Stmt Unit)} {closing : Token}
    (h : YieldsDeclarations w ss) (hclosing : closing.kind = .rightBrace) :
    YieldsBody (w ++ [closing]) ss := by
  intro rest n hn
  obtain ⟨n, rfl⟩ : ∃ k, n = k + 1 := ⟨n - 1, by omega⟩
  have htokens : w ++ [closing] ++ rest = w ++ closing :: rest := by simp
  rw [htokens] at hn ⊢
  rw [blockBody]
  refine (bind_eq (h _ n _ (.inr rfl) (.inr (by simp [hclosing])) (by omega))).trans ?_
  exact bind_eq (expect_eq hclosing)

theorem YieldsRoutine.intro {name opening closing brace : Token} {p b params : List Token}
    {body : List (Stmt Unit)} (hname : name.kind = .identifier)
    (hopening : opening.kind = .leftParen) (hparams : Parameters p params)
    (hclosing : closing.kind = .rightParen) (hbrace : brace.kind = .leftBrace)
    (h : YieldsBody b body) :
    YieldsRoutine (name :: opening :: (p ++ closing :: brace :: b)) ⟨name, params, body⟩ := by
  intro rest n kind hn
  obtain ⟨n, rfl⟩ : ∃ k, n = k + 1 := ⟨n - 1, by omega⟩
  have htokens : name :: opening :: (p ++ closing :: brace :: b) ++ rest =
      name :: opening :: (p ++ closing :: brace :: (b ++ rest)) := by simp
  rw [htokens] at hn ⊢
  have hlength : (p ++ closing :: brace :: (b ++ rest)).length =
      p.length + ((b ++ rest).length + 1 + 1) := List.length_append
  simp only [List.length_cons] at hn
  rw [routine]
  refine (bind_eq (expect_eq hname)).trans ((bind_eq (expect_eq hopening)).trans ?_)
  refine (bind_eq nextKind_eq).trans ?_
  -- the body is read alike with and without parameters
  have hbody : ∀ params : List Token, (do
      let _ ← expect .rightParen .parametersEnd
      let _ ← expect .leftBrace (.routineBody kind)
      let body ← blockBody n
      return ⟨name, params, body⟩ : Parser (Routine (Stmt Unit)))
        (closing :: brace :: (b ++ rest)) = .ok ⟨name, params, body⟩ rest [] := by
    intro params
    refine (bind_eq (expect_eq hclosing)).trans ((bind_eq (expect_eq hbrace)).trans ?_)
    exact bind_eq (h rest n (by omega))
  cases hparams with
  | none =>
    have hkind : ([] ++ closing :: brace :: (b ++ rest)).head?.map Token.kind =
        some .rightParen := by simp [hclosing]
    rw [if_pos hkind, pure_bind_eq]
    exact hbody []
  | some hnames hcount =>
    have hkind : (p ++ closing :: brace :: (b ++ rest)).head?.map Token.kind ≠
        some .rightParen := by
      cases hnames with
      | one hname => simp [hname]
      | more hname => simp [hname]
    rw [if_neg hkind]
    exact (bind_eq (parameters_eq hnames hclosing (by omega) (by omega))).trans (hbody params)

theorem YieldsMethods.nil : YieldsMethods [] [] := by
  intro closing rest n hclosing hn
  obtain ⟨n, rfl⟩ : ∃ k, n = k + 1 := ⟨n - 1, by omega⟩
  rw [methods]
  refine (bind_eq nextKind_eq).trans ?_
  rw [if_pos (.inr (by simp [hclosing]))]
  rfl

theorem YieldsMethods.cons {w v : List Token} {decl : Routine (Stmt Unit)}
    {ms : List (Routine (Stmt Unit))} (h : YieldsRoutine w decl)
    (hw : StartsWith [.identifier] w) (hms : YieldsMethods v ms) :
    YieldsMethods (w ++ v) (decl :: ms) := by
  intro closing rest n hclosing hn
  obtain ⟨n, rfl⟩ : ∃ k, n = k + 1 := ⟨n - 1, by omega⟩
  rw [List.append_assoc] at hn ⊢
  have hlength : (w ++ (v ++ closing :: rest)).length = w.length + (v ++ closing :: rest).length :=
    List.length_append
  have hpositive : 1 ≤ w.length := by
    obtain ⟨t, u, rfl, -⟩ := hw
    exact Nat.succ_pos _
  have hgoes : ¬ ((w ++ (v ++ closing :: rest)).head?.map Token.kind = none ∨
      (w ++ (v ++ closing :: rest)).head?.map Token.kind = some .rightBrace) := by
    obtain ⟨t, u, rfl, ht⟩ := hw
    simp [List.mem_singleton.1 ht]
  rw [methods]
  refine (bind_eq nextKind_eq).trans ?_
  rw [if_neg hgoes]
  refine (bind_eq (h _ n .method (by omega))).trans ?_
  exact bind_eq (hms closing rest n hclosing (by omega))

theorem startsWith_of_method {w : List Token} {decl : Routine (Stmt Unit)} :
    Method w decl → StartsWith [.identifier] w
  | .intro hname .. => ⟨_, _, rfl, by rw [hname]; decide⟩

mutual

/-- **What is derived as a statement is read as it**, if every `else` in it
is where the parser puts it. -/
theorem yields_of_statement {w : List Token} {s : Stmt Unit} :
    Statement w s → s.NearestElse → YieldsStatement w s
  | .effect h, _ => .effect h
  | .print hkeyword h hsemicolon, _ => .print hkeyword h hsemicolon
  | .ret hkeyword h hsemicolon, _ => .ret hkeyword h hsemicolon
  | .block hopening h, hnear => .block hopening (yields_of_body h hnear)
  | .branch hkeyword hopening hcond hclosing hyes, hnear =>
    .branch hkeyword hopening hcond hclosing (yields_of_statement hyes hnear.1)
  | .branchElse hkeyword hopening hcond hclosing hyes hotherwise hno, hnear =>
    .branchElse hkeyword hopening hcond hclosing (yields_of_statement hyes hnear.1)
      (hnear.2.2 rfl) hotherwise (yields_of_statement hno hnear.2.1)
  | .loop hkeyword hopening hcond hclosing hbody, hnear =>
    .loop hkeyword hopening hcond hclosing (yields_of_statement hbody hnear)
  | .forLoop hkeyword hclauses hbody, hnear =>
    .forLoop hkeyword hclauses (startsWith_of_statement hbody) (yields_of_statement hbody hnear.2)
  | .forEmpty hkeyword hclauses hsemicolon, _ => .forEmpty hkeyword hclauses hsemicolon

/-- The same for a declaration. -/
theorem yields_of_declaration {w : List Token} {s : Stmt Unit} :
    Declaration w s → s.NearestElse → YieldsDeclaration w s
  | .statement h, hnear => .statement (yields_of_statement h hnear) (startsWith_of_statement h)
  | .varDecl h, _ => .varDecl h
  | .function hkeyword h, hnear => .function hkeyword (yields_of_method h hnear)
  | .classDecl hkeyword hname hsuperclass hopening hmethods hclosing, hnear =>
    .classDecl hkeyword hname hsuperclass hopening (yields_of_methods hmethods hnear) hclosing

/-- The same for declarations in a row. -/
theorem yields_of_declarations {w : List Token} {ss : List (Stmt Unit)} :
    Declarations w ss → Stmt.NearestElseAll ss → YieldsDeclarations w ss
  | .nil, _ => .nil
  | .cons h hrest, hnear =>
    .cons (yields_of_declaration h hnear.1) (startsWith_of_declaration h) hrest
      (yields_of_declarations hrest hnear.2)

/-- The same for a block after its opening brace. -/
theorem yields_of_body {w : List Token} {ss : List (Stmt Unit)} :
    Body w ss → Stmt.NearestElseAll ss → YieldsBody w ss
  | .intro h hclosing, hnear => .intro (yields_of_declarations h hnear) hclosing

/-- The same for a function from its name on. -/
theorem yields_of_method {w : List Token} {decl : Routine (Stmt Unit)} :
    Method w decl → Stmt.NearestElseRoutine decl → YieldsRoutine w decl
  | .intro hname hopening hparams hclosing hbrace hbody, hnear =>
    .intro hname hopening hparams hclosing hbrace
      (yields_of_body hbody (Stmt.nearestElseRoutine_iff.1 hnear))

/-- The same for methods in a row. -/
theorem yields_of_methods {w : List Token} {ms : List (Routine (Stmt Unit))} :
    Methods w ms → Stmt.NearestElseMethods ms → YieldsMethods w ms
  | .nil, _ => .nil
  | .cons h hrest, hnear =>
    .cons (yields_of_method h hnear.1) (startsWith_of_method h) (yields_of_methods hrest hnear.2)

end

end Parser

end TanLang
