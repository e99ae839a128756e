import TanLang.Program
import TanLang.Proofs.Parsing.Completeness.Statement
/-!
# Parsing — exactly the grammar is accepted

The parser accepts what can be derived with every `else` at its nearest
`if`. That is no restriction: in a derivation that puts an `else` further
out, it can be moved to the open `if` in front of it, and the list of tokens
stays the same. So reading a list of tokens leaves nothing to report if and
only if the list can be derived at all.
-/

namespace TanLang

open Grammar

/-! ## Moving an `else` to the nearest `if` -/

namespace Grammar

/-- A statement that is derived with every `else` at its nearest `if`. -/
def Nearest (w : List Token) : Prop := ∃ s, Statement w s ∧ s.NearestElse

section

variable {otherwise : Token} {v : List Token} {no : Stmt Unit}

/-- An `else` after an `if` goes to that one, unless its branch takes it. -/
theorem Nearest.branchElse {keyword opening closing : Token} {c y : List Token}
    {cond : Expr Unit} {yes : Stmt Unit} (hkeyword : keyword.kind = .ifWord)
    (hopening : opening.kind = .leftParen) (hcond : Expression .assignment c cond)
    (hclosing : closing.kind = .rightParen) (hyes : Statement y yes) (hnear : yes.NearestElse)
    (hotherwise : otherwise.kind = .elseWord) (hno : Statement v no) (hnear' : no.NearestElse)
    (htaken : yes.trailingIf = true → Nearest (y ++ otherwise :: v)) :
    Nearest (keyword :: opening :: (c ++ closing :: (y ++ otherwise :: v))) := by
  by_cases hopen : yes.trailingIf = true
  · -- the tokens stay the same, the tree turns: the branch takes the `else`
    obtain ⟨s, hs, hnear''⟩ := htaken hopen
    exact ⟨_, .branch hkeyword hopening hcond hclosing hs, hnear'', trivial, nofun⟩
  · have hclosed : yes.trailingIf = false := Bool.eq_false_iff.2 hopen
    exact ⟨_, .branchElse hkeyword hopening hcond hclosing hyes hotherwise hno, hnear, hnear',
      fun _ => hclosed⟩

/-- **An `else` goes to the open `if` that a statement ends in.** -/
theorem Nearest.attach (hotherwise : otherwise.kind = .elseWord) (hno : Statement v no)
    (hnear' : no.NearestElse) {w : List Token} {s : Stmt Unit} :
    Statement w s → s.NearestElse → s.trailingIf = true → Nearest (w ++ otherwise :: v)
  | .effect h, _, htrailing => by
    rw [Parser.not_trailingIf_of_effect h] at htrailing
    cases htrailing
  | .print .., _, htrailing => nomatch htrailing
  | .ret .., _, htrailing => nomatch htrailing
  | .block .., _, htrailing => nomatch htrailing
  | .branch hkeyword hopening hcond hclosing hyes, hnear, _ => by
    simpa using Nearest.branchElse hkeyword hopening hcond hclosing hyes hnear.1 hotherwise hno
      hnear' (attach hotherwise hno hnear' hyes hnear.1)
  | .branchElse hkeyword hopening hcond hclosing hyes hotherwise' hno', hnear, htrailing => by
    obtain ⟨s, hs, hnear''⟩ := attach hotherwise hno hnear' hno' hnear.2.1 htrailing
    have hbranch := Statement.branchElse hkeyword hopening hcond hclosing hyes hotherwise' hs
    refine ⟨_, by simpa using hbranch, ?_⟩
    exact ⟨hnear.1, hnear'', hnear.2.2⟩
  | .loop hkeyword hopening hcond hclosing hbody, hnear, htrailing => by
    obtain ⟨s, hs, hnear''⟩ := attach hotherwise hno hnear' hbody hnear htrailing
    have hloop := Statement.loop hkeyword hopening hcond hclosing hs
    refine ⟨_, by simpa using hloop, ?_⟩
    exact hnear''
  | .forLoop hkeyword hclauses hbody, hnear, htrailing => by
    obtain ⟨s, hs, hnear''⟩ := attach hotherwise hno hnear' hbody hnear.2 htrailing
    have hloop := Statement.forLoop hkeyword hclauses hs
    refine ⟨_, by simpa using hloop, ?_⟩
    exact ⟨hnear.1, hnear''⟩
  | .forEmpty .., _, htrailing => nomatch htrailing

end

theorem nearestElse_of_forClauses {w : List Token} {initial : Option (Stmt Unit)}
    {cond step : Option (Expr Unit)} (h : ForClauses w initial cond step) :
    Stmt.NearestElseOption initial := by
  cases h with
  | intro _ hinitial =>
    cases hinitial with
    | none => trivial
    | declared h => exact Parser.nearestElse_of_variable h
    | effect h => exact Parser.nearestElse_of_effect h

mutual

/-- **What can be derived as a statement can be derived with every `else` at
its nearest `if`.** -/
theorem Statement.nearest {w : List Token} {s : Stmt Unit} : Statement w s → Nearest w
  | .effect h => ⟨_, .effect h, Parser.nearestElse_of_effect h⟩
  | .print hkeyword h hsemicolon => ⟨_, .print hkeyword h hsemicolon, trivial⟩
  | .ret hkeyword h hsemicolon => ⟨_, .ret hkeyword h hsemicolon, trivial⟩
  | .block hopening h => by
    obtain ⟨body, hbody, hnear⟩ := h.nearest
    exact ⟨_, .block hopening hbody, hnear⟩
  | .branch hkeyword hopening hcond hclosing hyes => by
    obtain ⟨yes, hyes, hnear⟩ := hyes.nearest
    exact ⟨_, .branch hkeyword hopening hcond hclosing hyes, hnear, trivial, nofun⟩
  | .branchElse hkeyword hopening hcond hclosing hyes hotherwise hno => by
    obtain ⟨yes, hyes, hnear⟩ := hyes.nearest
    obtain ⟨no, hno, hnear'⟩ := hno.nearest
    exact .branchElse hkeyword hopening hcond hclosing hyes hnear hotherwise hno hnear'
      (.attach hotherwise hno hnear' hyes hnear)
  | .loop hkeyword hopening hcond hclosing hbody => by
    obtain ⟨body, hbody, hnear⟩ := hbody.nearest
    exact ⟨_, .loop hkeyword hopening hcond hclosing hbody, hnear⟩
  | .forLoop hkeyword hclauses hbody => by
    obtain ⟨body, hbody, hnear⟩ := hbody.nearest
    exact ⟨_, .forLoop hkeyword hclauses hbody, nearestElse_of_forClauses hclauses, hnear⟩
  | .forEmpty hkeyword hclauses hsemicolon =>
    ⟨_, .forEmpty hkeyword hclauses hsemicolon, nearestElse_of_forClauses hclauses, trivial⟩

/-- The same for a declaration. -/
theorem Declaration.nearest {w : List Token} {s : Stmt Unit} :
    Declaration w s → ∃ s', Declaration w s' ∧ s'.NearestElse
  | .statement h => by
    obtain ⟨s, hs, hnear⟩ := h.nearest
    exact ⟨s, .statement hs, hnear⟩
  | .varDecl h => ⟨_, .varDecl h, Parser.nearestElse_of_variable h⟩
  | .function hkeyword h => by
    obtain ⟨decl, hdecl, hnear⟩ := h.nearest
    exact ⟨_, .function hkeyword hdecl, hnear⟩
  | .classDecl hkeyword hname hsuperclass hopening hmethods hclosing => by
    obtain ⟨ms, hms, hnear⟩ := hmethods.nearest
    exact ⟨_, .classDecl hkeyword hname hsuperclass hopening hms hclosing, hnear⟩

/-- The same for declarations in a row. -/
theorem Declarations.nearest {w : List Token} {ss : List (Stmt Unit)} :
    Declarations w ss → ∃ ss', Declarations w ss' ∧ Stmt.NearestElseAll ss'
  | .nil => ⟨[], .nil, trivial⟩
  | .cons h hrest => by
    obtain ⟨s, hs, hnear⟩ := h.nearest
    obtain ⟨ss, hss, hnear'⟩ := hrest.nearest
    exact ⟨s :: ss, .cons hs hss, hnear, hnear'⟩

/-- The same for a block after its opening brace. -/
theorem Body.nearest {w : List Token} {ss : List (Stmt Unit)} :
    Body w ss → ∃ ss', Body w ss' ∧ Stmt.NearestElseAll ss'
  | .intro h hclosing => by
    obtain ⟨ss, hss, hnear⟩ := h.nearest
    exact ⟨ss, .intro hss hclosing, hnear⟩

/-- The same for a function from its name on. -/
theorem Method.nearest {w : List Token} {decl : Routine (Stmt Unit)} :
    Method w decl → ∃ decl', Method w decl' ∧ Stmt.NearestElseRoutine decl'
  | .intro hname hopening hparams hclosing hbrace hbody => by
    obtain ⟨body, hbody, hnear⟩ := hbody.nearest
    exact ⟨_, .intro hname hopening hparams hclosing hbrace hbody, hnear⟩

/-- The same for methods in a row. -/
theorem Methods.nearest {w : List Token} {ms : List (Routine (Stmt Unit))} :
    Methods w ms → ∃ ms', Methods w ms' ∧ Stmt.NearestElseMethods ms'
  | .nil => ⟨[], .nil, trivial⟩
  | .cons h hrest => by
    obtain ⟨decl, hdecl, hnear⟩ := h.nearest
    obtain ⟨ms, hms, hnear'⟩ := hrest.nearest
    exact ⟨decl :: ms, .cons hdecl hms, hnear, hnear'⟩

end

end Grammar

/-! ## Reading a program -/

namespace Program

/-- **What is read without an issue is derived from all the tokens**, with
every `else` at its nearest `if`. -/
theorem derived_of_read {tokens : List Token} (h : (read tokens).issues = []) :
    Grammar.Program (ahead tokens) (read tokens).program ∧
      Stmt.NearestElseAll (read tokens).program := by
  have hbound : 32 * (ahead tokens).length + 21 ≤ depthBound (ahead tokens).length := by
    simp only [depthBound]
    omega
  -- the bound is enough for that many tokens, so the parser never runs out of it
  have hmeets := (Parser.readsStatements _).declarations none (ahead tokens) hbound
  unfold Parser.Meets at hmeets
  unfold read at h ⊢
  cases hread : Parser.declarations (depthBound (ahead tokens).length) none (ahead tokens) with
  | ok p rest issues =>
    simp only [hread] at h hmeets ⊢
    obtain ⟨w, htokens, hderived, hrest⟩ := hmeets.2 h
    -- nothing but the end stops declarations at the top
    have hend : rest = [] := by
      rcases hrest with hrest | hrest <;> simpa using hrest
    rw [htokens, hend, List.append_nil]
    exact hderived
  | failed rest issues =>
    simp only [hread] at h hmeets
    exact absurd h hmeets.2
  | exhausted => simp only [hread] at hmeets

/-- What is derived from all the tokens, with every `else` at its nearest
`if`, is what is read. -/
theorem read_of_derived {tokens : List Token} {p : Program Unit}
    (h : Grammar.Program (ahead tokens) p) (hnear : Stmt.NearestElseAll p) :
    read tokens = ⟨p, []⟩ := by
  have hbound : 32 * (ahead tokens ++ []).length + 21 ≤ depthBound (ahead tokens).length := by
    simp only [depthBound, List.append_nil]
    omega
  have hread := Parser.yields_of_declarations h hnear [] _ none (.inl rfl) (.inl rfl) hbound
  rw [List.append_nil] at hread
  simp only [read, hread]

/-- **Exactly the grammar is accepted**: reading a list of tokens leaves
nothing to report if and only if the tokens before the first end mark can be
derived as a program. -/
theorem reports_eq_nil_iff_derivable (tokens : List Token) :
    reports tokens = [] ↔ ∃ p, Grammar.Program (ahead tokens) p := by
  have hissues : reports tokens = [] ↔ (read tokens).issues = [] := List.map_eq_nil_iff
  rw [hissues]
  constructor
  · intro h
    exact ⟨_, (derived_of_read h).1⟩
  · rintro ⟨p, hp⟩
    -- the grammar is ambiguous about `else`; the parser reads the nearest one
    obtain ⟨p', hp', hnear⟩ := hp.nearest
    rw [read_of_derived hp' hnear]

end Program

end TanLang
