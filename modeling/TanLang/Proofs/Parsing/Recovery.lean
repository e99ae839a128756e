import TanLang.Proofs.Parsing.Acceptance
import TanLang.Proofs.Parsing.Places
import Mathlib.Data.List.TakeWhile
import Mathlib.Order.Bounds.Defs
/-!
# Parsing — going on after a failure

Reading a list of tokens always comes to its end, whatever the tokens are:
declarations at the top never run out of their bound, never give up and leave
nothing behind. A declaration that gives up does so at one of the tokens, and
is gone on after at **the first place behind that token where a declaration
may start**: after a semicolon, at one of the words that begin a statement,
or at the end.
-/

namespace TanLang

namespace Parser

/-! ## The place to go on -/

/-- The words at which parsing goes on. -/
def resumingWords : List Token.Kind :=
  [.classWord, .functionWord, .varWord, .forWord, .ifWord, .whileWord, .printWord, .returnWord]

theorem startsStatement_eq (kind : Token.Kind) :
    startsStatement kind = true ↔ kind ∈ resumingWords := by
  cases kind <;> decide

/-- **Parsing may go on at a place** among the tokens: it is right after a
semicolon, at a word that begins a statement, or at the end. -/
def ResumesAt (tokens : List Token) (j : Nat) : Prop :=
  (∃ t ∈ tokens[j - 1]?, t.kind = .semicolon) ∨ (∃ t ∈ tokens[j]?, t.kind ∈ resumingWords) ∨
    tokens[j]? = none

/-- **Skipping stops at the first place to go on.** -/
theorem skipAfter_drop {tokens : List Token} {e : Nat} {last : Token}
    (hlast : tokens[e]? = some last) :
    ∃ j, IsLeast {j | e < j ∧ ResumesAt tokens j} j ∧
      skipAfter last (tokens.drop (e + 1)) = tokens.drop j := by
  have hleast : ResumesAt tokens (e + 1) → IsLeast {j | e < j ∧ ResumesAt tokens j} (e + 1) :=
    fun h => ⟨⟨Nat.lt_succ_self e, h⟩, fun _ hj => hj.1⟩
  cases hnext : tokens[e + 1]? with
  | none =>
    refine ⟨e + 1, hleast (.inr (.inr hnext)), ?_⟩
    rw [List.drop_eq_nil_of_le (List.getElem?_eq_none_iff.1 hnext), skipAfter]
  | some t =>
    obtain ⟨hlt, hget⟩ := List.getElem?_eq_some_iff.1 hnext
    rw [List.drop_eq_getElem_cons hlt, hget, skipAfter]
    split
    case isTrue hstop =>
      refine ⟨e + 1, hleast ?_, by rw [List.drop_eq_getElem_cons hlt, hget]⟩
      rcases hstop with hsemicolon | hword
      · exact .inl ⟨last, hlast, hsemicolon⟩
      · exact .inr (.inl ⟨t, hnext, (startsStatement_eq _).1 hword⟩)
    case isFalse hgo =>
      -- the next place is none to go on at, so the search is the one from there
      obtain ⟨j, hj, hskip⟩ := skipAfter_drop hnext
      refine ⟨j, ⟨⟨Nat.lt_of_succ_lt hj.1.1, hj.1.2⟩, fun k hk => ?_⟩, hskip⟩
      refine hj.2 ⟨Nat.lt_of_le_of_ne hk.1 ?_, hk.2⟩
      rintro rfl
      apply hgo
      rcases hk.2 with ⟨u, hu, hsemicolon⟩ | ⟨u, hu, hword⟩ | hnone
      · rw [Nat.add_sub_cancel, hlast] at hu
        cases hu
        exact .inl hsemicolon
      · rw [hnext] at hu
        cases hu
        exact .inr ((startsStatement_eq _).2 hword)
      · rw [hnext] at hnone
        cases hnone
termination_by tokens.length - e
decreasing_by omega

/-- **Where parsing goes on after giving up** at a place among the tokens. -/
theorem recover_drop {tokens : List Token} {e : Nat} (he : e < tokens.length) :
    ∃ j, IsLeast {j | e < j ∧ ResumesAt tokens j} j ∧
      recover (tokens.drop e) = tokens.drop j := by
  rw [List.drop_eq_getElem_cons he]
  exact skipAfter_drop (List.getElem?_eq_getElem he)

/-! ## The places of all parsers -/

/-- **The parsers that reading a program is made of**, with their bounds. -/
inductive Reader : {α : Type} → Parser α → Prop
  | next : Reader Parser.next
  | nextKind : Reader Parser.nextKind
  | acceptWhere (wanted : Token.Kind → Bool) : Reader (acceptWhere wanted)
  | accept (kind : Token.Kind) : Reader (accept kind)
  | expect (kind : Token.Kind) (c : Complaint) : Reader (expect kind c)
  | atom : Reader atom
  | assignment (n : Nat) : Reader (assignment n)
  | ternary (n : Nat) : Reader (ternary n)
  | tier (n : Nat) (t : Tier) : Reader (tier n t)
  | tierRest (n : Nat) (t : Tier) (left : Expr Unit) : Reader (tierRest n t left)
  | operand (n : Nat) (t : Tier) : Reader (operand n t)
  | unary (n : Nat) : Reader (unary n)
  | call (n : Nat) : Reader (call n)
  | callRest (n : Nat) (callee : Expr Unit) : Reader (callRest n callee)
  | arguments (n count : Nat) : Reader (arguments n count)
  | primary (n : Nat) : Reader (primary n)
  | parameters (n count : Nat) : Reader (parameters n count)
  | varDeclaration (n : Nat) : Reader (varDeclaration n)
  | expressionStatement (n : Nat) : Reader (expressionStatement n)
  | expressionUnless (kind : Token.Kind) (n : Nat) : Reader (expressionUnless kind n)
  | printStatement (n : Nat) (keyword : Token) : Reader (printStatement n keyword)
  | returnStatement (n : Nat) (keyword : Token) : Reader (returnStatement n keyword)
  | forInitial (n : Nat) : Reader (forInitial n)
  | declaration (n : Nat) : Reader (declaration n)
  | declared (n : Nat) : Reader (declared n)
  | classDeclaration (n : Nat) : Reader (classDeclaration n)
  | methods (n : Nat) : Reader (methods n)
  | routine (n : Nat) (kind : RoutineKind) : Reader (routine n kind)
  | blockBody (n : Nat) : Reader (blockBody n)
  | declarations (n : Nat) (closing : Option Token.Kind) : Reader (declarations n closing)
  | statement (n : Nat) : Reader (statement n)
  | forStatement (n : Nat) (keyword : Token) : Reader (forStatement n keyword)
  | ifStatement (n : Nat) (keyword : Token) : Reader (ifStatement n keyword)
  | whileStatement (n : Nat) (keyword : Token) : Reader (whileStatement n keyword)

/-- Every one of them leaves an end of its tokens. -/
theorem Reader.placed {α : Type} {p : Parser α} (h : Reader p) (tokens : List Token) :
    (p tokens).Placed tokens := by
  have expressions : ∀ n, ProlongsExpressions n n := fun n => prolongsExpressions (Nat.le_refl n)
  have statements : ∀ n, ProlongsStatements n n := fun n => prolongsStatements (Nat.le_refl n)
  suffices hp : Prolongs p p from hp.placed tokens
  cases h with
  | next => exact .next
  | nextKind => exact .nextKind
  | acceptWhere wanted => exact .acceptWhere wanted
  | accept kind => exact .accept kind
  | expect kind c => exact .expect kind c
  | atom => exact .atom
  | assignment n => exact (expressions n).assignment
  | ternary n => exact (expressions n).ternary
  | tier n t => exact (expressions n).tier t
  | tierRest n t left => exact (expressions n).tierRest t left
  | operand n t => exact (expressions n).operand t
  | unary n => exact (expressions n).unary
  | call n => exact (expressions n).call
  | callRest n callee => exact (expressions n).callRest callee
  | arguments n count => exact (expressions n).arguments count
  | primary n => exact (expressions n).primary
  | parameters n count => exact parameters_prolongs (Nat.le_refl n) count
  | varDeclaration n => exact varDeclaration_prolongs (Nat.le_refl n)
  | expressionStatement n => exact expressionStatement_prolongs (Nat.le_refl n)
  | expressionUnless kind n => exact expressionUnless_prolongs (Nat.le_refl n) kind
  | printStatement n keyword => exact printStatement_prolongs (Nat.le_refl n) keyword
  | returnStatement n keyword => exact returnStatement_prolongs (Nat.le_refl n) keyword
  | forInitial n => exact forInitial_prolongs (Nat.le_refl n)
  | declaration n => exact (statements n).declaration
  | declared n => exact (statements n).declared
  | classDeclaration n => exact (statements n).classDeclaration
  | methods n => exact (statements n).methods
  | routine n kind => exact (statements n).routine kind
  | blockBody n => exact (statements n).blockBody
  | declarations n closing => exact (statements n).declarations closing
  | statement n => exact (statements n).statement
  | forStatement n keyword => exact (statements n).forStatement keyword
  | ifStatement n keyword => exact (statements n).ifStatement keyword
  | whileStatement n keyword => exact (statements n).whileStatement keyword

/-- **An outcome stays within the tokens**: a parser that was at one place is
at another one, not in front of it and not beyond the end. -/
def Outcome.Within {α : Type} (tokens : List Token) (i : Nat) : Outcome α → Prop
  | .ok _ rest _ | .failed rest _ => ∃ e, i ≤ e ∧ e ≤ tokens.length ∧ rest = tokens.drop e
  | .exhausted => True

/-- What is left after a place is left after a later one. -/
theorem exists_drop_of_suffix {tokens rest : List Token} {i : Nat} (hi : i ≤ tokens.length)
    (h : rest <:+ tokens.drop i) : ∃ e, i ≤ e ∧ e ≤ tokens.length ∧ rest = tokens.drop e := by
  have hlength := h.length_le
  rw [List.length_drop] at hlength
  refine ⟨tokens.length - rest.length, by omega, by omega, ?_⟩
  exact List.suffix_iff_eq_drop.1 (h.trans (List.drop_suffix i tokens))

theorem Reader.within {α : Type} {p : Parser α} (h : Reader p) {tokens : List Token} {i : Nat}
    (hi : i ≤ tokens.length) : (p (tokens.drop i)).Within tokens i := by
  have hplaced := h.placed (tokens.drop i)
  cases hp : p (tokens.drop i) with
  | ok a rest issues =>
    rw [hp] at hplaced
    exact exists_drop_of_suffix hi hplaced
  | failed rest issues =>
    rw [hp] at hplaced
    exact exists_drop_of_suffix hi hplaced.1
  | exhausted => trivial

/-! ## Declarations in a row -/

/-- **A parser has carried on**: it has not given up, and what it leaves is
as told. -/
def Outcome.CarriedOn {α : Type} (Left : List Token → Prop) : Outcome α → Prop
  | .ok _ rest _ => Left rest
  | .failed _ _ => False
  | .exhausted => True

theorem Outcome.CarriedOn.bind {α β : Type} {p : Parser α} {f : α → Parser β}
    {tokens : List Token} {Between Left : List Token → Prop} (hp : (p tokens).CarriedOn Between)
    (hf : ∀ a rest, Between rest → (f a rest).CarriedOn Left) :
    ((p >>= f) tokens).CarriedOn Left := by
  change (andThen p f tokens).CarriedOn Left
  unfold andThen
  cases hpt : p tokens with
  | ok a rest issues =>
    rw [hpt] at hp
    have hfa := hf a rest hp
    cases hft : f a rest with
    | ok b rest' issues' =>
      rw [hft] at hfa
      simp only [hft]
      exact hfa
    | failed rest' issues' =>
      rw [hft] at hfa
      exact hfa.elim
    | exhausted =>
      simp only [hft]
      trivial
  | failed rest issues =>
    rw [hpt] at hp
    exact hp.elim
  | exhausted => trivial

/-- A declaration that gives up is dropped, and nothing more. -/
theorem declaration_carriedOn (n : Nat) (tokens : List Token) :
    (declaration n tokens).CarriedOn fun _ => True := by
  cases n with
  | zero => trivial
  | succ n =>
    simp only [declaration, recovering]
    cases declared n tokens <;> trivial

/-- **Declarations in a row never give up**, and go on up to the end or to a
token that closes them. -/
theorem declarations_carriedOn (closing : Option Token.Kind) : ∀ (n : Nat) (tokens : List Token),
    (declarations n closing tokens).CarriedOn fun rest =>
      rest.head?.map Token.kind = none ∨ rest.head?.map Token.kind = closing
  | 0, _ => trivial
  | n + 1, tokens => by
    rw [declarations, bind_eq nextKind_eq]
    split
    case isTrue hend => exact hend
    case isFalse =>
      refine .bind (declaration_carriedOn n tokens) fun first rest _ => ?_
      exact .bind (declarations_carriedOn closing n rest) fun more left hleft => hleft

end Parser

namespace Program

/-- **Reading is bounded by nothing but the tokens**: with any bound that is
enough for so many of them, the declarations come to the end, and what they
answer is what is read. -/
theorem declarations_eq_read (tokens : List Token) {bound : Nat}
    (hbound : depthBound (ahead tokens).length ≤ bound) :
    Parser.declarations bound none (ahead tokens) =
      .ok (read tokens).program [] (read tokens).issues := by
  have henough : 32 * (ahead tokens).length + 21 ≤ depthBound (ahead tokens).length := by
    simp only [depthBound]
    omega
  have hmeets := (Parser.readsStatements _).declarations none (ahead tokens) henough
  have hcarried := Parser.declarations_carriedOn none (depthBound (ahead tokens).length)
    (ahead tokens)
  have hsame := ((Parser.prolongsStatements hbound).declarations none).same (ahead tokens)
  unfold Parser.Meets at hmeets
  unfold read
  cases hread : Parser.declarations (depthBound (ahead tokens).length) none (ahead tokens) with
  | ok p rest issues =>
    rw [hread] at hcarried
    have hend : rest = [] := by
      rcases hcarried with hend | hend <;> simpa using hend
    rw [hsame (by simp only [hread, ne_eq, reduceCtorEq, not_false_eq_true]), hread, hend]
  | failed rest issues =>
    rw [hread] at hcarried
    exact hcarried.elim
  | exhausted =>
    rw [hread] at hmeets
    exact hmeets.elim

/-! ## The end of the tokens -/

theorem ahead_eq_self_iff {tokens : List Token} :
    ahead tokens = tokens ↔ ∀ t ∈ tokens, t.kind ≠ .eof := by
  simp only [ahead, List.takeWhile_eq_self_iff, decide_eq_true_eq]

/-- There is one more token than those ahead: the end mark. -/
theorem length_ahead_lt_tokenCount (tokens : List Token) :
    (ahead tokens).length < tokenCount tokens := by
  have hfront : ahead tokens <+: tokens := List.takeWhile_prefix _
  have hle := hfront.length_le
  unfold tokenCount
  split
  case isFalse => omega
  case isTrue hmark =>
    obtain ⟨mark, hlast, hkind⟩ := Option.map_eq_some_iff.1 hmark
    -- tokens that end in a mark are not all ahead of it
    refine Nat.lt_of_le_of_ne hle fun hlength => ?_
    exact ahead_eq_self_iff.1 (hfront.eq_of_length hlength) mark (List.mem_of_getLast? hlast) hkind

/-- **Nothing behind the end mark counts**, and a mark that is supplied where
there is none changes nothing either. -/
theorem ahead_endLine_append {tokens more : List Token}
    (h : (∃ t ∈ tokens, t.kind = .eof) ∨
      ∃ t ∈ more.head?, t.kind = .eof ∧ t.line = endLine tokens) :
    ahead (tokens ++ more) = ahead tokens ∧ endLine (tokens ++ more) = endLine tokens := by
  by_cases hmark : ∃ t ∈ tokens, t.kind = .eof
  · constructor
    · unfold ahead
      rw [List.takeWhile_append, if_neg]
      intro hlength
      obtain ⟨t, ht, hkind⟩ := hmark
      have hall : ahead tokens = tokens := (List.takeWhile_prefix _).eq_of_length hlength
      exact ahead_eq_self_iff.1 hall t ht hkind
    · have hfound : (tokens.find? fun t => t.kind = .eof).isSome := by
        simpa only [List.find?_isSome, decide_eq_true_eq] using hmark
      obtain ⟨t, ht⟩ := Option.isSome_iff_exists.1 hfound
      unfold endLine
      rw [List.find?_append, ht, Option.some_or]
  · obtain ⟨t, ht, hkind, hline⟩ := h.resolve_left hmark
    obtain ⟨rest, rfl⟩ := List.head?_eq_some_iff.1 ht
    have hnone : ∀ t ∈ tokens, t.kind ≠ .eof := fun t ht hkind => hmark ⟨t, ht, hkind⟩
    constructor
    · rw [ahead_eq_self_iff.2 hnone]
      unfold ahead
      rw [List.takeWhile_append_of_pos fun t ht => decide_eq_true (hnone t ht),
        List.takeWhile_cons_of_neg (by simpa using hkind), List.append_nil]
    · have hfound : (tokens.find? fun t => t.kind = .eof) = none := by
        simpa only [List.find?_eq_none, decide_eq_true_eq] using hnone
      rw [← hline]
      unfold endLine
      rw [List.find?_append, hfound, Option.none_or, List.find?_cons_of_pos (by simpa using hkind)]

/-! ## Going on -/

/-- **Reading always comes to its end, and goes on after every failure.**
With any bound that is enough, declarations are read to the end of the tokens
and none of them escapes with a failure; no parser leaves the tokens, of
which there is one behind the last one ahead; and what follows the end mark is
never looked at. A declaration that gives up has complained, last about the
token it gave up at, and is gone on after at the first place behind that
token where parsing may go on, or at the end if it gave up there. -/
theorem read_goes_on (tokens : List Token) :
    (∀ bound, depthBound (ahead tokens).length ≤ bound →
      Parser.declarations bound none (ahead tokens) =
        .ok (read tokens).program [] (read tokens).issues) ∧
    ((ahead tokens).length < tokenCount tokens ∧
      ∀ {α : Type} (p : Parser α), Parser.Reader p → ∀ i ≤ (ahead tokens).length,
        (p ((ahead tokens).drop i)).Within (ahead tokens) i) ∧
    (∀ more : List Token, ((∃ t ∈ tokens, t.kind = .eof) ∨
        ∃ t ∈ more.head?, t.kind = .eof ∧ t.line = endLine tokens) →
      read (tokens ++ more) = read tokens ∧ reports (tokens ++ more) = reports tokens) ∧
    ∀ n, ∀ i ≤ (ahead tokens).length, ∀ rest issues,
      Parser.declared n ((ahead tokens).drop i) = .failed rest issues →
      ∃ e j c, i ≤ e ∧ e ≤ (ahead tokens).length ∧ rest = (ahead tokens).drop e ∧
        issues.getLast? = some ⟨(ahead tokens)[e]?, c⟩ ∧
        Parser.declaration (n + 1) ((ahead tokens).drop i) =
          .ok none ((ahead tokens).drop j) issues ∧
        if e = (ahead tokens).length then j = e
        else IsLeast {j | e < j ∧ Parser.ResumesAt (ahead tokens) j} j := by
  refine ⟨fun bound => declarations_eq_read tokens,
    ⟨length_ahead_lt_tokenCount tokens, fun p hp i hi => hp.within hi⟩, fun more hmore => ?_,
    fun n i hi rest issues hfailed => ?_⟩
  · obtain ⟨hahead, hend⟩ := ahead_endLine_append hmore
    have hread : read (tokens ++ more) = read tokens := by simp only [read, hahead]
    exact ⟨hread, by simp only [reports, hread, hend]⟩
  · have hplaced := (Parser.Reader.declared n).placed ((ahead tokens).drop i)
    rw [hfailed] at hplaced
    obtain ⟨hsuffix, c, hlast⟩ := hplaced
    obtain ⟨e, hie, he, rfl⟩ := Parser.exists_drop_of_suffix hi hsuffix
    rw [List.head?_drop] at hlast
    have hgoes : Parser.declaration (n + 1) ((ahead tokens).drop i) =
        .ok none (Parser.recover ((ahead tokens).drop e)) issues := by
      simp only [Parser.declaration, Parser.recovering, hfailed]
    by_cases hend : e = (ahead tokens).length
    · refine ⟨e, e, c, hie, he, rfl, hlast, ?_, by rw [if_pos hend]⟩
      rw [hgoes, List.drop_eq_nil_of_le (Nat.le_of_eq hend.symm)]
      rfl
    · obtain ⟨j, hleast, hj⟩ := Parser.recover_drop (Nat.lt_of_le_of_ne he hend)
      exact ⟨e, j, c, hie, he, rfl, hlast, by rw [hgoes, hj], by rwa [if_neg hend]⟩

/-- A variable without a name: what is missing is noticed at its semicolon,
and the name behind it is where parsing goes on. -/
theorem read_goes_on_unnamed :
    let tokens : List Token :=
      [⟨.varWord, Text.ofString "var", .nil, 1⟩, ⟨.semicolon, Text.ofString ";", .nil, 1⟩,
        ⟨.identifier, Text.ofString "x", .nil, 1⟩, ⟨.semicolon, Text.ofString ";", .nil, 1⟩]
    let issue : Parser.Issue := ⟨tokens[1]?, .variableName⟩
    Parser.declared 9 tokens = .failed (tokens.drop 1) [issue] ∧
      Parser.declaration 10 tokens = .ok none (tokens.drop 2) [issue] ∧
      IsLeast {j | 1 < j ∧ Parser.ResumesAt tokens j} 2 := by
  intro tokens issue
  have hahead : ahead tokens = tokens := by decide
  have hfailed : Parser.declared 9 tokens = .failed (tokens.drop 1) [issue] := rfl
  obtain ⟨-, -, -, hgoes⟩ := read_goes_on tokens
  rw [hahead] at hgoes
  obtain ⟨e, j, c, -, he, hrest, -, hdeclaration, hleast⟩ :=
    hgoes 9 0 (Nat.zero_le _) _ _ hfailed
  -- it gave up at the second of four tokens, and goes on at the third
  obtain rfl : e = 1 := by
    have hlength := congrArg List.length hrest
    simp only [List.length_drop] at hlength
    have : tokens.length = 4 := rfl
    omega
  rw [if_neg (by decide)] at hleast
  obtain rfl : j = 2 := by
    have hsemicolon : Parser.ResumesAt tokens 2 := .inl ⟨_, rfl, rfl⟩
    have hle := hleast.2 ⟨Nat.lt_succ_self 1, hsemicolon⟩
    have hlt : 1 < j := hleast.1.1
    omega
  exact ⟨hfailed, hdeclaration, hleast⟩

end Program

end TanLang
