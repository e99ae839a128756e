import TanLang.Proofs.Parsing.Stratified
import TanLang.Proofs.Source.Layout
/-!
# Parsing — trees are faithful to their tokens

The tokens of a source are spelled as their kinds are, where these have one
spelling. So a program without a `for` loses nothing on its way into a tree:
**the tree flattens to the tokens it was read from, kind by kind and lexeme
by lexeme**; and the other way round, what a stratified tree flattens to is
read as this tree.
-/

namespace TanLang

namespace Source

/-! ## The tokens of a source are spelled as their kinds are -/

open Token (Regular)

theorem punctuation_spelled {c : Char} {kind : Token.Kind} (h : punctuation c = some kind) :
    kind.spelling? = some (Text.ofChars [c]) ∧ c.toNat < 128 := by
  unfold punctuation at h
  split at h <;> cases h <;> decide

theorem comparison_spelled {c : Char} {alone paired : Token.Kind}
    (h : comparison c = some (alone, paired)) :
    alone.spelling? = some (Text.ofChars [c]) ∧ paired.spelling? = some (Text.ofChars [c, '=']) ∧
      c.toNat < 128 := by
  unfold comparison at h
  split at h <;> cases h <;> decide

theorem regular_word (w : Text) (line : Int) : Regular ⟨.ofWord w, w, .nil, line⟩ := by
  intro spelling h
  simp only [Token.Kind.ofWord] at h
  split at h
  · rename_i k hfind
    have hall : ∀ k ∈ Token.Kind.keywords, k.2.spelling? = some (Text.ofString k.1) := by decide
    rw [hall k (List.mem_of_find?_eq_some hfind)] at h
    have hspelled : Text.ofString k.1 = w := by simpa using List.find?_some hfind
    exact hspelled.symm.trans (Option.some.inj h)
  · cases h

/-- Glyphs of characters below 128 are spelled by the characters. -/
def Spelled (gs : List Glyph) : Prop := ∀ g ∈ gs, g.char.toNat < 128 → g.raw = Text.ofChar g.char

/-- **A token that is cut off is spelled as its kind is.** -/
theorem cut_regular {line : Int} {g : Glyph} {rest : List Glyph} {t : Token}
    (hspelled : Spelled (g :: rest)) (h : (cut line g rest).piece = .token t) : Regular t := by
  have hfirst := hspelled g (List.mem_cons_self ..)
  unfold cut at h
  simp only at h
  split at h
  · cases h
  split at h
  · simp only [cutComment, if_true, reduceCtorEq] at h
  split at h
  · unfold cutComment at h
    split at h
    · cases h
    · split at h <;> cases h
  split at h
  · unfold cutString at h
    split at h
    · cases h
      rintro _ ⟨⟩
    · cases h
  split at h
  · rename_i hpair
    obtain ⟨halone, hpaired, hlow⟩ := comparison_spelled hpair
    split at h
    · rename_i hnext
      cases h
      intro spelling hkind
      cases rest with
      | nil => cases hnext
      | cons next rest =>
        have hequals : next.char = '=' := Option.some.inj hnext
        have hsecond : next.raw = Text.ofChar '=' := by
          rw [hspelled next (by simp) (by rw [hequals]; decide), hequals]
        rw [← Option.some.inj (hpaired.symm.trans hkind)]
        simp [Text.ofGlyphs, Text.ofChars, hfirst hlow, hsecond]
    · cases h
      intro spelling hkind
      rw [← Option.some.inj (halone.symm.trans hkind)]
      simp [Text.ofGlyphs, Text.ofChars, hfirst hlow]
  · rename_i hmark
    obtain ⟨hspelling, hlow⟩ := punctuation_spelled hmark
    cases h
    intro spelling hkind
    rw [← Option.some.inj (hspelling.symm.trans hkind)]
    simp [Text.ofGlyphs, Text.ofChars, hfirst hlow]
  · split at h
    · cases h
      exact regular_word _ _
    split at h
    · cases h
      rintro _ ⟨⟩
    · cases h

theorem regular_of_mem_pieces {t : Token} : ∀ (skip : Nat) (line : Int) (gs : List Glyph),
    Spelled gs → .token t ∈ piecesAfter skip line gs → Regular t := by
  intro skip line gs
  induction gs generalizing skip line with
  | nil =>
    intro _ h
    rw [piecesAfter, List.mem_singleton] at h
    cases h
    rintro _ ⟨⟩
  | cons g gs ih =>
    intro hspelled h
    have hrest : Spelled gs := fun g' hg' => hspelled g' (List.mem_cons_of_mem _ hg')
    cases skip with
    | succ skip => exact ih skip line hrest h
    | zero =>
      rw [piecesAfter] at h
      rcases List.mem_cons.1 h with hpiece | hmem
      · exact cut_regular hspelled hpiece.symm
      · exact ih _ _ hrest hmem

/-- **The tokens of a source are spelled as their kinds are.** -/
theorem regular_of_mem_tokens {src : Text} {t : Token} (h : t ∈ tokens src) : Regular t := by
  obtain ⟨piece, hpiece, htoken⟩ := List.mem_filterMap.1 h
  have hspelled : Spelled (body src) := by
    rw [body_eq]
    exact fun g hg hlow => Text.raw_of_mem_glyphsAfter hg hlow
  cases piece with
  | token u =>
    cases htoken
    exact regular_of_mem_pieces 0 1 (body src) hspelled hpiece
  | _ => cases htoken

end Source

namespace Program

/-! ## Both ways -/

/-- **Trees are faithful to their tokens.** If tokens without a `for` are read
without a report, the program that is read flattens to them: to their kinds
and, where a kind can be spelled in several ways, their lexemes, and to all
their lexemes if each token is spelled as its kind is. That is so for the
tokens of every source. And what a stratified program flattens to, with every
`else` in it at the nearest `if`, is read without a report as this program,
whether a mark of the end follows or not. -/
theorem faithful :
    (∀ tokens, reports tokens = [] → (∀ t ∈ ahead tokens, t.kind ≠ .forWord) →
      (Stmt.flattenAll (ofTokens tokens)).map Token.shape = (ahead tokens).map Token.shape ∧
      ((∀ t ∈ ahead tokens, t.Regular) →
        (Stmt.flattenAll (ofTokens tokens)).map (fun t => (t.kind, t.lexeme)) =
          (ahead tokens).map fun t => (t.kind, t.lexeme))) ∧
    (∀ src, ∀ t ∈ Source.tokens src, t.Regular) ∧
    (∀ p : Program Unit, Stmt.stratifiedAll p = true → Stmt.NearestElseAll p →
      ∀ rest, ahead rest = [] →
        ahead (Stmt.flattenAll p ++ rest) = Stmt.flattenAll p ∧
        ofTokens (Stmt.flattenAll p ++ rest) = p ∧ reports (Stmt.flattenAll p ++ rest) = []) := by
  refine ⟨fun tokens h hfor => ⟨?_, fun hregular => ?_⟩, fun src t ht => ?_,
    fun p h hnear rest hrest => ?_⟩
  · exact map_flatten_ofTokens h hfor fun t _ => Token.overlooks_shape t
  · exact map_flatten_ofTokens h hfor fun t ht => (hregular t ht).overlooks
  · exact Source.regular_of_mem_tokens ht
  · have hahead := ahead_flattenAll h rest hrest
    exact ⟨hahead, ofTokens_of_flattenAll h hnear hahead⟩

/-- A source whose `else` could go to either of two `if`s, and the tree of
another one written down. -/
theorem faithful_else :
    let tokens := Source.tokens (Text.ofString "if (a) if (b) print -c * (d or e.f(g)); else h = i;")
    let name (s : String) : Token := ⟨.identifier, Text.ofString s, .nil, 1⟩
    let p : Program Unit :=
      [.branch (.mark .ifWord) (.var (name "a") ())
        (.branch (.mark .ifWord) (.var (name "b") ())
          (.print (.mark .printWord) (.binary (.unary (.mark .minus) (.var (name "c") ()))
            (.mark .star) (.grouping (.mark .leftParen) (.logical (.var (name "d") ())
              (.mark .orWord) (.call (.get (.var (name "e") ()) (name "f")) (.mark .rightParen)
                [.var (name "g") ()])))))
          (some (.expr (.assign (name "h") () (.var (name "i") ()))))) none]
    (Stmt.flattenAll (ofTokens tokens)).map (fun t => (t.kind, t.lexeme)) =
        (ahead tokens).map (fun t => (t.kind, t.lexeme)) ∧
      ofTokens (Stmt.flattenAll p) = p ∧ reports (Stmt.flattenAll p) = [] := by
  intro tokens name p
  obtain ⟨hread, hregular, hwritten⟩ := faithful
  have htokens := (hread tokens (by decide +kernel) (by decide +kernel)).2 fun t ht =>
    hregular _ t ((List.takeWhile_sublist _).subset ht)
  have hnear : Stmt.NearestElseAll p :=
    ⟨⟨⟨trivial, trivial, fun _ => rfl⟩, trivial, fun h => absurd h Bool.false_ne_true⟩, trivial⟩
  have hp := hwritten p (by decide +kernel) hnear [] rfl
  rw [List.append_nil] at hp
  exact ⟨htokens, hp.2⟩

end Program

end TanLang
