import TanLang.Proofs.Parsing.Renaming
import TanLang.Proofs.Source.Layout
/-!
# Source — respelled tokens have a source

A token that was cut off once is cut off again from its own lexeme, with a
space behind it. So the tokens of a source can be written down anew, one
after the other, each behind enough line ends to stand on its old line, and
with another identifier in the place of one of them: **the source that this
gives is scanned as the respelled tokens**, and there is nothing to report.
-/

namespace TanLang

namespace Source

/-- The space behind a token. -/
def space : Glyph := .of ' '

variable (more : List Glyph)

/-! ## A token is cut off again -/

theorem takeWhile_space {p : Glyph → Bool} (hp : p space = false) (gs : List Glyph) :
    (gs.takeWhile p ++ space :: more).takeWhile p = gs.takeWhile p := by
  induction gs with
  | nil => simp [hp]
  | cons g gs ih =>
    by_cases hg : p g = true
    · simp [hg, ih]
    · simp [hg, hp]

theorem take_takeWhile (p : Glyph → Bool) (gs : List Glyph) :
    gs.take (gs.takeWhile p).length = gs.takeWhile p :=
  (List.prefix_iff_eq_take.1 (List.takeWhile_prefix p)).symm

theorem taken_plainToken (kind : Token.Kind) (literal : Literal) (line : Int) (g : Glyph)
    (gs : List Glyph) (n : Nat) : (plainToken kind literal line g gs n).taken = n := rfl

theorem plainToken_again {kind : Token.Kind} {literal : Literal} {line : Int} {g : Glyph}
    {gs rest : List Glyph} {n : Nat} (hn : n ≤ gs.length) :
    plainToken kind literal line g (gs.take n ++ rest) n = plainToken kind literal line g gs n := by
  have hlength : (gs.take n).length = n := List.length_take_of_le hn
  have htake : (gs.take n ++ rest).take n = gs.take n := by
    rw [List.take_append_of_le_length (Nat.le_of_eq hlength.symm), List.take_take, Nat.min_self]
  unfold plainToken
  rw [htake]

variable {line : Int} {g : Glyph} {gs : List Glyph}

/-- A string ends where it ended. -/
theorem stringBody_take {last : Int} {taken n : Nat} {reversed value : List Char}
    (h : stringBody line taken reversed gs = .closed n value last) :
    ∃ k, n = taken + k ∧ k ≤ gs.length ∧
      stringBody line taken reversed (gs.take k) = .closed n value last := by
  fun_induction stringBody line taken reversed gs with
  | case1 => cases h
  | case2 line taken reversed g rest hquote =>
    cases h
    exact ⟨1, rfl, by simp, stringBody_quote _ _ _ _ hquote⟩
  | case3 => cases h
  | case4 line taken reversed g hquote hslash e rest ih =>
    obtain ⟨k, hn, hle, hbody⟩ := ih h
    refine ⟨k + 2, by omega, by simp only [List.length_cons]; omega, ?_⟩
    rw [List.take_succ_cons, List.take_succ_cons, stringBody_escape _ _ _ _ _ hslash]
    exact hbody
  | case5 line taken reversed g rest hquote hslash ih =>
    obtain ⟨k, hn, hle, hbody⟩ := ih h
    refine ⟨k + 1, by omega, by simp only [List.length_cons]; omega, ?_⟩
    rw [List.take_succ_cons, stringBody_plain _ _ _ _ hquote hslash]
    exact hbody

theorem cutString_again {t : Token} (h : (cutString line g gs).piece = .token t) :
    cutString line g (gs.take (cutString line g gs).taken ++ space :: more) =
      cutString line g gs ∧ (cutString line g gs).taken ≤ gs.length := by
  unfold cutString at h ⊢
  cases hbody : stringBody line 0 [] gs with
  | unclosed last =>
    simp only [hbody] at h
    cases h
  | closed n value last =>
    obtain ⟨k, hn, hle, hagain⟩ := stringBody_take hbody
    obtain rfl : n = k := by omega
    have hmore := (stringBody_append (space :: more) hagain).1
    simp only [plainToken, hmore]
    exact ⟨plainToken_again hle, hle⟩

theorem cutWord_again :
    cutWord line g (gs.take (cutWord line g gs).taken ++ space :: more) = cutWord line g gs ∧
      (cutWord line g gs).taken ≤ gs.length := by
  have hstops : Text.continuesWord space.char = false := by decide
  have htaken := length_takeWhile_le (fun g => Text.continuesWord g.char) gs
  have htake := take_takeWhile (fun g => Text.continuesWord g.char) gs
  have hagain := takeWhile_space (p := fun g => Text.continuesWord g.char) more hstops gs
  refine ⟨?_, htaken⟩
  unfold cutWord plainToken
  simp only [htake, hagain, List.take_left]

/-- The digits after a point. -/
def fractionOf : List Glyph → List Glyph
  | [] => []
  | p :: rest => if p.char = '.' then rest.takeWhile fun g => Text.isDigit g.char else []

theorem cutNumber_split {whole rest : List Glyph}
    (h : (whole ++ rest).takeWhile (fun g => Text.isDigit g.char) = whole) :
    cutNumber line g (whole ++ rest) = plainToken .number
      (.number (Decimal.read (Text.ofGlyphs (g :: whole)) (Text.ofGlyphs (fractionOf rest))))
      line g (whole ++ rest)
      (whole.length + if (fractionOf rest).isEmpty then 0 else (fractionOf rest).length + 1) := by
  unfold cutNumber
  simp only [h, List.drop_left]
  cases rest <;> rfl

/-- A number ends where it ended, with its point or without. -/
theorem cutNumber_again :
    cutNumber line g (gs.take (cutNumber line g gs).taken ++ space :: more) =
      cutNumber line g gs ∧ (cutNumber line g gs).taken ≤ gs.length := by
  obtain ⟨whole, rest, hgs, hwhole⟩ : ∃ whole rest, gs = whole ++ rest ∧
      gs.takeWhile (fun g => Text.isDigit g.char) = whole :=
    ⟨_, _, List.takeWhile_append_dropWhile.symm, rfl⟩
  have hsplit := hwhole
  rw [hgs] at hsplit
  subst hgs
  have hdigits : ∀ d ∈ whole, Text.isDigit d.char = true := by
    intro d hd
    rw [← hwhole] at hd
    exact List.all_eq_true.1 List.all_takeWhile d hd
  rw [cutNumber_split hsplit]
  by_cases hnone : fractionOf rest = []
  · have hagain : (whole ++ space :: more).takeWhile (fun g => Text.isDigit g.char) = whole := by
      rw [List.takeWhile_append_of_pos hdigits, List.takeWhile_cons_of_neg (by decide),
        List.append_nil]
    have hpoint : fractionOf (space :: more) = [] := rfl
    simp only [plainToken, hnone, List.isEmpty_nil, if_true, Nat.add_zero, List.take_left]
    rw [cutNumber_split hagain, hpoint]
    simp only [plainToken, List.isEmpty_nil, if_true, Nat.add_zero, List.take_left,
      List.length_append]
    exact ⟨trivial, Nat.le_add_right _ _⟩
  · obtain ⟨p, digits, rfl, hpoint⟩ : ∃ p digits, rest = p :: digits ∧ p.char = '.' := by
      cases rest with
      | nil => exact absurd rfl hnone
      | cons p digits =>
        refine ⟨p, digits, rfl, ?_⟩
        by_cases hpoint : p.char = '.'
        · exact hpoint
        · exact absurd (if_neg hpoint) hnone
    have hfraction : fractionOf (p :: digits) = digits.takeWhile fun g => Text.isDigit g.char :=
      if_pos hpoint
    have hfraction' : fractionOf
        (p :: (digits.takeWhile (fun g => Text.isDigit g.char) ++ space :: more)) =
          digits.takeWhile fun g => Text.isDigit g.char :=
      (if_pos hpoint).trans (takeWhile_space more (by decide) digits)
    have hsome : (digits.takeWhile fun g => Text.isDigit g.char).isEmpty = false := by
      rw [← hfraction]
      exact List.isEmpty_eq_false_iff.2 hnone
    have hagain : (whole ++ p :: (digits.takeWhile (fun g => Text.isDigit g.char) ++
        space :: more)).takeWhile (fun g => Text.isDigit g.char) = whole := by
      rw [List.takeWhile_append_of_pos hdigits,
        List.takeWhile_cons_of_neg (by rw [hpoint]; decide), List.append_nil]
    have hlength := length_takeWhile_le (fun g => Text.isDigit g.char) digits
    simp only [plainToken, hfraction, hsome, Bool.false_eq_true, if_false,
      List.take_length_add_append, List.take_succ_cons, take_takeWhile, List.append_assoc,
      List.cons_append]
    rw [cutNumber_split hagain, hfraction']
    simp only [plainToken, hsome, Bool.false_eq_true, if_false, List.take_length_add_append,
      List.take_succ_cons, List.take_left, List.length_append, List.length_cons]
    exact ⟨trivial, by omega⟩

/-- What can be told from the next character can be told before a space. -/
theorem head?_take_space {n : Nat} {c : Char} (hc : c ≠ ' ')
    (h : (gs.take n ++ space :: more).head?.map Glyph.char = some c) :
    gs.head?.map Glyph.char = some c := by
  cases gs with
  | nil =>
    rw [List.take_nil] at h
    exact absurd (Option.some.inj h).symm hc
  | cons first gs =>
    cases n with
    | zero => exact absurd (Option.some.inj h).symm hc
    | succ n => exact h

/-- **A token is cut off again from its own lexeme**, with a space behind
it. -/
theorem cut_again {t : Token} (h : (cut line g gs).piece = .token t) :
    cut line g (gs.take (cut line g gs).taken ++ space :: more) = cut line g gs ∧
      (cut line g gs).taken ≤ gs.length := by
  have hnext : ∀ {n : Nat} {c : Char}, c ≠ ' ' →
      ¬(g.char = '/' ∧ gs.head?.map Glyph.char = some c) →
      ¬(g.char = '/' ∧ (gs.take n ++ space :: more).head?.map Glyph.char = some c) :=
    fun hc hnot hand => hnot ⟨hand.1, head?_take_space more hc hand.2⟩
  obtain ⟨c, hc⟩ : ∃ c, c = cut line g gs := ⟨_, rfl⟩
  rw [← hc] at h ⊢
  unfold cut at hc
  simp only at hc
  split at hc
  · subst hc
    cases h
  rename_i hblank
  split at hc
  · subst hc
    simp only [cutComment, if_true, reduceCtorEq] at h
  rename_i hline
  split at hc
  · subst hc
    unfold cutComment at h
    split at h
    · cases h
    · split at h <;> cases h
  rename_i hblock
  split at hc
  · rename_i hquote
    subst hc
    obtain ⟨hagain, htaken⟩ := cutString_again more h
    refine ⟨?_, htaken⟩
    unfold cut
    simp only [if_neg hblank, if_neg (hnext (by decide) hline), if_neg (hnext (by decide) hblock),
      if_pos hquote]
    exact hagain
  rename_i hquote
  unfold cut
  simp only [if_neg hblank, if_neg (hnext (by decide) hline), if_neg (hnext (by decide) hblock),
    if_neg hquote]
  cases hpair : comparison g.char with
  | some kinds =>
    simp only [hpair] at hc ⊢
    split at hc
    · rename_i hequals
      subst hc
      obtain ⟨first, rest, rfl⟩ : ∃ first rest, gs = first :: rest := by
        cases gs with
        | nil => cases hequals
        | cons first rest => exact ⟨first, rest, rfl⟩
      have hone : 1 ≤ (first :: rest).length := Nat.le_add_left 1 _
      rw [taken_plainToken]
      refine ⟨?_, hone⟩
      have hsame : ((first :: rest).take 1 ++ space :: more).head?.map Glyph.char = some '=' :=
        hequals
      rw [if_pos hsame]
      exact plainToken_again hone
    · rename_i halone
      subst hc
      rw [taken_plainToken, if_neg fun h => halone (head?_take_space more (by decide) h)]
      exact ⟨plainToken_again (Nat.zero_le _), Nat.zero_le _⟩
  | none =>
    cases hmark : punctuation g.char with
    | some kind =>
      simp only [hpair, hmark] at hc ⊢
      subst hc
      rw [taken_plainToken]
      exact ⟨plainToken_again (Nat.zero_le _), Nat.zero_le _⟩
    | none =>
      simp only [hpair, hmark] at hc ⊢
      split at hc
      · rename_i hword
        subst hc
        rw [if_pos hword]
        exact cutWord_again more
      rename_i hword
      split at hc
      · rename_i hdigit
        subst hc
        rw [if_neg hword, if_pos hdigit]
        exact cutNumber_again more
      · subst hc
        cases h

/-! ## Lines -/

theorem le_lineAfter (line : Int) (c : Char) : line ≤ lineAfter line c := by
  unfold lineAfter
  split <;> omega

theorem le_of_commentBody {last : Int} {taken n : Nat}
    (h : commentBody line taken gs = .closed n last) : line ≤ last := by
  induction gs generalizing line taken with
  | nil => cases h
  | cons g rest ih =>
    rw [commentBody] at h
    split at h
    · cases h
      exact Int.le_refl _
    · exact Int.le_trans (le_lineAfter line g.char) (ih h)

theorem le_of_stringBody {last : Int} {taken n : Nat} {reversed value : List Char}
    (h : stringBody line taken reversed gs = .closed n value last) : line ≤ last := by
  fun_induction stringBody line taken reversed gs with
  | case1 => cases h
  | case2 =>
    cases h
    exact Int.le_refl _
  | case3 => cases h
  | case4 line taken reversed g hquote hslash e rest ih => exact ih h
  | case5 line taken reversed g rest hquote hslash ih =>
    exact Int.le_trans (le_lineAfter line g.char) (ih h)

/-- What is known of the lines of a piece: they do not go back, a token stands
on the line it ends on, and an identifier starts on it, too. -/
structure Lined (line : Int) (c : Cut) : Prop where
  le : line ≤ c.line
  token : ∀ t, c.piece = .token t → c.line = t.line
  identifier : ∀ t, c.piece = .token t → t.kind = .identifier → t.line = line ∧ t.literal = .nil

theorem lined_plainToken {kind : Token.Kind} {literal : Literal} {last : Int} {n : Nat}
    (hle : line ≤ last) (h : kind = .identifier → last = line ∧ literal = .nil) :
    Lined line (plainToken kind literal last g gs n) where
  le := hle
  token := by
    rintro t ⟨⟩
    rfl
  identifier := by
    rintro t ⟨⟩
    exact h

theorem lined_other {p : Piece} {last : Int} {n : Nat} (hle : line ≤ last)
    (hp : p.token? = none) : Lined line ⟨p, last, n⟩ where
  le := hle
  token := by
    rintro t rfl
    cases hp
  identifier := by
    rintro t rfl
    cases hp

/-- **Lines do not go back.** -/
theorem cut_lined (h : (cut line g gs).piece.complaint? = none) : Lined line (cut line g gs) := by
  have hrefl := Int.le_refl line
  unfold cut at h ⊢
  simp only at h ⊢
  split at h
  · rename_i hblank
    rw [if_pos hblank]
    exact lined_other (le_lineAfter _ _) rfl
  rename_i hblank
  rw [if_neg hblank]
  split at h
  · rename_i hline
    rw [if_pos hline]
    simp only [cutComment, if_true]
    exact lined_other hrefl rfl
  rename_i hline
  rw [if_neg hline]
  split at h
  · rename_i hblock
    rw [if_pos hblock]
    unfold cutComment at h ⊢
    rw [if_neg (by decide)] at h ⊢
    cases hbody : commentBody line 1 (gs.drop 1) with
    | closed n last =>
      simp only
      exact lined_other (le_of_commentBody hbody) rfl
    | unclosed last =>
      simp only [hbody] at h
      cases h
  rename_i hblock
  rw [if_neg hblock]
  split at h
  · rename_i hquote
    rw [if_pos hquote]
    unfold cutString at h ⊢
    cases hbody : stringBody line 0 [] gs with
    | closed n value last =>
      simp only
      exact lined_plainToken (le_of_stringBody hbody) fun h => by cases h
    | unclosed last =>
      simp only [hbody] at h
      cases h
  rename_i hquote
  rw [if_neg hquote]
  cases comparison g.char with
  | some kinds =>
    simp only
    split <;> exact lined_plainToken hrefl fun _ => ⟨rfl, rfl⟩
  | none =>
    cases punctuation g.char with
    | some kind => exact lined_plainToken hrefl fun _ => ⟨rfl, rfl⟩
    | none =>
      simp only
      split
      · unfold cutWord
        simp only
        exact lined_plainToken hrefl fun _ => ⟨rfl, rfl⟩
      split
      · unfold cutNumber
        simp only
        exact lined_plainToken hrefl fun h => by cases h
      · exact lined_other hrefl rfl

/-- So no token of a source without a report stands before its first line. -/
theorem le_line_of_mem_piecesAfter {skip : Nat} {t : Token}
    (hright : ∀ p ∈ piecesAfter skip line gs, p.complaint? = none)
    (ht : .token t ∈ piecesAfter skip line gs) : line ≤ t.line := by
  induction gs generalizing skip line with
  | nil =>
    rw [piecesAfter] at ht
    cases List.mem_singleton.1 ht
    exact Int.le_refl _
  | cons g gs ih =>
    cases skip with
    | succ skip => exact ih hright ht
    | zero =>
      rw [piecesAfter] at hright ht
      obtain ⟨hpiece, hrest⟩ := List.forall_mem_cons.1 hright
      have hlined := cut_lined hpiece
      rcases List.mem_cons.1 ht with ht | ht
      · rw [← hlined.token t ht.symm]
        exact hlined.le
      · exact Int.le_trans hlined.le (ih hrest ht)

theorem complaint?_of_reports {src : Text} (h : reports src = []) :
    ∀ p ∈ pieces src, p.complaint? = none :=
  List.filterMap_eq_nil_iff.1 (List.map_eq_nil_iff.1 h)

/-- **The tokens of a source without a report stand on line 1 or below.** -/
theorem one_le_line {src : Text} (h : reports src = []) {t : Token} (ht : t ∈ tokens src) :
    1 ≤ t.line := by
  obtain ⟨p, hp, htoken⟩ := List.mem_filterMap.1 ht
  cases p with
  | token _ =>
    cases htoken
    exact le_line_of_mem_piecesAfter (complaint?_of_reports h) hp
  | _ => cases htoken

/-! ## Tokens written down -/

/-- Line ends lead to a later line. -/
theorem piecesAfter_lineEnds (line : Int) (k : Nat) (gs : List Glyph) :
    piecesAfter 0 line ((List.replicate k '\n').map .of ++ gs) =
      List.replicate k (.blank (.of '\n')) ++ piecesAfter 0 (line + k) gs := by
  induction k generalizing line with
  | zero => simp
  | succ k ih =>
    have hcut : cut line (.of '\n') ((List.replicate k '\n').map .of ++ gs) =
        ⟨.blank (.of '\n'), line + 1, 0⟩ := rfl
    simp only [List.replicate_succ, List.map_cons, List.cons_append, piecesAfter, hcut, ih]
    rw [show line + 1 + (k : Int) = line + ((k + 1 : Nat) : Int) by omega]

/-- **A text for a token and what follows it**, that is scanned from an
earlier line on: line ends up to the line of the token, its lexeme, and a
space. -/
theorem exists_text {lexeme : Text} {t : Token} {last earlier : Int} {n : Nat}
    (hglyphs : lexeme.glyphs = g :: gs) (hn : n = gs.length)
    (hcut : ∀ more, cut line g (gs ++ space :: more) = ⟨.token t, last, n⟩)
    (hearlier : earlier ≤ line) (hnul : 0 ∉ lexeme) {rest : Text} (hrest : 0 ∉ rest) :
    ∃ text : Text, 0 ∉ text ∧ ∃ ps : List Piece,
      piecesAfter 0 earlier text.glyphs = ps ++ .token t :: .blank space ::
        piecesAfter 0 last rest.glyphs ∧
      ps.filterMap Piece.token? = [] ∧ ∀ p ∈ ps, p.complaint? = none := by
  obtain ⟨k, hk⟩ : ∃ k : Nat, line = earlier + k := ⟨(line - earlier).toNat, by omega⟩
  refine ⟨Text.ofChars (List.replicate k '\n') ++ (lexeme ++ (Text.ofChar ' ' ++ rest)), ?_,
    List.replicate k (.blank (.of '\n')), ?_, ?_, ?_⟩
  · have hends : 0 ∉ Text.ofChars (List.replicate k '\n') := by
      refine nul_not_mem_ofChars fun c hc => ?_
      rw [List.eq_of_mem_replicate hc]
      decide
    have hspace : 0 ∉ Text.ofChar ' ' := by decide
    simp only [List.mem_append, not_or]
    exact ⟨hends, hnul, hspace, hrest⟩
  · rw [Text.glyphs_ofChars, piecesAfter_lineEnds, ← hk, Text.glyphs_append _ (by decide), hglyphs]
    have hafter : piecesAfter n last (gs ++ Glyph.of ' ' :: rest.glyphs) =
        .blank space :: piecesAfter 0 last rest.glyphs := by
      rw [hn, piecesAfter_append]
      rfl
    rw [List.cons_append, piecesAfter, show cut line g (gs ++ Glyph.of ' ' :: rest.glyphs) = _ from
      hcut rest.glyphs]
    simp only [hafter]
  · exact List.filterMap_eq_nil_iff.2 fun p hp => by rw [List.eq_of_mem_replicate hp]; rfl
  · exact fun p hp => by rw [List.eq_of_mem_replicate hp]; rfl

/-- The lexeme of a token is the text of its glyphs. -/
theorem exists_own {t : Token} (hrune : g = .of g.char ∨ ∃ b, g = ⟨Glyph.replacement, [b]⟩)
    (h : (cut line g gs).piece = .token t) :
    ∃ own rest, gs = own ++ rest ∧ (cut line g gs).taken = own.length ∧
      t.lexeme = Text.ofGlyphs (g :: own) ∧ t.kind ≠ .eof := by
  have hcutAs := cut_cutAs line gs hrune
  generalize cut line g gs = c at h hcutAs
  cases hcutAs with
  | token rest last hlexeme hkind hnumber =>
    cases h
    exact ⟨_, rest, rfl, rfl, hlexeme, hkind⟩
  | _ => cases h

/-- An identifier is written as a word. -/
theorem Spelling.exists_word {y : Spelling} (hy : y.kind = .identifier) :
    ∃ c cs, Text.startsWord c = true ∧ (∀ d ∈ cs, Text.continuesWord d = true) ∧
      y.text = Text.ofChars (c :: cs) ∧
      Token.Kind.ofWord (Text.ofChars (c :: cs)) = .identifier := by
  cases y with
  | mark c kind h =>
    have hall : ∀ m ∈ marks, m.2 ≠ .identifier := by decide
    exact absurd hy (hall _ h)
  | pair c kind h =>
    have hall : ∀ m ∈ pairs, m.2 ≠ .identifier := by decide
    exact absurd hy (hall _ h)
  | word first more hfirst hmore => exact ⟨first, more, hfirst, hmore, rfl, hy⟩
  | number whole fraction => cases hy
  | string value => cases hy

theorem ahead_cons {t : Token} (h : t.kind ≠ .eof) (ts : List Token) :
    Program.ahead (t :: ts) = t :: Program.ahead ts := by
  simp [Program.ahead, h]

/-- There is nothing to report on a token that is respelled. -/
theorem complaint?_reworded {r : Renaming} {t t' : Token} (hword : r.Reworded t t')
    (h : (Piece.token t).complaint? = none) : (Piece.token t').complaint? = none := by
  rw [complaint?_token] at h ⊢
  rcases hword with rfl | ⟨-, -, rfl⟩
  · exact h
  · split at h
    · cases h
    · rename_i hsmall
      exact if_neg hsmall

/-- **A token that was cut off can be written down**, respelled or not, to be
cut off again on the same line. -/
theorem exists_lexeme {text : Text} (hnul : 0 ∉ text) {front own rest : List Glyph}
    (htext : text.glyphs = front ++ (g :: own ++ rest)) {x : Text} {y : Spelling}
    (hy : y.kind = .identifier) {t t' : Token}
    (ht : cut line g (own ++ rest) = ⟨.token t, t.line, own.length⟩)
    (hlexeme : t.lexeme = Text.ofGlyphs (g :: own))
    (hidentifier : t.kind = .identifier → t.line = line ∧ t.literal = .nil)
    (hword : Renaming.Reworded ⟨x, y.text⟩ t t') :
    ∃ first others, t'.lexeme.glyphs = first :: others ∧ 0 ∉ t'.lexeme ∧
      ∀ more, cut line first (others ++ space :: more) = ⟨.token t', t.line, others.length⟩ := by
  rcases hword with rfl | ⟨hkind, -, rfl⟩
  · refine ⟨g, own, ?_, ?_, fun more => ?_⟩
    · rw [hlexeme]
      exact glyphs_between htext
    · rw [hlexeme]
      exact nul_not_mem_between htext hnul
    · have hagain := (cut_again more (congrArg Cut.piece ht)).1
      rwa [ht, List.take_left] at hagain
  · obtain ⟨c, cs, hc, hcs, hspelled, hword⟩ := y.exists_word hy
    obtain ⟨hline, hliteral⟩ := hidentifier hkind
    refine ⟨.of c, cs.map .of, ?_, y.nul_not_mem, fun more => ?_⟩
    · have hglyphs := Text.glyphs_ofChars (c :: cs) []
      rw [List.append_nil] at hglyphs
      rw [hspelled, hglyphs, Text.glyphs, Text.glyphsAfter, List.append_nil, List.map_cons]
    · have hstops : Stops (space :: more) := .blank (by decide) more
      rw [cut_word line hc hcs hstops, plainToken, ofGlyphs_take_of, hword, hkind, hliteral, hline,
        hspelled, List.length_map]

/-- **The tokens of a source can be written down anew**, with another
identifier in the place of some of them. -/
theorem exists_relaid {text : Text} (hnul : 0 ∉ text) {x : Text} {y : Spelling}
    (hy : y.kind = .identifier) :
    ∀ (gs : List Glyph) (skip : Nat) (line : Int) (front : List Glyph),
    text.glyphs = front ++ gs → (∀ p ∈ piecesAfter skip line gs, p.complaint? = none) →
    ∀ w, Renaming.RewordedAll ⟨x, y.text⟩
      (Program.ahead ((piecesAfter skip line gs).filterMap Piece.token?)) w →
    ∀ earlier ≤ line, ∃ t : Text, 0 ∉ t ∧
      Program.ahead ((piecesAfter 0 earlier t.glyphs).filterMap Piece.token?) = w ∧
      ∀ p ∈ piecesAfter 0 earlier t.glyphs, p.complaint? = none := by
  intro gs
  induction gs with
  | nil =>
    intro skip line front _ _ w hw earlier _
    cases hw
    exact ⟨[], List.not_mem_nil, rfl, List.forall_mem_singleton.2 rfl⟩
  | cons g gs ih =>
    intro skip line front hfront hright w hw earlier hearlier
    have hnext : text.glyphs = (front ++ [g]) ++ gs := by
      rw [hfront, List.append_assoc]
      rfl
    cases skip with
    | succ skip => exact ih skip line (front ++ [g]) hnext hright w hw earlier hearlier
    | zero =>
      rw [piecesAfter] at hright hw
      obtain ⟨hpiece, hrest⟩ := List.forall_mem_cons.1 hright
      have hlined := cut_lined hpiece
      cases htoken : (cut line g gs).piece.token? with
      | none =>
        rw [List.filterMap_cons_none htoken] at hw
        exact ih _ _ (front ++ [g]) hnext hrest w hw earlier (Int.le_trans hearlier hlined.le)
      | some t =>
        have ht : (cut line g gs).piece = .token t := by
          generalize (cut line g gs).piece = p at htoken
          cases p <;> cases htoken
          rfl
        have hmem : g ∈ text.glyphs := by
          rw [hfront]
          exact List.mem_append_right _ (List.mem_cons_self ..)
        obtain ⟨own, rest, rfl, htaken, hlexeme, hkind⟩ :=
          exists_own (Text.rune_of_mem_glyphsAfter hmem) ht
        have hcut : cut line g (own ++ rest) = ⟨.token t, t.line, own.length⟩ := by
          rw [← ht, ← htaken, ← hlined.token t ht]
        rw [List.filterMap_cons_some htoken, ahead_cons hkind] at hw
        cases hw with
        | @cons _ t' _ w' hword hw' =>
          -- what follows the token, then the token in front of it
          obtain ⟨later, hlater, htokens, hcomplaints⟩ :=
            ih _ _ (front ++ [g]) hnext hrest w' hw' t.line (Int.le_of_eq (hlined.token t ht).symm)
          obtain ⟨first, others, hglyphs, hnul', hagain⟩ :=
            exists_lexeme hnul hfront hy hcut hlexeme (hlined.identifier t ht) hword
          obtain ⟨written, hwritten, ps, hps, hnone, hnone'⟩ :=
            exists_text hglyphs rfl hagain hearlier hnul' hlater
          have hkind' : t'.kind ≠ .eof := by rwa [hword.kind_eq]
          refine ⟨written, hwritten, ?_, ?_⟩
          · rw [hps, List.filterMap_append, hnone, List.nil_append,
              List.filterMap_cons_some (show (Piece.token t').token? = some t' from rfl),
              List.filterMap_cons_none (show (Piece.blank space).token? = none from rfl),
              ahead_cons hkind', htokens]
          · rw [ht] at hpiece
            rw [hps]
            exact List.forall_mem_append.2 ⟨hnone', List.forall_mem_cons.2
              ⟨complaint?_reworded hword hpiece, List.forall_mem_cons.2 ⟨rfl, hcomplaints⟩⟩⟩

/-- **Respelled tokens have a source.** For every source without a report and
every identifier, the tokens of the source with this identifier in the place
of some others are those of another source without a report. -/
theorem exists_source {src x : Text} {y : Spelling} (hy : y.kind = .identifier)
    (hreports : reports src = []) {w : List Token}
    (hw : Renaming.RewordedAll ⟨x, y.text⟩ (Program.ahead (tokens src)) w) :
    ∃ src', reports src' = [] ∧ Program.ahead (tokens src') = w := by
  have hright := complaint?_of_reports hreports
  rw [pieces, body_eq] at hright
  rw [tokens, pieces, body_eq] at hw
  obtain ⟨src', hnul, htokens, hcomplaints⟩ :=
    exists_relaid (nul_not_mem_upToNul src) hy (upToNul src).glyphs 0 1 [] rfl hright w hw 1
      (Int.le_refl 1)
  refine ⟨src', ?_, ?_⟩
  · rw [reports, pieces, body_eq_glyphs hnul, List.filterMap_eq_nil_iff.2 hcomplaints]
    rfl
  · rw [tokens, pieces, body_eq_glyphs hnul]
    exact htokens

end Source

end TanLang
