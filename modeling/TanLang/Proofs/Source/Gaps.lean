import TanLang.Proofs.Source.Seam
/-!
# Source — blanks and comments are skipped

A text is read as some tokens before some other text if it is cut into
pieces of its own, whatever line it stands on, and these are the tokens
among them. Nothing is read of a blank or of a closed comment, so **a blank
with any blanks and closed comments behind it separates tokens** and leaves
no trace.
-/

namespace TanLang

namespace Source

/-! ## What a text is read as -/

/-- A token apart from the line it stands on. -/
def look (t : Token) : Token.Kind × Text × Literal := (t.kind, t.lexeme, t.literal)

/-- A piece that is as it should be, but for the size of a number. -/
def Piece.Right : Piece → Prop
  | .blank _ => True
  | .comment _ => True
  | .token _ => True
  | _ => False

/-- **What a text is read as before some other text**: pieces that are right,
with these tokens among them. -/
def Reads (t : Text) (looks : List (Token.Kind × Text × Literal)) (rest : Text) : Prop :=
  ∀ line, ∃ ps line',
    piecesAfter 0 line (t ++ rest).glyphs = ps ++ piecesAfter 0 line' rest.glyphs ∧
      (∀ p ∈ ps, p.Right) ∧ (ps.filterMap Piece.token?).map look = looks

theorem Reads.nil (rest : Text) : Reads [] [] rest :=
  fun line => ⟨[], line, rfl, List.forall_mem_nil _, rfl⟩

/-- One text after another. -/
theorem Reads.append {t u rest : Text} {looks looks' : List (Token.Kind × Text × Literal)}
    (ht : Reads t looks (u ++ rest)) (hu : Reads u looks' rest) :
    Reads (t ++ u) (looks ++ looks') rest := by
  intro line
  obtain ⟨ps, line₁, hps, hright, hlooks⟩ := ht line
  obtain ⟨qs, line₂, hqs, hright', hlooks'⟩ := hu line₁
  refine ⟨ps ++ qs, line₂, ?_, List.forall_mem_append.2 ⟨hright, hright'⟩, ?_⟩
  · rw [List.append_assoc, hps, hqs, List.append_assoc]
  · rw [List.filterMap_append, List.map_append, hlooks, hlooks']

theorem piecesAfter_append (line : Int) (gs rest : List Glyph) :
    piecesAfter gs.length line (gs ++ rest) = piecesAfter 0 line rest := by
  induction gs with
  | nil => rfl
  | cons g gs ih => exact ih

/-- A text that is cut off as one piece. -/
theorem Reads.of_cut {t rest : Text} (g : Glyph) (gs : List Glyph)
    {looks : List (Token.Kind × Text × Literal)}
    (hglyphs : (t ++ rest).glyphs = g :: (gs ++ rest.glyphs))
    (hcut : ∀ line, ∃ p line', cut line g (gs ++ rest.glyphs) = ⟨p, line', gs.length⟩ ∧ p.Right ∧
      p.token?.toList.map look = looks) : Reads t looks rest := by
  intro line
  obtain ⟨p, line', hpiece, hright, hlooks⟩ := hcut line
  refine ⟨[p], line', ?_, ?_, ?_⟩
  · rw [hglyphs, piecesAfter, hpiece]
    simp only [piecesAfter_append, List.singleton_append]
  · rw [List.forall_mem_singleton]
    exact hright
  · rw [← hlooks]
    cases h : p.token? <;> simp [h]

/-- A text that is cut off as one comment. -/
theorem Reads.of_comment {t rest : Text} (g : Glyph) (gs : List Glyph)
    (hglyphs : (t ++ rest).glyphs = g :: (gs ++ rest.glyphs))
    (hcut : ∀ line, ∃ line', cut line g (gs ++ rest.glyphs) =
      ⟨.comment (g :: gs), line', gs.length⟩) : Reads t [] rest := by
  refine .of_cut g gs hglyphs fun line => ?_
  obtain ⟨line', hcomment⟩ := hcut line
  exact ⟨_, line', hcomment, trivial, rfl⟩

/-! ## Gaps and separators -/

/-- The blanks. -/
def blanks : List Char := [' ', '\t', '\r', '\n']

/-- **What may stand between tokens**: a blank, or a comment that is closed.
The text of a comment is any bytes. -/
inductive Gap where
  /-- A blank. -/
  | blank (c : Char) (h : c ∈ blanks)
  /-- A comment up to the end of its line. -/
  | lineComment (body : Text) (hline : Text.newline ∉ body) (hnul : 0 ∉ body)
  /-- A comment up to its closing mark. -/
  | blockComment (body : Text) (hopen : ¬Text.ofChars ['*', '/'] <:+: body) (hnul : 0 ∉ body)

/-- The text of a gap. -/
def Gap.text : Gap → Text
  | blank c _ => Text.ofChar c
  | lineComment body _ _ => Text.ofChars ['/', '/'] ++ (body ++ Text.ofChar '\n')
  | blockComment body _ _ => Text.ofChars ['/', '*'] ++ (body ++ Text.ofChars ['*', '/'])

/-- A blank, and then any gaps. -/
structure Separator where
  /-- The blank that it starts with. -/
  blank : Char
  /-- What follows it. -/
  gaps : List Gap
  isBlank : blank ∈ blanks

/-- The text of a separator. -/
def Separator.text (s : Separator) : Text := Text.ofChar s.blank ++ s.gaps.flatMap Gap.text

/-! ## Blanks -/

theorem isBlank_iff {c : Char} : isBlank c = true ↔ c ∈ blanks := by
  simp [isBlank, blanks, or_assoc]

theorem reads_blank {c : Char} (h : c ∈ blanks) (rest : Text) : Reads (Text.ofChar c) [] rest := by
  refine .of_cut (.of c) [] (Text.glyphs_ofChar c rest) fun line => ?_
  refine ⟨.blank (.of c), lineAfter line c, ?_, trivial, rfl⟩
  simp only [cut, Glyph.of, isBlank_iff.2 h, if_true]
  rfl

/-! ## Comments -/

/-- A line comment is cut off before the line end. -/
theorem cut_lineComment (line : Int) {gs : List Glyph} (hgs : ∀ g ∈ gs, g.char ≠ '\n')
    (rest : List Glyph) : cut line (.of '/') ((.of '/' :: gs) ++ .of '\n' :: rest) =
      ⟨.comment (.of '/' :: .of '/' :: gs), line, (.of '/' :: gs).length⟩ := by
  have htaken : ((.of '/' :: gs) ++ .of '\n' :: rest).takeWhile (fun g => g.char ≠ '\n') =
      .of '/' :: gs := by
    rw [List.takeWhile_append_of_pos, List.takeWhile_cons_of_neg (by decide), List.append_nil]
    intro g hg
    rcases List.mem_cons.1 hg with rfl | hg
    · rfl
    · exact decide_eq_true (hgs g hg)
  have hcut : cut line (.of '/') ((.of '/' :: gs) ++ .of '\n' :: rest) =
      cutComment line (.of '/') ((.of '/' :: gs) ++ .of '\n' :: rest) '/' := rfl
  rw [hcut, cutComment, if_pos rfl, htaken]
  simp only [List.take_left]

/-- A block comment is read up to the first closing mark. -/
theorem commentBody_closes (line : Int) (taken : Nat) {gs : List Glyph}
    (hgs : ¬['*', '/'] <:+: gs.map Glyph.char) (rest : List Glyph) :
    ∃ last, commentBody line taken (gs ++ .of '*' :: .of '/' :: rest) =
      .closed (taken + gs.length + 2) last := by
  induction gs generalizing line taken with
  | nil => exact ⟨line, rfl⟩
  | cons g gs ih =>
    have htail : ¬['*', '/'] <:+: gs.map Glyph.char := fun h => hgs (List.infix_cons h)
    obtain ⟨last, hlast⟩ := ih (lineAfter line g.char) (taken + 1) htail
    have hopen : ¬(g.char = '*' ∧
        (gs ++ .of '*' :: .of '/' :: rest).head?.map Glyph.char = some '/') := by
      rintro ⟨hstar, hslash⟩
      cases gs with
      | nil => exact absurd hslash (show ¬some '*' = some '/' by decide)
      | cons h more =>
        have hnext : h.char = '/' := Option.some.inj hslash
        refine hgs ⟨[], more.map Glyph.char, ?_⟩
        rw [List.map_cons, List.map_cons, hstar, hnext]
        rfl
    refine ⟨last, ?_⟩
    rw [List.cons_append, commentBody, if_neg hopen, hlast, List.length_cons]
    congr 1
    omega

/-- The glyphs of a block comment after its first slash. -/
def blockGlyphs (gs : List Glyph) : List Glyph := .of '*' :: (gs ++ [.of '*', .of '/'])

/-- A block comment is cut off behind its closing mark. -/
theorem cut_blockComment (line : Int) {gs : List Glyph}
    (hgs : ¬['*', '/'] <:+: gs.map Glyph.char) (rest : List Glyph) :
    ∃ last, cut line (.of '/') (blockGlyphs gs ++ rest) =
      ⟨.comment (.of '/' :: blockGlyphs gs), last, (blockGlyphs gs).length⟩ := by
  obtain ⟨last, hlast⟩ := commentBody_closes line 1 hgs rest
  have hcut : cut line (.of '/') (blockGlyphs gs ++ rest) =
      cutComment line (.of '/') (blockGlyphs gs ++ rest) '*' := rfl
  have hdrop : (blockGlyphs gs ++ rest).drop 1 = gs ++ .of '*' :: .of '/' :: rest := by
    simp [blockGlyphs]
  have htaken : 1 + gs.length + 2 = (blockGlyphs gs).length := by
    simp only [blockGlyphs, List.length_append, List.length_cons, List.length_nil]
    omega
  refine ⟨last, ?_⟩
  rw [hcut, cutComment, if_neg (by decide), hdrop, hlast, htaken]
  simp only [List.take_left]

/-- Where the bytes of a comment hold no closing mark, its characters do not
either: a star and a slash are spelled by no other bytes. -/
theorem not_infix_glyphs {body : Text} (h : ¬Text.ofChars ['*', '/'] <:+: body) :
    ¬['*', '/'] <:+: body.glyphs.map Glyph.char := by
  rintro ⟨before, after, hsplit⟩
  obtain ⟨front, back, hglyphs, hfront, -⟩ := List.map_eq_append_iff.1 hsplit.symm
  obtain ⟨pre, marks, rfl, -, hmarks⟩ := List.map_eq_append_iff.1 hfront
  obtain ⟨star, slashes, rfl, hstar, hslashes⟩ := List.map_eq_cons_iff.1 hmarks
  obtain ⟨slash, nothing, rfl, hslash, hnothing⟩ := List.map_eq_cons_iff.1 hslashes
  obtain rfl : nothing = [] := List.map_eq_nil_iff.1 hnothing
  have hraw : ∀ g ∈ [star, slash], g.char.toNat < 128 → g.raw = Text.ofChar g.char := by
    intro g hg
    have hread : g ∈ body.glyphs := by
      rw [hglyphs]
      exact List.mem_append_left _ (List.mem_append_right _ hg)
    exact Text.raw_of_mem_glyphsAfter hread
  have hstars : star.raw = Text.ofChar '*' := by
    rw [hraw star (by simp) (hstar ▸ by decide), hstar]
  have hslashed : slash.raw = Text.ofChar '/' := by
    rw [hraw slash (by simp) (hslash ▸ by decide), hslash]
  refine h ⟨Text.ofGlyphs pre, Text.ofGlyphs back, ?_⟩
  have hbytes := Text.ofGlyphs_glyphs body
  rw [hglyphs] at hbytes
  rw [← hbytes]
  simp only [Text.ofGlyphs, List.flatMap_append, List.flatMap_cons, List.flatMap_nil, hstars,
    hslashed]
  rfl

/-! ## Nothing is left of them -/

/-- **Gaps are skipped.** -/
theorem Gap.reads (gap : Gap) (rest : Text) : Reads gap.text [] rest := by
  cases gap with
  | blank c h => exact reads_blank h rest
  | lineComment body hline hnul =>
    have hnone : ∀ g ∈ body.glyphs, g.char ≠ '\n' := fun g hg =>
      Text.char_ne_of_mem_glyphs hg (by decide) (by decide) hline
    have hglyphs : ((Text.ofChars ['/', '/'] ++ body) ++ (Text.ofChar '\n' ++ rest)).glyphs =
        .of '/' :: ((.of '/' :: body.glyphs) ++ (Text.ofChar '\n' ++ rest).glyphs) := by
      rw [List.append_assoc, Text.glyphs_ofChars, Text.glyphs_append _ (by decide),
        Text.glyphs_ofChar]
      rfl
    have hcomment : Reads (Text.ofChars ['/', '/'] ++ body) [] (Text.ofChar '\n' ++ rest) := by
      refine .of_comment _ _ hglyphs fun line => ⟨line, ?_⟩
      rw [Text.glyphs_ofChar]
      exact cut_lineComment line hnone rest.glyphs
    -- the line end is a blank
    have hboth := hcomment.append (reads_blank (by decide) rest)
    rwa [List.append_assoc] at hboth
  | blockComment body hopen hnul =>
    have hglyphs : (Text.ofChars ['/', '*'] ++ (body ++ Text.ofChars ['*', '/']) ++ rest).glyphs =
        .of '/' :: (blockGlyphs body.glyphs ++ rest.glyphs) := by
      have hclose : Text.ofChars ['*', '/'] ++ rest =
          Text.ofChar '*' ++ (Text.ofChar '/' ++ rest) := rfl
      rw [List.append_assoc, List.append_assoc, hclose, Text.glyphs_ofChars,
        Text.glyphs_append _ (by decide), Text.glyphs_ofChar]
      simp [blockGlyphs]
    exact .of_comment _ _ hglyphs fun line => cut_blockComment line (not_infix_glyphs hopen) _

/-- **Separators are skipped.** -/
theorem Separator.reads (s : Separator) (rest : Text) : Reads s.text [] rest := by
  have hgaps : ∀ gaps : List Gap, Reads (gaps.flatMap Gap.text) [] rest := by
    intro gaps
    induction gaps with
    | nil => exact .nil rest
    | cons gap gaps ih => exact (gap.reads _).append ih
  exact (reads_blank s.isBlank _).append (hgaps s.gaps)

/-- The star of an opening mark does not close the comment. -/
example : (tokens (Text.ofString "/***/ /*/ */ x")).map look =
    [(.identifier, Text.ofString "x", .nil), (.eof, [], .nil)] := by decide

/-! ## No NUL -/

/-- A character other than NUL is spelled without it. -/
theorem nul_not_mem_ofChar {c : Char} (hc : c ≠ '\x00') : 0 ∉ Text.ofChar c := by
  obtain ⟨b, tail, hspelled⟩ : ∃ b tail, Text.ofChar c = b :: tail :=
    List.exists_cons_of_ne_nil String.utf8EncodeChar_ne_nil
  obtain ⟨hlength, htail⟩ := Text.ofChar_eq_cons hspelled
  rw [hspelled]
  intro hmem
  rcases List.mem_cons.1 hmem with rfl | hmem
  · -- a first byte that is 0 is the only one
    obtain rfl : tail = [] := List.eq_nil_of_length_eq_zero (Nat.succ.inj hlength.symm)
    have hpayload := Text.payload_ofChar c
    rw [hspelled] at hpayload
    exact hc (Char.ext (UInt32.toNat_inj.1 hpayload.symm))
  · exact absurd (htail 0 hmem) (by decide)

theorem nul_not_mem_ofChars {cs : List Char} (hcs : ∀ c ∈ cs, c ≠ '\x00') :
    0 ∉ Text.ofChars cs := by
  intro hmem
  obtain ⟨c, hc, hbyte⟩ := List.mem_flatMap.1 hmem
  exact nul_not_mem_ofChar (hcs c hc) hbyte

theorem ne_nul_of_mem_blanks {c : Char} (h : c ∈ blanks) : c ≠ '\x00' := by
  rintro rfl
  exact absurd h (by decide)

theorem Gap.nul_not_mem (gap : Gap) : 0 ∉ gap.text := by
  cases gap with
  | blank c h => exact nul_not_mem_ofChar (ne_nul_of_mem_blanks h)
  | lineComment body hline hnul =>
    simp only [Gap.text, List.mem_append, hnul, false_or]
    decide
  | blockComment body hopen hnul =>
    simp only [Gap.text, List.mem_append, hnul, false_or]
    decide

theorem Separator.nul_not_mem (s : Separator) : 0 ∉ s.text := by
  rw [Separator.text, List.mem_append, not_or]
  refine ⟨nul_not_mem_ofChar (ne_nul_of_mem_blanks s.isBlank), fun hmem => ?_⟩
  obtain ⟨gap, -, hgap⟩ := List.mem_flatMap.1 hmem
  exact gap.nul_not_mem hgap

end Source

end TanLang
