import TanLang.Proofs.Source.Spelling
/-!
# Source — nothing is dropped silently

A source up to its first NUL is laid out as tokens with gaps between them.
What stands in a gap is a blank, a complete comment, or a character that
starts no token and is reported; at the very end there may be a comment up
to the end, or a string or a comment that is never closed and is reported.
So **every byte is in the lexeme of a token or in a gap**, and all there is
to report are the characters and the open end in the gaps, and the numbers
beyond the largest float among the tokens.
-/

namespace TanLang

namespace Text

/-! ## Glyphs that are put back together -/

theorem glyphsAfter_eq_drop (skip : Nat) (a : Text) :
    glyphsAfter skip a = glyphs (a.drop skip) := by
  induction a generalizing skip with
  | nil => rw [List.drop_nil, glyphs, glyphsAfter, glyphsAfter]
  | cons b rest ih =>
    cases skip with
    | zero => rfl
    | succ skip => exact ih skip

/-- What follows some glyphs of a text has the other glyphs. -/
theorem glyphs_ofGlyphs_right {a : Text} (xs : List Glyph) {ys : List Glyph}
    (h : a.glyphs = xs ++ ys) :
    (ofGlyphs ys).glyphs = ys := by
  induction xs generalizing a with
  | nil =>
    obtain rfl : a.glyphs = ys := h
    rw [ofGlyphs_glyphs]
  | cons x xs ih =>
    cases a with
    | nil => cases h
    | cons b rest =>
      have htail : glyphsAfter ((Glyph.first b rest).raw.length - 1) rest = xs ++ ys :=
        (List.cons.inj h).2
      rw [glyphsAfter_eq_drop] at htail
      exact ih htail

/-- The glyph at the front is the same if the text is cut off behind it. -/
theorem first_raw {b : UInt8} {rest kept : Text} (hkept : kept <+: rest)
    (hlong : (Glyph.first b rest).raw.length - 1 ≤ kept.length) :
    Glyph.first b kept = Glyph.first b rest := by
  obtain ⟨more, rfl⟩ := hkept
  by_cases hwhole : Glyph.spelledLength b - 1 ≤ kept.length
  · unfold Glyph.first
    rw [List.take_append_of_le_length hwhole]
  · -- the text breaks off in the spelling, so there was none
    have hshort : kept.take (Glyph.spelledLength b - 1) = kept :=
      List.take_of_length_le (by omega)
    have hkeptStray : ¬ofChar (Char.ofNat (Glyph.payload (b :: kept))) = b :: kept := by
      intro hspelled
      have hlength := (ofChar_eq_cons hspelled).1
      omega
    unfold Glyph.first at hlong ⊢
    simp only at hlong ⊢
    rw [hshort, if_neg hkeptStray]
    split
    · rename_i hspelled
      rw [if_pos hspelled] at hlong
      have hlength := (ofChar_eq_cons hspelled).1
      simp only [List.length_cons] at hlong
      omega
    · rfl

/-- Some glyphs at the front of a text are those of their bytes. -/
theorem glyphs_ofGlyphs_left {a : Text} {xs ys : List Glyph} (h : a.glyphs = xs ++ ys) :
    (ofGlyphs xs).glyphs = xs := by
  induction xs generalizing a with
  | nil => rfl
  | cons x xs ih =>
    cases a with
    | nil => cases h
    | cons b rest =>
      obtain ⟨hfirst, htail⟩ := List.cons.inj h
      have htail' : glyphs (rest.drop (x.raw.length - 1)) = xs ++ ys := by
        rw [← glyphsAfter_eq_drop, ← hfirst]
        exact htail
      obtain ⟨k, hk, hraw⟩ := Glyph.raw_first b rest
      rw [hfirst] at hraw
      have hlength : x.raw.length - 1 = k := by
        rw [hraw, List.length_cons, List.length_take, Nat.add_sub_cancel, Nat.min_eq_left hk]
      -- what is left of the text is the glyph's bytes and those of the others
      have hrest : rest = rest.take k ++ (ofGlyphs xs ++ ofGlyphs ys) := by
        have hothers := ofGlyphs_glyphs (rest.drop k)
        rw [hlength] at htail'
        rw [htail', ofGlyphs, List.flatMap_append] at hothers
        rw [ofGlyphs, ofGlyphs, hothers, List.take_append_drop]
      have hkept : rest.take k ++ ofGlyphs xs <+: rest := by
        refine ⟨ofGlyphs ys, ?_⟩
        rw [List.append_assoc, ← hrest]
      have hsame : Glyph.first b (rest.take k ++ ofGlyphs xs) = x := by
        rw [first_raw hkept, hfirst]
        rw [hfirst, hlength, List.length_append, List.length_take, Nat.min_eq_left hk]
        exact Nat.le_add_right _ _
      have htext : ofGlyphs (x :: xs) = b :: (rest.take k ++ ofGlyphs xs) := by
        rw [ofGlyphs, List.flatMap_cons, hraw]
        rfl
      have hskip : (rest.take k ++ ofGlyphs xs).drop k = ofGlyphs xs := by
        have hk' : (rest.take k).length = k := by
          rw [List.length_take, Nat.min_eq_left hk]
        rw [List.drop_append_of_le_length (Nat.le_of_eq hk'.symm), List.drop_of_length_le
          (Nat.le_of_eq hk'), List.nil_append]
      rw [htext, glyphs, glyphsAfter, hsame, glyphsAfter_eq_drop, hlength, hskip, ih htail']

/-- **What is a character and what is not**: a glyph is a character that is
spelled out, or a byte that spells none. -/
theorem rune_of_mem_glyphsAfter {skip : Nat} {a : Text} {g : Glyph}
    (hg : g ∈ glyphsAfter skip a) :
    g = .of g.char ∨ ∃ b, g = ⟨Glyph.replacement, [b]⟩ := by
  induction a generalizing skip with
  | nil => cases hg
  | cons b rest ih =>
    cases skip with
    | succ skip => exact ih hg
    | zero =>
      rcases List.mem_cons.1 hg with rfl | hg
      · unfold Glyph.first
        simp only
        split
        · rename_i hspelled
          exact .inl (by rw [Glyph.of, hspelled])
        · exact .inr ⟨b, rfl⟩
      · exact ih hg

end Text

namespace Source

/-! ## What is cut off -/

/-- Whether a string is still open after these characters. -/
def unclosed : List Char → Bool
  | [] => true
  | c :: rest =>
    if c = '"' then false
    else if c = '\\' then
      match rest with
      | [] => true
      | _ :: more => unclosed more
    else unclosed rest

/-- A glyph that starts no token: it is a character, or a byte that spells
none, but no blank, no mark, no quote, no letter and no digit. -/
structure Startless (g : Glyph) : Prop where
  rune : g = .of g.char ∨ ∃ b, g = ⟨Glyph.replacement, [b]⟩
  noBlank : g.char ∉ blanks
  noMark : g.char ∉ marks.map Prod.fst
  noQuote : g.char ≠ '"'
  noLetter : Text.startsWord g.char = false
  noDigit : Text.isDigit g.char = false

/-- **What the front of a source can be cut as.** -/
inductive CutAs (line : Int) : List Glyph → Cut → Prop where
  | blank {g : Glyph} (rest : List Glyph) (h : g.char ∈ blanks) :
      CutAs line (g :: rest) ⟨.blank g, lineAfter line g.char, 0⟩
  | lineComment {a b : Glyph} {gs rest : List Glyph} (ha : a.char = '/') (hb : b.char = '/')
      (hgs : ∀ g ∈ gs, g.char ≠ '\n') (hrest : ∀ g ∈ rest.head?, g.char = '\n') :
      CutAs line (a :: b :: (gs ++ rest)) ⟨.comment (a :: b :: gs), line, gs.length + 1⟩
  | blockComment {a b c d : Glyph} {gs : List Glyph} (rest : List Glyph) (last : Int)
      (ha : a.char = '/') (hb : b.char = '*') (hgs : ¬['*', '/'] <:+: gs.map Glyph.char)
      (hc : c.char = '*') (hd : d.char = '/') :
      CutAs line (a :: b :: (gs ++ c :: d :: rest))
        ⟨.comment (a :: b :: (gs ++ [c, d])), last, gs.length + 3⟩
  | openComment {a b : Glyph} {gs : List Glyph} (last : Int) (ha : a.char = '/')
      (hb : b.char = '*') (hgs : ¬['*', '/'] <:+: gs.map Glyph.char) :
      CutAs line (a :: b :: gs) ⟨.openComment (a :: b :: gs) line, last, gs.length + 1⟩
  | openString {a : Glyph} {gs : List Glyph} (last : Int) (ha : a.char = '"')
      (hgs : unclosed (gs.map Glyph.char) = true) :
      CutAs line (a :: gs) ⟨.openString (a :: gs) line, last, gs.length⟩
  | token {g : Glyph} {gs : List Glyph} {t : Token} (rest : List Glyph) (last : Int)
      (hlexeme : t.lexeme = Text.ofGlyphs (g :: gs)) (hkind : t.kind ≠ .eof)
      (hnumber : overflows t = true → t.kind = .number) :
      CutAs line (g :: (gs ++ rest)) ⟨.token t, last, gs.length⟩
  | stray {g : Glyph} (rest : List Glyph) (h : Startless g) :
      CutAs line (g :: rest) ⟨.stray g line, line, 0⟩

/-- A comment is closed by the first closing mark. -/
theorem commentBody_closed {line last : Int} {taken n : Nat} {gs : List Glyph}
    (h : commentBody line taken gs = .closed n last) :
    ∃ inner c d rest, gs = inner ++ c :: d :: rest ∧ c.char = '*' ∧ d.char = '/' ∧
      n = taken + inner.length + 2 ∧ ¬['*', '/'] <:+: inner.map Glyph.char := by
  induction gs generalizing line taken with
  | nil => cases h
  | cons g rest ih =>
    rw [commentBody] at h
    split at h
    · rename_i hclosed
      cases h
      obtain ⟨hstar, hslash⟩ := hclosed
      cases rest with
      | nil => cases hslash
      | cons d rest =>
        exact ⟨[], g, d, rest, rfl, hstar, Option.some.inj hslash, rfl, by decide⟩
    · rename_i hopen
      obtain ⟨inner, c, d, more, rfl, hc, hd, hn, hinner⟩ := ih h
      refine ⟨g :: inner, c, d, more, rfl, hc, hd, ?_, fun hinfix => ?_⟩
      · rw [hn, List.length_cons]
        omega
      · -- a mark that starts at the first character would have closed the comment
        rcases List.infix_cons_iff.1 hinfix with hprefix | htail
        · obtain ⟨hstar, hslash⟩ := List.cons_prefix_cons.1 hprefix
          cases inner with
          | nil => exact absurd hslash (by decide)
          | cons e inner =>
            have hnext : '/' = e.char := (List.cons_prefix_cons.1 hslash).1
            exact hopen ⟨hstar.symm, congrArg some hnext.symm⟩
        · exact hinner htail

/-- A comment that is not closed has no closing mark. -/
theorem commentBody_unclosed {line last : Int} {taken : Nat} {gs : List Glyph}
    (h : commentBody line taken gs = .unclosed last) : ¬['*', '/'] <:+: gs.map Glyph.char := by
  induction gs generalizing line taken with
  | nil => decide
  | cons g rest ih =>
    rw [commentBody] at h
    split at h
    · cases h
    · rename_i hopen
      intro hinfix
      rcases List.infix_cons_iff.1 hinfix with hprefix | htail
      · obtain ⟨hstar, hslash⟩ := List.cons_prefix_cons.1 hprefix
        cases rest with
        | nil => exact absurd hslash (by decide)
        | cons e rest =>
          have hnext : '/' = e.char := (List.cons_prefix_cons.1 hslash).1
          exact hopen ⟨hstar.symm, congrArg some hnext.symm⟩
      · exact ih h htail

/-- A string that is not closed is open to the end. -/
theorem stringBody_unclosed {line last : Int} {taken : Nat} {reversed : List Char}
    {gs : List Glyph} (h : stringBody line taken reversed gs = .unclosed last) :
    unclosed (gs.map Glyph.char) = true := by
  fun_induction stringBody line taken reversed gs with
  | case1 => rfl
  | case2 => cases h
  | case3 line taken reversed g hquote hslash =>
    simp only [List.map_cons, List.map_nil, unclosed, hslash, if_true]
    rfl
  | case4 line taken reversed g hquote hslash e more ih =>
    simp only [List.map_cons, unclosed, hslash, if_true]
    exact ih h
  | case5 line taken reversed g rest hquote hslash ih =>
    rw [List.map_cons, unclosed.eq_def]
    simp only [hquote, hslash, if_false]
    exact ih h

/-- A token of the first glyph and some more. -/
theorem cutAs_plainToken {line last : Int} {kind : Token.Kind} {literal : Literal} {g : Glyph}
    {rest : List Glyph} {taken : Nat} (htaken : taken ≤ rest.length) (hkind : kind ≠ .eof)
    (hnumber : overflows ⟨kind, [], literal, last⟩ = true → kind = .number) :
    CutAs line (g :: rest) (plainToken kind literal last g rest taken) := by
  have hsplit : rest = rest.take taken ++ rest.drop taken := (List.take_append_drop ..).symm
  have hlength : (rest.take taken).length = taken := List.length_take_of_le htaken
  have hcut : CutAs line (g :: (rest.take taken ++ rest.drop taken))
      ⟨.token ⟨kind, Text.ofGlyphs (g :: rest.take taken), literal, last⟩, last,
        (rest.take taken).length⟩ := .token _ _ rfl hkind hnumber
  rwa [← hsplit, hlength] at hcut

theorem cutAs_comment (line : Int) {a b : Glyph} (rest : List Glyph) (ha : a.char = '/')
    (hb : b.char = '/' ∨ b.char = '*') :
    CutAs line (a :: b :: rest) (cutComment line a (b :: rest) b.char) := by
  unfold cutComment
  rcases hb with hb | hb
  · rw [if_pos hb]
    have hnext : decide (b.char ≠ '\n') = true := by rw [hb]; decide
    have htake : (b :: rest).takeWhile (fun g => g.char ≠ '\n') =
        b :: rest.takeWhile fun g => g.char ≠ '\n' := List.takeWhile_cons_of_pos hnext
    have hbody : ∀ g ∈ rest.takeWhile (fun g => g.char ≠ '\n'), g.char ≠ '\n' := fun g hg =>
      of_decide_eq_true (List.all_eq_true.1 List.all_takeWhile g hg)
    have hstop : ∀ g ∈ (rest.dropWhile fun g => g.char ≠ '\n').head?, g.char = '\n' := by
      intro g hg
      have hnot := List.head?_dropWhile_not (fun g : Glyph => decide (g.char ≠ '\n')) rest
      rw [Option.mem_def.1 hg] at hnot
      simpa using hnot
    have hcut : CutAs line _ _ := .lineComment ha hb hbody hstop
    rw [List.takeWhile_append_dropWhile] at hcut
    simp only [htake, List.length_cons, List.take_succ_cons]
    rwa [take_length_takeWhile]
  · rw [if_neg (by rw [hb]; decide)]
    simp only [List.drop_succ_cons, List.drop_zero]
    cases hbody : commentBody line 1 rest with
    | unclosed last => exact .openComment last ha hb (commentBody_unclosed hbody)
    | closed n last =>
      obtain ⟨inner, c, d, more, rfl, hc, hd, rfl, hinner⟩ := commentBody_closed hbody
      have htake : (b :: (inner ++ c :: d :: more)).take (1 + inner.length + 2) =
          b :: (inner ++ [c, d]) := by
        rw [show 1 + inner.length + 2 = (inner.length + 2) + 1 by omega, List.take_succ_cons,
          List.take_length_add_append]
        rfl
      have hlength : 1 + inner.length + 2 = inner.length + 3 := by omega
      simp only [htake]
      rw [hlength]
      exact .blockComment more last ha hb hinner hc hd

theorem noMark_of_none {c : Char} (hcomparison : comparison c = none)
    (hpunctuation : punctuation c = none) : c ∉ marks.map Prod.fst := by
  have hall : (marks.map Prod.fst).all (fun c => (comparison c).isSome || (punctuation c).isSome)
      = true := by decide
  intro hc
  have hsome := List.all_eq_true.1 hall c hc
  rw [hcomparison, hpunctuation] at hsome
  cases hsome

/-- **Whatever is cut off is one of these.** -/
theorem cut_cutAs (line : Int) {g : Glyph} (rest : List Glyph)
    (hrune : g = .of g.char ∨ ∃ b, g = ⟨Glyph.replacement, [b]⟩) :
    CutAs line (g :: rest) (cut line g rest) := by
  have hnothing : ∀ kind lexeme line, overflows ⟨kind, lexeme, .nil, line⟩ = true →
      kind = .number := nofun
  unfold cut
  simp only
  split
  · rename_i hblank
    exact .blank rest (isBlank_iff.1 hblank)
  rename_i hblank
  split
  · rename_i hcomment
    obtain ⟨hslash, hnext⟩ := hcomment
    cases rest with
    | nil => cases hnext
    | cons b rest =>
      have hb : b.char = '/' := Option.some.inj hnext
      rw [← hb]
      exact cutAs_comment line rest hslash (.inl hb)
  split
  · rename_i hcomment
    obtain ⟨hslash, hnext⟩ := hcomment
    cases rest with
    | nil => cases hnext
    | cons b rest =>
      have hb : b.char = '*' := Option.some.inj hnext
      rw [← hb]
      exact cutAs_comment line rest hslash (.inr hb)
  split
  · rename_i hquote
    unfold cutString
    cases hbody : stringBody line 0 [] rest with
    | unclosed last => exact .openString last hquote (stringBody_unclosed hbody)
    | closed n value last =>
      have htaken : n ≤ rest.length := by
        have hle := (stringBody_append [] hbody).2
        omega
      exact cutAs_plainToken htaken nofun nofun
  rename_i hquote
  cases hcomparison : comparison g.char with
  | some kinds =>
    obtain ⟨⟨-, halone⟩, -, hpaired⟩ := comparison_told hcomparison
    simp only
    split
    · rename_i hnext
      have hone : 1 ≤ rest.length := by
        cases rest with
        | nil => cases hnext
        | cons b rest => exact Nat.le_add_left ..
      exact cutAs_plainToken hone hpaired (hnothing _ _ _)
    · exact cutAs_plainToken (Nat.zero_le _) halone (hnothing _ _ _)
  | none =>
    cases hpunctuation : punctuation g.char with
    | some kind =>
      exact cutAs_plainToken (Nat.zero_le _) (punctuation_told hpunctuation).2 (hnothing _ _ _)
    | none =>
      simp only
      split
      · have htaken : (cutWord line g rest).taken ≤ rest.length := (cutWord_lineEnd []).2
        exact cutAs_plainToken htaken (ofWord_ne_eof _) (hnothing _ _ _)
      rename_i hletter
      split
      · have htaken : (cutNumber line g rest).taken ≤ rest.length := (cutNumber_lineEnd []).2
        exact cutAs_plainToken htaken nofun fun _ => rfl
      · rename_i hdigit
        exact .stray rest ⟨hrune, fun h => hblank (isBlank_iff.2 h),
          noMark_of_none hcomparison hpunctuation, hquote, by simpa using hletter,
          by simpa using hdigit⟩

/-! ## Layouts -/

/-- A part of a gap between tokens. -/
inductive Scrap where
  /-- A blank, or a comment that is closed. -/
  | skipped (gap : Gap)
  /-- A character that starts no token. -/
  | stray (g : Glyph) (h : Startless g)

/-- What stands at the very end, before the end of the source or a NUL. -/
inductive Tail where
  /-- Nothing. -/
  | nothing
  /-- A comment up to the end of a line that is the last one. -/
  | lineComment (body : Text) (hline : Text.newline ∉ body)
  /-- A string that is never closed. -/
  | openString (body : Text) (h : unclosed (body.glyphs.map Glyph.char) = true)
  /-- A comment that is never closed. -/
  | openComment (body : Text) (h : ¬Text.ofChars ['*', '/'] <:+: body)

/-- **Tokens with gaps between them**: the gap before the first token, the
tokens each with the gap behind it, and what stands at the very end. -/
structure Layout where
  /-- The gap before the first token. -/
  lead : List Scrap
  /-- The tokens, each with the gap behind it. -/
  words : List (Token × List Scrap)
  /-- What stands at the very end of the last gap. -/
  tail : Tail

/-- The bytes of a part of a gap. -/
def Scrap.text : Scrap → Text
  | skipped gap => gap.text
  | stray g _ => g.raw

/-- What there is to say about a part of a gap. -/
def Scrap.complaints : Scrap → List Complaint
  | skipped _ => []
  | stray g _ => [.unexpected g.raw]

/-- The bytes at the end. -/
def Tail.text : Tail → Text
  | nothing => []
  | lineComment body _ => Text.ofChars ['/', '/'] ++ body
  | openString body _ => Text.ofChars ['"'] ++ body
  | openComment body _ => Text.ofChars ['/', '*'] ++ body

/-- What there is to say about the end. -/
def Tail.complaints : Tail → List Complaint
  | nothing => []
  | lineComment _ _ => []
  | openString _ _ => [.openString]
  | openComment _ _ => [.openComment]

/-- What there is to say about a token. -/
def tokenComplaints (t : Token) : List Complaint :=
  if overflows t then [.outOfRange t.lexeme] else []

namespace Layout

/-- The bytes of a layout. -/
def text (l : Layout) : Text :=
  l.lead.flatMap Scrap.text ++
    (l.words.flatMap (fun w => w.1.lexeme ++ w.2.flatMap Scrap.text) ++ l.tail.text)

/-- The tokens of a layout. -/
def tokens (l : Layout) : List Token := l.words.map Prod.fst

/-- The parts of all gaps. -/
def scraps (l : Layout) : List Scrap := l.lead ++ l.words.flatMap Prod.snd

/-- What there is to say about a layout, in order. -/
def complaints (l : Layout) : List Complaint :=
  l.lead.flatMap Scrap.complaints ++
    (l.words.flatMap (fun w => tokenComplaints w.1 ++ w.2.flatMap Scrap.complaints) ++
      l.tail.complaints)

/-- The layout with one more part of a gap at the front. -/
def afterScrap (s : Scrap) (l : Layout) : Layout := { l with lead := s :: l.lead }

/-- The layout with one more token at the front. -/
def afterToken (t : Token) (l : Layout) : Layout := ⟨[], (t, l.lead) :: l.words, l.tail⟩

theorem text_afterScrap (s : Scrap) (l : Layout) : (l.afterScrap s).text = s.text ++ l.text := by
  simp only [text, afterScrap, List.flatMap_cons, List.append_assoc]

theorem text_afterToken (t : Token) (l : Layout) :
    (l.afterToken t).text = t.lexeme ++ l.text := by
  simp only [text, afterToken, List.flatMap_cons, List.flatMap_nil, List.nil_append,
    List.append_assoc]

theorem complaints_afterScrap (s : Scrap) (l : Layout) :
    (l.afterScrap s).complaints = s.complaints ++ l.complaints := by
  simp only [complaints, afterScrap, List.flatMap_cons, List.append_assoc]

theorem complaints_afterToken (t : Token) (l : Layout) :
    (l.afterToken t).complaints = tokenComplaints t ++ l.complaints := by
  simp only [complaints, afterToken, List.flatMap_cons, List.flatMap_nil, List.nil_append,
    List.append_assoc]

theorem length_complaints (l : Layout) :
    l.complaints.length = (l.scraps.flatMap Scrap.complaints).length +
      l.tail.complaints.length + l.tokens.countP overflows := by
  have htoken : ∀ t, (tokenComplaints t).length = if overflows t then 1 else 0 := by
    intro t
    unfold tokenComplaints
    split <;> rfl
  have hwords : ∀ words : List (Token × List Scrap),
      (words.flatMap fun w => tokenComplaints w.1 ++ w.2.flatMap Scrap.complaints).length =
        ((words.flatMap Prod.snd).flatMap Scrap.complaints).length +
          (words.map Prod.fst).countP overflows := by
    intro words
    induction words with
    | nil => rfl
    | cons w rest ih =>
      simp only [List.flatMap_cons, List.length_append, List.flatMap_append, List.map_cons,
        List.countP_cons, ih, htoken]
      omega
  unfold complaints scraps tokens
  simp only [List.length_append, List.flatMap_append, hwords]
  omega

end Layout

/-- **Pieces laid out.** -/
structure LaidOut (ps : List Piece) (t : Text) (l : Layout) : Prop where
  text : l.text = t
  tokens : ∃ last, ps.filterMap Piece.token? = l.tokens ++ [⟨.eof, [], .nil, last⟩]
  kinds : ∀ w ∈ l.tokens, w.kind ≠ .eof ∧ (overflows w = true → w.kind = .number)
  complaints : (ps.filterMap Piece.complaint?).map Prod.snd = l.complaints

namespace LaidOut

variable {ps : List Piece} {t : Text} {l : Layout}

theorem scrap (h : LaidOut ps t l) (s : Scrap) (qs : List Piece)
    (htokens : qs.filterMap Piece.token? = [])
    (hcomplaints : (qs.filterMap Piece.complaint?).map Prod.snd = s.complaints) :
    LaidOut (qs ++ ps) (s.text ++ t) (l.afterScrap s) where
  text := by rw [Layout.text_afterScrap, h.text]
  tokens := by
    rw [List.filterMap_append, htokens]
    exact h.tokens
  kinds := h.kinds
  complaints := by
    rw [List.filterMap_append, List.map_append, hcomplaints, h.complaints,
      Layout.complaints_afterScrap]

theorem word (h : LaidOut ps t l) {w : Token} (hkind : w.kind ≠ .eof)
    (hnumber : overflows w = true → w.kind = .number) :
    LaidOut (.token w :: ps) (w.lexeme ++ t) (l.afterToken w) where
  text := by rw [Layout.text_afterToken, h.text]
  tokens := by
    obtain ⟨last, hlast⟩ := h.tokens
    refine ⟨last, ?_⟩
    show w :: ps.filterMap Piece.token? = _
    rw [hlast]
    rfl
  kinds := List.forall_mem_cons.2 ⟨⟨hkind, hnumber⟩, h.kinds⟩
  complaints := by
    rw [Layout.complaints_afterToken, ← h.complaints, tokenComplaints]
    by_cases hover : overflows w = true
    · rw [if_pos hover, List.filterMap_cons_some (by rw [complaint?_token, if_pos hover])]
      rfl
    · rw [if_neg hover, List.filterMap_cons_none (by rw [complaint?_token, if_neg hover])]
      rfl

theorem ending (line : Int) (tail : Tail) (qs : List Piece)
    (htokens : qs.filterMap Piece.token? = [])
    (hcomplaints : (qs.filterMap Piece.complaint?).map Prod.snd = tail.complaints) :
    LaidOut (qs ++ [endMark line]) tail.text ⟨[], [], tail⟩ where
  text := rfl
  tokens := by
    refine ⟨line, ?_⟩
    rw [List.filterMap_append, htokens]
    rfl
  kinds := List.forall_mem_nil _
  complaints := by
    rw [List.filterMap_append, List.map_append, hcomplaints]
    exact List.append_nil _

end LaidOut

/-! ## Every source is laid out -/

section

variable {t : Text} {xs gs ys : List Glyph}

theorem split_text (xs : List Glyph) (h : t.glyphs = xs ++ ys) :
    t = Text.ofGlyphs xs ++ Text.ofGlyphs ys := by
  rw [← Text.ofGlyphs_glyphs t, h]
  exact List.flatMap_append

theorem glyphs_between (h : t.glyphs = xs ++ (gs ++ ys)) : (Text.ofGlyphs gs).glyphs = gs :=
  Text.glyphs_ofGlyphs_left (Text.glyphs_ofGlyphs_right _ h)

/-- A byte of some of the glyphs is one of the text. -/
theorem nul_not_mem_between (h : t.glyphs = xs ++ (gs ++ ys)) (hnul : 0 ∉ t) :
    0 ∉ Text.ofGlyphs gs := by
  intro hmem
  have hsplit := split_text _ h
  rw [Text.ofGlyphs, Text.ofGlyphs, List.flatMap_append] at hsplit
  rw [hsplit] at hnul
  exact hnul (List.mem_append_right _ (List.mem_append_left _ hmem))

/-- Where no glyph is a line end, no byte is. -/
theorem newline_not_mem (h : (Text.ofGlyphs gs).glyphs = gs) (hgs : ∀ g ∈ gs, g.char ≠ '\n') :
    Text.newline ∉ Text.ofGlyphs gs := by
  intro hmem
  obtain ⟨u, v, huv⟩ := List.append_of_mem hmem
  rw [huv, Text.glyphs_append_newline] at h
  have hlineEnd : Glyph.lineEnd ∈ gs := by
    rw [← h]
    exact List.mem_append_right _ (List.mem_cons_self ..)
  exact hgs _ hlineEnd rfl

/-- Where no glyphs are a closing mark, no bytes are. -/
theorem not_infix_ofGlyphs (h : (Text.ofGlyphs gs).glyphs = gs)
    (hgs : ¬['*', '/'] <:+: gs.map Glyph.char) :
    ¬Text.ofChars ['*', '/'] <:+: Text.ofGlyphs gs := by
  rintro ⟨u, v, huv⟩
  have hbytes : Text.ofGlyphs gs = u ++ (Text.ofChar '*' ++ (Text.ofChar '/' ++ v)) := by
    rw [← huv]
    exact List.append_assoc ..
  rw [hbytes, Text.glyphs_append _ (by decide), Text.glyphs_ofChar] at h
  refine hgs ⟨(Text.glyphs u).map Glyph.char, (Text.glyphs v).map Glyph.char, ?_⟩
  rw [← h, List.map_append]
  simp [Glyph.of]

/-- A glyph of a character below 128 is that character spelled out. -/
theorem eq_of_mem_glyphs {g : Glyph} (hg : g ∈ t.glyphs) {c : Char} (hc : g.char = c)
    (hlow : c.toNat < 128) : g = .of c := by
  have hraw := Text.raw_of_mem_glyphsAfter hg (hc ▸ hlow)
  obtain ⟨char, raw⟩ := g
  cases hc
  rw [Glyph.of, ← hraw]

end

theorem toNat_of_mem_blanks {c : Char} (h : c ∈ blanks) : c.toNat < 128 := by
  have hall : blanks.all (fun c => decide (c.toNat < 128)) = true := by decide
  exact of_decide_eq_true (List.all_eq_true.1 hall c h)

theorem piecesAfter_all (line : Int) (gs : List Glyph) :
    piecesAfter gs.length line gs = [endMark line] := by
  have hall := piecesAfter_append line gs []
  rwa [List.append_nil] at hall

/-- **One piece more**: where what is left behind any glyphs of a text is
laid out, so is the text with the piece that is cut off its front. -/
theorem CutAs.exists_laidOut {line : Int} {t : Text} {all : List Glyph} {c : Cut}
    (h : CutAs line all c) (hall : t.glyphs = all) (hnul : 0 ∉ t)
    (hleft : ∀ xs ys line', xs ≠ [] → t.glyphs = xs ++ ys →
      ∃ l, LaidOut (piecesAfter 0 line' ys) (Text.ofGlyphs ys) l) :
    ∃ l, LaidOut (c.piece :: piecesAfter c.taken c.line all.tail) t l := by
  have hspelled : ∀ g ∈ all, ∀ {c : Char}, g.char = c → c.toNat < 128 → g = .of c :=
    fun g hg _ hc hlow => eq_of_mem_glyphs (hall ▸ hg) hc hlow
  cases h with
  | @blank g rest hblank =>
    obtain ⟨l, hl⟩ := hleft [g] rest (lineAfter line g.char) (List.cons_ne_nil _ _) hall
    have hlaid := hl.scrap (.skipped (.blank g.char hblank)) [.blank g] rfl rfl
    have hraw : g.raw = Text.ofChar g.char := congrArg Glyph.raw
      (hspelled g (List.mem_cons_self ..) rfl (toNat_of_mem_blanks hblank))
    rw [split_text [g] hall, Text.ofGlyphs, List.flatMap_singleton, hraw]
    exact ⟨_, hlaid⟩
  | @stray g rest hstray =>
    obtain ⟨l, hl⟩ := hleft [g] rest line (List.cons_ne_nil _ _) hall
    have hlaid := hl.scrap (.stray g hstray) [.stray g line] rfl rfl
    rw [split_text [g] hall, Text.ofGlyphs, List.flatMap_singleton]
    exact ⟨_, hlaid⟩
  | @token g gs w rest last hlexeme hkind hnumber =>
    obtain ⟨l, hl⟩ := hleft (g :: gs) rest last (List.cons_ne_nil _ _) hall
    have hlaid := hl.word hkind hnumber
    rw [split_text (g :: gs) hall, ← hlexeme, List.tail_cons, piecesAfter_append]
    exact ⟨_, hlaid⟩
  | @openString a gs last ha hopen =>
    have hend : (Text.ofGlyphs gs).glyphs = gs := Text.glyphs_ofGlyphs_right [a] hall
    have hlaid := LaidOut.ending last (.openString (Text.ofGlyphs gs) (by rwa [hend]))
      [.openString (a :: gs) line] rfl rfl
    obtain rfl := hspelled a (List.mem_cons_self ..) ha (by decide)
    rw [split_text [Glyph.of '"'] hall, List.tail_cons, piecesAfter_all]
    exact ⟨_, hlaid⟩
  | @openComment a b gs last ha hb hopen =>
    have hend : (Text.ofGlyphs gs).glyphs = gs := Text.glyphs_ofGlyphs_right [a, b] hall
    have hlaid := LaidOut.ending last
      (.openComment (Text.ofGlyphs gs) (not_infix_ofGlyphs hend hopen))
      [.openComment (a :: b :: gs) line] rfl rfl
    obtain rfl := hspelled a (List.mem_cons_self ..) ha (by decide)
    obtain rfl := hspelled b (List.mem_cons_of_mem _ (List.mem_cons_self ..)) hb (by decide)
    rw [split_text [Glyph.of '/', Glyph.of '*'] hall, List.tail_cons, piecesAfter,
      piecesAfter_all]
    exact ⟨_, hlaid⟩
  | @lineComment a b gs rest ha hb hline hrest =>
    have hbetween : t.glyphs = [a, b] ++ (gs ++ rest) := hall
    have hbody := newline_not_mem (glyphs_between hbetween) hline
    obtain rfl := hspelled a (List.mem_cons_self ..) ha (by decide)
    obtain rfl := hspelled b (List.mem_cons_of_mem _ (List.mem_cons_self ..)) hb (by decide)
    rw [List.tail_cons, piecesAfter, piecesAfter_append]
    cases rest with
    | nil =>
      rw [List.append_nil] at hall
      have hlaid := LaidOut.ending line (.lineComment (Text.ofGlyphs gs) hbody)
        [.comment (.of '/' :: .of '/' :: gs)] rfl rfl
      rw [split_text [Glyph.of '/', Glyph.of '/'] hall]
      exact ⟨_, hlaid⟩
    | cons e more =>
      -- the line end behind the comment is cut off as a blank
      obtain rfl : e = .of '\n' := hspelled e (by simp) (hrest e rfl) (by decide)
      have hzero := nul_not_mem_between hbetween hnul
      have hsplit : t.glyphs = ([.of '/', .of '/'] ++ (gs ++ [.of '\n'])) ++ more := by
        rw [hall]
        simp
      obtain ⟨l, hl⟩ := hleft _ more (line + 1) (List.cons_ne_nil _ _) hsplit
      have hlaid := hl.scrap (.skipped (.lineComment (Text.ofGlyphs gs) hbody hzero))
        [.comment (.of '/' :: .of '/' :: gs), .blank (.of '\n')] rfl rfl
      have htext : t = (Scrap.skipped (.lineComment (Text.ofGlyphs gs) hbody hzero)).text ++
          Text.ofGlyphs more := by
        rw [split_text _ hsplit]
        simp [Scrap.text, Gap.text, Text.ofGlyphs, Text.ofChars, Glyph.of]
      rw [htext]
      exact ⟨_, hlaid⟩
  | @blockComment a b c d gs rest last ha hb hopen hc hd =>
    have hbetween : t.glyphs = [a, b] ++ (gs ++ c :: d :: rest) := hall
    have hbody := not_infix_ofGlyphs (glyphs_between hbetween) hopen
    have hzero := nul_not_mem_between hbetween hnul
    have hsplit : t.glyphs = ([a, b] ++ (gs ++ [c, d])) ++ rest := by
      rw [hall]
      simp
    obtain ⟨l, hl⟩ := hleft _ rest last (List.cons_ne_nil _ _) hsplit
    have hlaid := hl.scrap (.skipped (.blockComment (Text.ofGlyphs gs) hbody hzero))
      [.comment (a :: b :: (gs ++ [c, d]))] rfl rfl
    have hmarks : a = .of '/' ∧ b = .of '*' ∧ c = .of '*' ∧ d = .of '/' :=
      ⟨hspelled a (by simp) ha (by decide), hspelled b (by simp) hb (by decide),
        hspelled c (by simp) hc (by decide), hspelled d (by simp) hd (by decide)⟩
    have htext : t = (Scrap.skipped (.blockComment (Text.ofGlyphs gs) hbody hzero)).text ++
        Text.ofGlyphs rest := by
      rw [split_text _ hsplit]
      simp [hmarks, Scrap.text, Gap.text, Text.ofGlyphs, Text.ofChars, Glyph.of]
    have hskip : piecesAfter (gs.length + 3) last (b :: (gs ++ c :: d :: rest)) =
        piecesAfter 0 last rest := by
      have hlength : gs.length + 3 = (b :: (gs ++ [c, d])).length := by simp
      rw [hlength, show b :: (gs ++ c :: d :: rest) = b :: (gs ++ [c, d]) ++ rest by simp,
        piecesAfter_append]
    rw [List.tail_cons, hskip, htext]
    exact ⟨_, hlaid⟩

/-- **The pieces of a text without a NUL are laid out as the text.** -/
theorem exists_laidOut (n : Nat) : ∀ (t : Text) (line : Int), t.glyphs.length ≤ n → 0 ∉ t →
    ∃ l, LaidOut (piecesAfter 0 line t.glyphs) t l := by
  induction n with
  | zero =>
    intro t line hlength hnul
    have hnone : t.glyphs = [] := List.eq_nil_of_length_eq_zero (Nat.le_zero.1 hlength)
    have ht : t = [] := by
      rw [← Text.ofGlyphs_glyphs t, hnone]
      rfl
    rw [hnone, ht]
    exact ⟨_, .ending line .nothing [] rfl rfl⟩
  | succ n ih =>
    intro t line hlength hnul
    cases hglyphs : t.glyphs with
    | nil =>
      rw [← hglyphs]
      exact ih t line (by rw [hglyphs]; exact Nat.zero_le _) hnul
    | cons g rest =>
      have hmem : g ∈ t.glyphs := by
        rw [hglyphs]
        exact List.mem_cons_self ..
      have hrune := Text.rune_of_mem_glyphsAfter hmem
      refine (cut_cutAs line rest hrune).exists_laidOut hglyphs hnul
        fun xs ys line' hxs hsplit => ?_
      have hright := Text.glyphs_ofGlyphs_right _ hsplit
      have hshorter : (Text.ofGlyphs ys).glyphs.length ≤ n := by
        have hpositive := List.length_pos_iff.2 hxs
        rw [hsplit, List.length_append] at hlength
        rw [hright]
        omega
      have hbetween : 0 ∉ Text.ofGlyphs ys := by
        rw [← List.append_nil ys] at hsplit
        exact nul_not_mem_between hsplit hnul
      obtain ⟨l, hl⟩ := ih (Text.ofGlyphs ys) line' hshorter hbetween
      rw [hright] at hl
      exact ⟨l, hl⟩

/-! ## The first NUL -/

/-- A source up to its first NUL, or all of it. -/
def upToNul (src : Text) : Text := src.takeWhile fun b => b ≠ 0

theorem nul_not_mem_upToNul (src : Text) : 0 ∉ upToNul src := by
  intro h
  have hzero := List.all_eq_true.1 List.all_takeWhile _ h
  cases hzero

/-- **A source is read up to its first NUL.** -/
theorem body_eq (src : Text) : body src = (upToNul src).glyphs := by
  have hnul : Text.ofChar '\x00' = [0] := by decide
  have hall : ∀ g ∈ (upToNul src).glyphs, decide (g.char ≠ '\x00') = true := fun g hg =>
    decide_eq_true (Text.char_ne_of_mem_glyphs hg hnul (by decide) (nul_not_mem_upToNul src))
  have hsplit : upToNul src ++ src.dropWhile (fun b => b ≠ 0) = src :=
    List.takeWhile_append_dropWhile
  cases hrest : src.dropWhile fun b => b ≠ 0 with
  | nil =>
    rw [hrest, List.append_nil] at hsplit
    have hwhole := nul_not_mem_upToNul src
    rw [hsplit] at hwhole ⊢
    exact body_eq_glyphs hwhole
  | cons b rest =>
    have hb : b = 0 := by
      have hstop := List.head?_dropWhile_not (fun b : UInt8 => decide (b ≠ 0)) src
      rw [hrest] at hstop
      simpa using hstop
    have hglyphs := Text.glyphs_append (upToNul src) (show '\x00'.toNat < 128 by decide) rest
    rw [hnul, List.singleton_append, ← hb, ← hrest, hsplit] at hglyphs
    unfold body
    rw [hglyphs, List.takeWhile_append_of_pos hall, List.takeWhile_cons_of_neg (by decide),
      List.append_nil]

/-- **Nothing is dropped silently.** The tokens of a source end with exactly
one mark of the end; they and the reports are those of the source up to its
first NUL. This part of the source is the bytes of a layout of the tokens:
each byte is in the lexeme of one of them or in a gap, and what stands in the
gaps are blanks, complete comments, a comment up to the end, characters that
start no token, and at the very end a string or a comment that is never
closed. What is reported, in order, are these characters, the open end, and
the numbers among the tokens that are too large; each of them once, and
nothing else. -/
theorem nothing_dropped (src : Text) :
    let p := upToNul src
    tokens src = tokens p ∧ reports src = reports p ∧
      ∃ (l : Layout) (last : Int), l.text = p ∧
        tokens src = l.tokens ++ [⟨.eof, [], .nil, last⟩] ∧ (∀ t ∈ l.tokens, t.kind ≠ .eof) ∧
        (reports src).map Report.message = l.complaints.map Complaint.message ∧
        (reports src).length = (l.scraps.flatMap Scrap.complaints).length +
          l.tail.complaints.length +
          (tokens src).countP fun t => t.kind == .number && overflows t := by
  intro p
  have hbody : body src = p.glyphs := body_eq src
  have hnul : 0 ∉ p := nul_not_mem_upToNul src
  have hpieces : pieces src = pieces p := by
    unfold pieces
    rw [hbody, body_eq_glyphs hnul]
  have htokens : tokens src = tokens p := by
    unfold tokens
    rw [hpieces]
  have hreports : reports src = reports p := by
    unfold reports
    rw [hpieces]
  obtain ⟨l, hl⟩ := exists_laidOut p.glyphs.length p 1 (Nat.le_refl _) hnul
  rw [← hbody] at hl
  obtain ⟨last, hlast⟩ := hl.tokens
  have hcomplaints : (reports src).map Report.message = l.complaints.map Complaint.message := by
    rw [← hl.complaints]
    unfold reports pieces
    simp only [List.map_map, Function.comp_def]
  refine ⟨htokens, hreports, l, last, hl.text, hlast, fun t ht => (hl.kinds t ht).1,
    hcomplaints, ?_⟩
  -- the numbers that are too large are numbers
  have hnumbers : (tokens src).countP (fun t => t.kind == .number && overflows t) =
      l.tokens.countP overflows := by
    rw [show tokens src = l.tokens ++ [⟨.eof, [], .nil, last⟩] from hlast, List.countP_append]
    refine List.countP_congr fun t ht => ?_
    simp only [Bool.and_eq_true, beq_iff_eq, and_iff_right_iff_imp]
    exact (hl.kinds t ht).2
  have hlengths := congrArg List.length hcomplaints
  rw [List.length_map, List.length_map] at hlengths
  rw [hlengths, hnumbers, l.length_complaints]

end Source

end TanLang
