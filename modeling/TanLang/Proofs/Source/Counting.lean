import TanLang.Proofs.Source.Layout
/-!
# Source — the lines of the tokens

The line of a token is counted while the source is cut: one more for each
line end among the blanks, in block comments and in strings. **Every line
end is counted where it is passed, but for one kind**: in a string, a line
end right after a backslash is taken with it as one escape and not counted.
So a token stands on the line that the line ends before its end make, less
the escaped ones among them.
-/

namespace TanLang

namespace Source

/-- How many line ends of a string are escaped. -/
def escapedEnds : List Char → Nat
  | [] => 0
  | c :: rest =>
    if c = '\\' then
      match rest with
      | [] => 0
      | e :: more => (if e = '\n' then 1 else 0) + escapedEnds more
    else escapedEnds rest

/-- How many line ends of a piece are escaped: only a string, closed or not,
has any. -/
def Piece.escapedEnds : Piece → Nat
  | .token t => if t.kind = .string then Source.escapedEnds (t.lexeme.glyphs.map Glyph.char) else 0
  | .openString gs _ => Source.escapedEnds (gs.map Glyph.char)
  | _ => 0

/-- How many of some glyphs are line ends. -/
def lineEnds (gs : List Glyph) : Nat := gs.countP fun g => g.char = '\n'

section

variable {g : Glyph} {gs rest : List Glyph} {line last : Int} {taken n : Nat}

@[simp]
theorem lineEnds_nil : lineEnds [] = 0 := rfl

theorem lineEnds_cons (g : Glyph) (gs : List Glyph) :
    lineEnds (g :: gs) = lineEnds gs + if g.char = '\n' then 1 else 0 := by
  simp only [lineEnds, List.countP_cons, decide_eq_true_eq]

theorem lineEnds_append (gs rest : List Glyph) :
    lineEnds (gs ++ rest) = lineEnds gs + lineEnds rest :=
  List.countP_append

theorem lineEnds_eq_zero (h : ∀ g ∈ gs, g.char ≠ '\n') : lineEnds gs = 0 :=
  List.countP_eq_zero.2 fun g hg hend => h g hg (of_decide_eq_true hend)

theorem lineAfter_eq (line : Int) (g : Glyph) :
    lineAfter line g.char = line + lineEnds [g] := by
  rw [lineEnds_cons, lineEnds_nil]
  unfold lineAfter
  split <;> simp

theorem escapedEnds_plain {c : Char} (hc : c ≠ '\\') (cs : List Char) :
    escapedEnds (c :: cs) = escapedEnds cs := by
  rw [escapedEnds.eq_def]
  simp only [if_neg hc]

/-! ## Comments and strings -/

/-- A block comment that is closed counts all of its line ends. -/
theorem commentBody_counts (h : commentBody line taken gs = .closed n last) :
    ∃ inner rest, gs = inner ++ rest ∧ n = taken + inner.length ∧
      last = line + lineEnds inner := by
  induction gs generalizing line taken with
  | nil => cases h
  | cons g more ih =>
    rw [commentBody] at h
    split at h
    · rename_i hclosed
      cases h
      cases more with
      | nil => cases hclosed.2
      | cons d rest =>
        have hslash : d.char = '/' := Option.some.inj hclosed.2
        refine ⟨[g, d], rest, rfl, rfl, ?_⟩
        rw [lineEnds_cons, lineEnds_cons, hclosed.1, hslash]
        simp
    · obtain ⟨inner, rest, rfl, rfl, rfl⟩ := ih h
      refine ⟨g :: inner, rest, rfl, ?_, ?_⟩
      · rw [List.length_cons]
        omega
      · rw [lineAfter_eq, show g :: inner = [g] ++ inner from rfl, lineEnds_append]
        omega

/-- So does one that is never closed. -/
theorem commentBody_unclosed_counts (h : commentBody line taken gs = .unclosed last) :
    last = line + lineEnds gs := by
  induction gs generalizing line taken with
  | nil =>
    cases h
    simp
  | cons g more ih =>
    rw [commentBody] at h
    split at h
    · cases h
    · rw [ih h, lineAfter_eq, show g :: more = [g] ++ more from rfl, lineEnds_append]
      omega

/-- **A string that is closed counts its line ends but for the escaped
ones.** -/
theorem stringBody_counts {reversed value : List Char}
    (h : stringBody line taken reversed gs = .closed n value last) :
    ∃ inner rest, gs = inner ++ rest ∧ n = taken + inner.length ∧
      last + escapedEnds (inner.map Glyph.char) = line + lineEnds inner := by
  fun_induction stringBody line taken reversed gs with
  | case1 => cases h
  | case2 line taken reversed g rest hquote =>
    cases h
    refine ⟨[g], rest, rfl, rfl, ?_⟩
    rw [lineEnds_cons, hquote]
    simp [escapedEnds, hquote]
  | case3 => cases h
  | case4 line taken reversed g hquote hslash e more ih =>
    obtain ⟨inner, rest, rfl, rfl, hlast⟩ := ih h
    refine ⟨g :: e :: inner, rest, rfl, ?_, ?_⟩
    · simp only [List.length_cons]
      omega
    · -- the escaped character is looked at by neither count, unless it is a line end
      rw [lineEnds_cons, lineEnds_cons, hslash]
      simp only [List.map_cons, escapedEnds, hslash, if_true]
      split <;> simp <;> omega
  | case5 line taken reversed g more hquote hslash ih =>
    obtain ⟨inner, rest, rfl, rfl, hlast⟩ := ih h
    refine ⟨g :: inner, rest, rfl, ?_, ?_⟩
    · rw [List.length_cons]
      omega
    · rw [lineAfter_eq] at hlast
      rw [List.map_cons, escapedEnds_plain hslash, show g :: inner = [g] ++ inner from rfl,
        lineEnds_append]
      omega

/-- So does one that is never closed. -/
theorem stringBody_unclosed_counts {reversed : List Char}
    (h : stringBody line taken reversed gs = .unclosed last) :
    last + escapedEnds (gs.map Glyph.char) = line + lineEnds gs := by
  fun_induction stringBody line taken reversed gs with
  | case1 =>
    cases h
    simp [escapedEnds]
  | case2 => cases h
  | case3 line taken reversed g hquote hslash =>
    cases h
    rw [lineEnds_cons, hslash]
    simp [escapedEnds, hslash]
  | case4 line taken reversed g hquote hslash e more ih =>
    have hlast := ih h
    rw [lineEnds_cons, lineEnds_cons, hslash]
    simp only [List.map_cons, escapedEnds, hslash, if_true]
    split <;> simp <;> omega
  | case5 line taken reversed g more hquote hslash ih =>
    have hlast := ih h
    rw [lineAfter_eq] at hlast
    rw [List.map_cons, escapedEnds_plain hslash, show g :: more = [g] ++ more from rfl,
      lineEnds_append]
    omega

/-! ## One piece -/

/-- **A piece is counted right**: it is some of the glyphs at the front, and
after it the line is further by their line ends, less the escaped ones. A
token stands on the line it ends on. -/
structure Counts (line : Int) (all : List Glyph) (c : Cut) (gs rest : List Glyph) : Prop where
  split : all = gs ++ rest
  length : gs.length = c.taken + 1
  text : c.piece.text = Text.ofGlyphs gs
  line : c.line + c.piece.escapedEnds = line + lineEnds gs
  token : ∀ t, c.piece = .token t → t.line = c.line

/-- A token of glyphs that are no line ends, and no string. -/
theorem counts_plainToken {kind : Token.Kind} {literal : Literal} (htaken : taken ≤ rest.length)
    (hkind : kind ≠ .string) (hg : g.char ≠ '\n')
    (hrest : ∀ e ∈ rest.take taken, e.char ≠ '\n') :
    Counts line (g :: rest) (plainToken kind literal line g rest taken) (g :: rest.take taken)
      (rest.drop taken) where
  split := by rw [List.cons_append, List.take_append_drop]
  length := by
    rw [List.length_cons, List.length_take_of_le htaken]
    rfl
  text := rfl
  line := by
    rw [lineEnds_eq_zero (List.forall_mem_cons.2 ⟨hg, hrest⟩)]
    simp only [plainToken, Piece.escapedEnds, if_neg hkind]
  token := by
    rintro t ⟨⟩
    rfl

/-- A piece without escapes that is no token. -/
theorem counts_other {all : List Glyph} {p : Piece} (hsplit : all = gs ++ rest)
    (hlength : gs.length = taken + 1) (htext : p.text = Text.ofGlyphs gs)
    (hescaped : p.escapedEnds = 0) (htoken : p.token? = none)
    (hlast : last = line + lineEnds gs) : Counts line all ⟨p, last, taken⟩ gs rest where
  split := hsplit
  length := hlength
  text := htext
  line := by
    simp only [hescaped, hlast]
    simp
  token := by
    rintro t rfl
    cases htoken

/-- A word holds no line end. -/
theorem mem_word {e : Glyph}
    (he : e ∈ rest.take (rest.takeWhile fun g => Text.continuesWord g.char).length) :
    e.char ≠ '\n' := by
  rw [take_length_takeWhile] at he
  have hword := List.all_eq_true.1 List.all_takeWhile e he
  rintro hend
  rw [hend] at hword
  exact absurd hword (by decide)

/-- A digit is no line end. -/
theorem ne_lineEnd_of_isDigit {c : Char} (h : Text.isDigit c = true) : c ≠ '\n' := by
  rintro rfl
  exact absurd h (by decide)

/-- A number holds no line end. -/
theorem mem_number {e : Glyph} (line : Int) (g : Glyph)
    (he : e ∈ rest.take (cutNumber line g rest).taken) : e.char ≠ '\n' := by
  have hdigits : ∀ gs : List Glyph, ∀ e ∈ gs.takeWhile (fun g => Text.isDigit g.char),
      e.char ≠ '\n' := fun gs e he =>
    ne_lineEnd_of_isDigit (List.all_eq_true.1 List.all_takeWhile e he)
  simp only [cutNumber, plainToken] at he
  rw [List.take_add, List.mem_append, take_length_takeWhile] at he
  rcases he with he | he
  · exact hdigits _ e he
  · -- behind the digits there is the point and its digits, or nothing
    cases hdrop : rest.drop (rest.takeWhile fun g => Text.isDigit g.char).length with
    | nil =>
      rw [hdrop] at he
      simp at he
    | cons point more =>
      rw [hdrop] at he
      by_cases hpoint : point.char = '.'
      · simp only [if_pos hpoint] at he
        split at he
        · cases he
        · rw [List.take_succ_cons, take_length_takeWhile] at he
          rcases List.mem_cons.1 he with rfl | he
          · rw [hpoint]
            decide
          · exact hdigits _ e he
      · simp [if_neg hpoint] at he

/-- A comment counts its line ends. -/
theorem counts_comment {b : Glyph} (hg : g.char = '/') (hb : b.char = '/' ∨ b.char = '*') :
    ∃ gs more, Counts line (g :: b :: rest) (cutComment line g (b :: rest) b.char) gs more := by
  have hslash : g.char ≠ '\n' := by rw [hg]; decide
  unfold cutComment
  split
  · -- a line comment stops before the line end
    have htaken := length_takeWhile_le (fun g => decide (g.char ≠ '\n')) (b :: rest)
    have hnone : ∀ e ∈ (b :: rest).take
        ((b :: rest).takeWhile fun g => decide (g.char ≠ '\n')).length, e.char ≠ '\n' := by
      intro e he
      rw [take_length_takeWhile] at he
      exact of_decide_eq_true (List.all_eq_true.1 List.all_takeWhile e he)
    refine ⟨_, _, counts_other (List.take_append_drop (_ + 1) (g :: b :: rest)).symm ?_
      rfl rfl rfl ?_⟩
    · rw [List.length_take_of_le (Nat.succ_le_succ htaken)]
    · rw [List.take_succ_cons, lineEnds_eq_zero (List.forall_mem_cons.2 ⟨hslash, hnone⟩)]
      simp
  · rename_i hline
    have hstar : b.char = '*' := hb.resolve_left hline
    have hmarks : lineEnds [g, b] = 0 := by
      rw [lineEnds_cons, lineEnds_cons, hg, hstar]
      rfl
    simp only [List.drop_succ_cons, List.drop_zero]
    cases hbody : commentBody line 1 rest with
    | closed n last =>
      obtain ⟨inner, more, rfl, rfl, rfl⟩ := commentBody_counts hbody
      have htake : (b :: (inner ++ more)).take (1 + inner.length) = b :: inner := by
        rw [Nat.add_comm, List.take_succ_cons, List.take_left]
      refine ⟨g :: b :: inner, more, ?_⟩
      simp only [htake]
      refine counts_other rfl ?_ rfl rfl rfl ?_
      · simp only [List.length_cons]
        omega
      · rw [show g :: b :: inner = [g, b] ++ inner from rfl, lineEnds_append, hmarks]
        omega
    | unclosed last =>
      have hlast := commentBody_unclosed_counts hbody
      refine ⟨g :: b :: rest, [], counts_other (List.append_nil _).symm rfl rfl rfl rfl ?_⟩
      rw [show g :: b :: rest = [g, b] ++ rest from rfl, lineEnds_append, hmarks]
      omega

/-- A string counts its line ends but for the escaped ones. -/
theorem counts_string (hall : (Text.ofGlyphs (g :: rest)).glyphs = g :: rest)
    (hg : g.char = '"') : ∃ gs more, Counts line (g :: rest) (cutString line g rest) gs more := by
  have hquote : g.char ≠ '\\' := by rw [hg]; decide
  have hmark : lineEnds [g] = 0 := by
    rw [lineEnds_cons, hg]
    rfl
  unfold cutString
  cases hbody : stringBody line 0 [] rest with
  | closed n value last =>
    obtain ⟨inner, more, rfl, rfl, hlast⟩ := stringBody_counts hbody
    have htake : (inner ++ more).take (0 + inner.length) = inner := by
      rw [Nat.zero_add, List.take_left]
    have hsplit : (Text.ofGlyphs (g :: (inner ++ more))).glyphs = (g :: inner) ++ more := hall
    have hglyphs := Text.glyphs_ofGlyphs_left hsplit
    refine ⟨g :: inner, more, rfl, ?_, ?_, ?_, ?_⟩
    · simp [plainToken]
    · simp only [plainToken, Piece.text, htake]
    · simp only [plainToken, Piece.escapedEnds, htake, hglyphs, if_true]
      rw [List.map_cons, escapedEnds_plain hquote, show g :: inner = [g] ++ inner from rfl,
        lineEnds_append, hmark]
      omega
    · rintro t ⟨⟩
      rfl
  | unclosed last =>
    have hlast := stringBody_unclosed_counts hbody
    refine ⟨g :: rest, [], (List.append_nil _).symm, rfl, rfl, ?_, ?_⟩
    · simp only [Piece.escapedEnds]
      rw [List.map_cons, escapedEnds_plain hquote, show g :: rest = [g] ++ rest from rfl,
        lineEnds_append, hmark]
      omega
    · rintro _ ⟨⟩

theorem comparison_ne_string {c : Char} {kinds : Token.Kind × Token.Kind}
    (h : comparison c = some kinds) : kinds.1 ≠ .string ∧ kinds.2 ≠ .string := by
  unfold comparison at h
  split at h <;> cases h <;> decide

theorem punctuation_ne_string {c : Char} {kind : Token.Kind} (h : punctuation c = some kind) :
    kind ≠ .string := by
  unfold punctuation at h
  split at h <;> cases h <;> decide

theorem ofWord_ne_string (w : Text) : Token.Kind.ofWord w ≠ .string := by
  unfold Token.Kind.ofWord
  split
  · rename_i k hfind
    have hall : ∀ k ∈ Token.Kind.keywords, k.2 ≠ .string := by decide
    exact hall k (List.mem_of_find?_eq_some hfind)
  · decide

/-- **Every piece is counted right.** -/
theorem cut_counts (line : Int) (hall : (Text.ofGlyphs (g :: rest)).glyphs = g :: rest) :
    ∃ gs more, Counts line (g :: rest) (cut line g rest) gs more := by
  unfold cut
  simp only
  split
  · exact ⟨[g], rest, counts_other rfl rfl (List.append_nil _).symm rfl rfl (lineAfter_eq line g)⟩
  rename_i hblank
  have hend : g.char ≠ '\n' := fun h => hblank (by rw [h]; decide)
  split
  · rename_i hcomment
    obtain ⟨hslash, hnext⟩ := hcomment
    cases rest with
    | nil => cases hnext
    | cons b rest =>
      have hb : b.char = '/' := Option.some.inj hnext
      rw [← hb]
      exact counts_comment hslash (.inl hb)
  split
  · rename_i hcomment
    obtain ⟨hslash, hnext⟩ := hcomment
    cases rest with
    | nil => cases hnext
    | cons b rest =>
      have hb : b.char = '*' := Option.some.inj hnext
      rw [← hb]
      exact counts_comment hslash (.inr hb)
  split
  · rename_i hquote
    exact counts_string hall hquote
  cases hcomparison : comparison g.char with
  | some kinds =>
    obtain ⟨halone, hpaired⟩ := comparison_ne_string hcomparison
    simp only
    split
    · rename_i hnext
      cases rest with
      | nil => cases hnext
      | cons b rest =>
        have hb : b.char = '=' := Option.some.inj hnext
        refine ⟨_, _, counts_plainToken (Nat.le_add_left ..) hpaired hend ?_⟩
        intro e he
        obtain rfl : e = b := by simpa using he
        rw [hb]
        decide
    · exact ⟨_, _, counts_plainToken (Nat.zero_le _) halone hend nofun⟩
  | none =>
    cases hpunctuation : punctuation g.char with
    | some kind =>
      have hkind := punctuation_ne_string hpunctuation
      exact ⟨_, _, counts_plainToken (Nat.zero_le _) hkind hend nofun⟩
    | none =>
      simp only
      split
      · have htaken : (cutWord line g rest).taken ≤ rest.length := (cutWord_lineEnd []).2
        exact ⟨_, _, counts_plainToken htaken (ofWord_ne_string _) hend fun e => mem_word⟩
      split
      · have htaken : (cutNumber line g rest).taken ≤ rest.length := (cutNumber_lineEnd []).2
        exact ⟨_, _, counts_plainToken htaken nofun hend fun e =>
          mem_number line g⟩
      · refine ⟨[g], rest, counts_other rfl rfl (List.append_nil _).symm rfl rfl ?_⟩
        rw [lineEnds_eq_zero (by simpa using hend)]
        simp

/-! ## The whole source -/

/-- The line ends of some glyphs are the newlines of their bytes. -/
theorem count_newline (hgs : (Text.ofGlyphs gs).glyphs = gs) :
    (Text.ofGlyphs gs).count Text.newline = lineEnds gs := by
  induction gs with
  | nil => rfl
  | cons g rest ih =>
    have hsplit : (Text.ofGlyphs (g :: rest)).glyphs = [g] ++ rest := hgs
    have hrest := Text.glyphs_ofGlyphs_right [g] hsplit
    have hfirst := Text.glyphs_ofGlyphs_left hsplit
    have hone : (Text.ofGlyphs [g]).count Text.newline = if g.char = '\n' then 1 else 0 := by
      split
      · rename_i hend
        have hg : g ∈ (Text.ofGlyphs (g :: rest)).glyphs := by
          rw [hgs]
          exact List.mem_cons_self ..
        rw [eq_of_mem_glyphs hg hend (by decide)]
        decide
      · rename_i hend
        exact List.count_eq_zero.2 (newline_not_mem hfirst (by simpa using hend))
    have hbytes : Text.ofGlyphs ([g] ++ rest) = Text.ofGlyphs [g] ++ Text.ofGlyphs rest :=
      List.flatMap_append
    rw [show g :: rest = [g] ++ rest from rfl, hbytes, List.count_append, hone, ih hrest,
      lineEnds_append, lineEnds_cons, lineEnds_nil, Nat.zero_add]

/-- **One piece, and the pieces of what is left.** -/
theorem exists_piece (line : Int) (hall : (Text.ofGlyphs (g :: rest)).glyphs = g :: rest) :
    ∃ gs more, Counts line (g :: rest) (cut line g rest) gs more ∧
      piecesAfter 0 line (g :: rest) =
        (cut line g rest).piece :: piecesAfter 0 (cut line g rest).line more ∧
      more.length ≤ rest.length ∧ (Text.ofGlyphs gs).glyphs = gs ∧
      (Text.ofGlyphs more).glyphs = more := by
  obtain ⟨gs, more, hcounts⟩ := cut_counts line hall
  have hsplit := hcounts.split
  have hlength := hcounts.length
  cases gs with
  | nil => cases hlength
  | cons g' gs =>
    obtain ⟨rfl, hrest⟩ := List.cons.inj hsplit
    rw [hsplit] at hall
    refine ⟨g :: gs, more, hcounts, ?_, ?_, Text.glyphs_ofGlyphs_left hall,
      Text.glyphs_ofGlyphs_right (g :: gs) hall⟩
    · have htaken : (cut line g rest).taken = gs.length := (Nat.succ.inj hlength).symm
      have hskip := piecesAfter_append (cut line g rest).line gs more
      rw [piecesAfter, htaken, ← hskip, hrest]
      rfl
    · rw [hrest, List.append_eq, List.length_append]
      omega

/-- The pieces of some glyphs are their bytes, in order. -/
theorem flatMap_piecesAfter (n : Nat) : ∀ (gs : List Glyph) (line : Int), gs.length ≤ n →
    (Text.ofGlyphs gs).glyphs = gs →
      (piecesAfter 0 line gs).flatMap Piece.text = Text.ofGlyphs gs := by
  induction n with
  | zero =>
    intro gs line hlength _
    obtain rfl := List.eq_nil_of_length_eq_zero (Nat.le_zero.1 hlength)
    rfl
  | succ n ih =>
    intro gs line hlength hgs
    cases gs with
    | nil => rfl
    | cons g rest =>
      obtain ⟨front, more, hcounts, hpieces, hshorter, -, hmore⟩ := exists_piece line hgs
      have hle : more.length ≤ n := Nat.le_trans hshorter (Nat.le_of_succ_le_succ hlength)
      rw [hpieces, List.flatMap_cons, ih more _ hle hmore, hcounts.text, hcounts.split]
      exact List.flatMap_append.symm

theorem piecesAfter_ne_nil (line : Int) (gs : List Glyph) : piecesAfter 0 line gs ≠ [] := by
  cases gs <;> rw [piecesAfter] <;> exact List.cons_ne_nil _ _

/-- How many line ends of some pieces are escaped. -/
def escapedIn : List Piece → Nat
  | [] => 0
  | p :: ps => p.escapedEnds + escapedIn ps

/-- **The tokens among the pieces of some glyphs are counted right**, from
the line on which the first of the glyphs stands. -/
theorem piecesAfter_counts (n : Nat) : ∀ (gs : List Glyph) (line : Int), gs.length ≤ n →
    (Text.ofGlyphs gs).glyphs = gs → ∀ ps t qs, piecesAfter 0 line gs = ps ++ .token t :: qs →
      (t.kind = .eof ↔ qs = []) ∧
      t.line + escapedIn (ps ++ [.token t]) =
        line + (ps.flatMap Piece.text ++ t.lexeme).count Text.newline := by
  have hnone : ∀ (line : Int) ps t qs, [endMark line] = ps ++ .token t :: qs →
      (t.kind = .eof ↔ qs = []) ∧ t.line + escapedIn (ps ++ [.token t]) =
        line + (ps.flatMap Piece.text ++ t.lexeme).count Text.newline := by
    intro line ps t qs hsplit
    cases ps with
    | nil =>
      cases hsplit
      exact ⟨⟨fun _ => rfl, fun _ => rfl⟩, rfl⟩
    | cons p ps => simp [endMark] at hsplit
  induction n with
  | zero =>
    intro gs line hlength _
    obtain rfl := List.eq_nil_of_length_eq_zero (Nat.le_zero.1 hlength)
    exact hnone line
  | succ n ih =>
    intro gs line hlength hgs ps t qs hsplit
    cases gs with
    | nil => exact hnone line ps t qs hsplit
    | cons g rest =>
      obtain ⟨front, more, hcounts, hpieces, hshorter, hfront, hmore⟩ := exists_piece line hgs
      have hle : more.length ≤ n := Nat.le_trans hshorter (Nat.le_of_succ_le_succ hlength)
      have hline := hcounts.line
      rw [hpieces] at hsplit
      cases ps with
      | nil =>
        obtain ⟨hpiece, rfl⟩ := List.cons.inj hsplit
        have hkind := (cut_told hpiece).2
        have htext := hcounts.text
        rw [hpiece] at hline htext
        refine ⟨⟨fun h => absurd h hkind, fun h => absurd h (piecesAfter_ne_nil _ _)⟩, ?_⟩
        have hlexeme : t.lexeme = Text.ofGlyphs front := htext
        simp only [List.nil_append, List.flatMap_nil, hlexeme, count_newline hfront,
          hcounts.token t hpiece, escapedIn, Nat.add_zero]
        exact hline
      | cons p ps =>
        obtain ⟨rfl, hrest⟩ := List.cons.inj hsplit
        obtain ⟨hkind, hcount⟩ := ih more _ hle hmore ps t qs hrest
        refine ⟨hkind, ?_⟩
        have hescaped : escapedIn ((cut line g rest).piece :: ps ++ [.token t]) =
            (cut line g rest).piece.escapedEnds + escapedIn (ps ++ [.token t]) := rfl
        rw [hescaped, List.flatMap_cons, List.append_assoc, List.count_append, hcounts.text,
          count_newline hfront]
        push_cast
        omega

end

/-- **The line of a token.** Take a token anywhere among the pieces of a
source. The pieces are the source up to its first NUL; the token at their
end is the mark of the end, and no other is. The line of the token is one
more than the newlines in the source up to the end of its lexeme, without
those that are escaped in the strings up to there, the token included. -/
theorem token_line (src : Text) (ps qs : List Piece) (t : Token)
    (h : pieces src = ps ++ .token t :: qs) :
    let before := ps.flatMap Piece.text ++ t.lexeme
    before ++ qs.flatMap Piece.text = upToNul src ∧ (t.kind = .eof ↔ qs = []) ∧
      t.line + escapedIn (ps ++ [.token t]) = 1 + before.count Text.newline := by
  intro before
  have hbody : body src = (upToNul src).glyphs := body_eq src
  have hglyphs : (Text.ofGlyphs (body src)).glyphs = body src := by
    rw [hbody, Text.ofGlyphs_glyphs]
  obtain ⟨hkind, hcount⟩ := piecesAfter_counts _ _ 1 (Nat.le_refl _) hglyphs ps t qs h
  have htext := flatMap_piecesAfter _ _ 1 (Nat.le_refl _) hglyphs
  refine ⟨?_, hkind, hcount⟩
  rw [show piecesAfter 0 1 (body src) = ps ++ .token t :: qs from h, hbody,
    Text.ofGlyphs_glyphs] at htext
  rw [← htext, List.flatMap_append, List.flatMap_cons, ← List.append_assoc]
  rfl

/-- A name on the third line, behind a comment and a string that each hold a
line end. -/
theorem token_line_name :
    ∃ (ps qs : List Piece) (t : Token), pieces (Text.ofString "/*\n*/\"\n\"x") = ps ++ .token t :: qs ∧
      t.lexeme = Text.ofString "x" ∧ t.line = 3 ∧
      t.line + escapedIn (ps ++ [.token t]) =
        1 + (ps.flatMap Piece.text ++ t.lexeme).count Text.newline := by
  have hpieces : pieces (Text.ofString "/*\n*/\"\n\"x") =
      (pieces (Text.ofString "/*\n*/\"\n\"x")).take 2 ++
        .token ⟨.identifier, Text.ofString "x", .nil, 3⟩ :: [endMark 3] := by decide +kernel
  obtain ⟨-, -, hline⟩ := token_line _ _ _ _ hpieces
  exact ⟨_, _, _, hpieces, rfl, rfl, hline⟩

/-- **A line end behind a backslash is lost**: the string and everything
after it stand on the line before. -/
theorem token_line_escaped :
    ∃ (ps qs : List Piece) (t : Token), pieces (Text.ofString "\"\\\n\" x") = ps ++ .token t :: qs ∧
      t.lexeme = Text.ofString "x" ∧ t.line = 1 ∧
      1 + (ps.flatMap Piece.text ++ t.lexeme).count Text.newline = 2 :=
  ⟨(pieces (Text.ofString "\"\\\n\" x")).take 2, [endMark 1],
    ⟨.identifier, Text.ofString "x", .nil, 1⟩, by decide +kernel, rfl, rfl, by decide +kernel⟩

end Source

end TanLang
