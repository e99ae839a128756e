import TanLang.Program
import TanLang.Proofs.Lines
import TanLang.Proofs.Source.Glyphs
import TanLang.Proofs.Source.Words
/-!
# Source — two sources with a line end between them

No piece that is right reaches over a line end that was added behind it: a
line comment stops there, a closed string or comment was closed before, and
nothing else goes on with a line end. So a source that is scanned without a
report, followed by a line end and another source, is cut into **the pieces
of the one, the line end, and the pieces of the other**, the latter on lines
further down.
-/

namespace TanLang

namespace Source

open Glyph (lineEnd)

/-! ## Further down -/

/-- The piece so many lines further down. -/
def Piece.lower (k : Int) : Piece → Piece
  | .blank g => .blank g
  | .comment gs => .comment gs
  | .token t => .token (t.reline (· + k))
  | .stray g line => .stray g (line + k)
  | .openString gs line => .openString gs (line + k)
  | .openComment gs line => .openComment gs (line + k)

/-- The cut so many lines further down. -/
def Cut.lower (k : Int) (c : Cut) : Cut := ⟨c.piece.lower k, c.line + k, c.taken⟩

theorem lineAfter_add (line k : Int) (c : Char) :
    lineAfter (line + k) c = lineAfter line c + k := by
  unfold lineAfter
  split <;> omega

/-- The end of a block comment so many lines further down. -/
def CommentBody.lower (k : Int) : CommentBody → CommentBody
  | .closed taken line => .closed taken (line + k)
  | .unclosed line => .unclosed (line + k)

theorem commentBody_add (k line : Int) (taken : Nat) (gs : List Glyph) :
    commentBody (line + k) taken gs = (commentBody line taken gs).lower k := by
  induction gs generalizing line taken with
  | nil => rfl
  | cons g rest ih =>
    unfold commentBody
    split
    · rfl
    · rw [lineAfter_add, ih]

/-- The end of a string so many lines further down. -/
def StringBody.lower (k : Int) : StringBody → StringBody
  | .closed taken value line => .closed taken value (line + k)
  | .unclosed line => .unclosed (line + k)

section

variable (line : Int) (taken : Nat) (reversed : List Char) {g : Glyph} (e : Glyph)
variable (rest : List Glyph)

theorem stringBody_quote (hquote : g.char = '"') :
    stringBody line taken reversed (g :: rest) = .closed (taken + 1) reversed.reverse line := by
  rw [stringBody.eq_def]
  simp only [hquote, if_true]

theorem stringBody_breaksOff (hslash : g.char = '\\') :
    stringBody line taken reversed [g] = .unclosed line := by
  rw [stringBody.eq_def]
  simp only [hslash, if_true]
  rfl

theorem stringBody_escape (hslash : g.char = '\\') :
    stringBody line taken reversed (g :: e :: rest) =
      stringBody line (taken + 2) (escape e.char ++ reversed) rest := by
  rw [stringBody.eq_def]
  simp only [hslash, if_true]
  rfl

theorem stringBody_plain (hquote : g.char ≠ '"') (hslash : g.char ≠ '\\') :
    stringBody line taken reversed (g :: rest) =
      stringBody (lineAfter line g.char) (taken + 1) (g.char :: reversed) rest := by
  rw [stringBody.eq_def]
  simp only [hquote, hslash, if_false]

end

theorem stringBody_add (k line : Int) (taken : Nat) (reversed : List Char) (gs : List Glyph) :
    stringBody (line + k) taken reversed gs = (stringBody line taken reversed gs).lower k := by
  fun_induction stringBody line taken reversed gs with
  | case1 => rfl
  | case2 line taken reversed g rest hquote => exact stringBody_quote _ _ _ _ hquote
  | case3 line taken reversed g hquote hslash => exact stringBody_breaksOff _ _ _ hslash
  | case4 line taken reversed g hquote hslash e more ih =>
    rw [stringBody_escape _ _ _ _ _ hslash, ih]
  | case5 line taken reversed g rest hquote hslash ih =>
    rw [stringBody_plain _ _ _ _ hquote hslash, lineAfter_add, ih]

/-- **What is cut off is the same further down.** -/
theorem cut_add (k line : Int) (g : Glyph) (rest : List Glyph) :
    cut (line + k) g rest = (cut line g rest).lower k := by
  unfold cut
  simp only
  split
  · simp only [Cut.lower, Piece.lower, lineAfter_add]
  split
  · simp only [cutComment, if_true, Cut.lower, Piece.lower]
  split
  · unfold cutComment
    rw [commentBody_add]
    split
    · rfl
    · cases commentBody line 1 (rest.drop 1) <;> rfl
  split
  · unfold cutString
    rw [stringBody_add]
    cases stringBody line 0 [] rest <;> rfl
  split
  · split <;> rfl
  · rfl
  · split
    · rfl
    split <;> rfl

theorem piecesAfter_add (k line : Int) (skip : Nat) (gs : List Glyph) :
    piecesAfter skip (line + k) gs = (piecesAfter skip line gs).map (Piece.lower k) := by
  induction gs generalizing skip line with
  | nil => rfl
  | cons g rest ih =>
    cases skip with
    | succ skip => exact ih line skip
    | zero => simp only [piecesAfter, cut_add, Cut.lower, List.map_cons, ih]

theorem token?_lower (k : Int) (p : Piece) :
    (p.lower k).token? = p.token?.map (Token.reline (· + k)) := by
  cases p <;> rfl

theorem complaint?_lower (k : Int) (p : Piece) :
    (p.lower k).complaint? = none ↔ p.complaint? = none := by
  cases p with
  | token t =>
    simp only [Piece.lower, Piece.complaint?, Token.reline_literal]
    split
    · split <;> simp
    · rfl
  | _ => simp [Piece.lower, Piece.complaint?]

/-! ## Up to a line end -/

section

variable (more : List Glyph)

theorem takeWhile_lineEnd {p : Glyph → Bool} (hp : p lineEnd = false) (rest : List Glyph) :
    (rest ++ lineEnd :: more).takeWhile p = rest.takeWhile p := by
  induction rest with
  | nil => simp [hp]
  | cons g rest ih => simp only [List.cons_append, List.takeWhile_cons, ih]

/-- A comment that is closed stays closed where it is. -/
theorem commentBody_append {line last : Int} {taken n : Nat} {gs : List Glyph}
    (h : commentBody line taken gs = .closed n last) :
    commentBody line taken (gs ++ more) = .closed n last ∧ n ≤ taken + gs.length := by
  induction gs generalizing line taken with
  | nil => cases h
  | cons g rest ih =>
    cases rest with
    | nil =>
      -- one character does not close a comment
      simp only [commentBody, List.head?_nil, Option.map_none, reduceCtorEq, and_false,
        if_false] at h
    | cons next rest =>
      rw [commentBody] at h
      rw [List.cons_append, commentBody]
      split at h
      · rename_i hclosed
        cases h
        rw [if_pos (by simpa using hclosed)]
        exact ⟨rfl, by simp only [List.length_cons]; omega⟩
      · rename_i hopen
        obtain ⟨hrest, hle⟩ := ih h
        rw [if_neg (by simpa using hopen)]
        exact ⟨hrest, by simp only [List.length_cons] at hle ⊢; omega⟩

/-- A string that is closed stays closed where it is. -/
theorem stringBody_append {line last : Int} {taken n : Nat} {reversed value : List Char}
    {gs : List Glyph} (h : stringBody line taken reversed gs = .closed n value last) :
    stringBody line taken reversed (gs ++ more) = .closed n value last ∧
      n ≤ taken + gs.length := by
  fun_induction stringBody line taken reversed gs with
  | case1 => cases h
  | case2 line taken reversed g rest hquote =>
    cases h
    rw [List.cons_append, stringBody_quote _ _ _ _ hquote]
    exact ⟨rfl, by simp only [List.length_cons]; omega⟩
  | case3 => cases h
  | case4 line taken reversed g hquote hslash e rest ih =>
    obtain ⟨hrest, hle⟩ := ih h
    rw [List.cons_append, List.cons_append, stringBody_escape _ _ _ _ _ hslash]
    exact ⟨hrest, by simp only [List.length_cons]; omega⟩
  | case5 line taken reversed g rest hquote hslash ih =>
    obtain ⟨hrest, hle⟩ := ih h
    rw [List.cons_append, stringBody_plain _ _ _ _ hquote hslash]
    exact ⟨hrest, by simp only [List.length_cons]; omega⟩

/-- What can be told from the next character can be told at a line end. -/
theorem head?_lineEnd {rest : List Glyph} {c : Char} (hc : c ≠ '\n') :
    (rest ++ lineEnd :: more).head?.map Glyph.char = some c ↔
      rest.head?.map Glyph.char = some c := by
  cases rest with
  | nil =>
    simp only [List.nil_append, List.head?_cons, Option.map_some, List.head?_nil, Option.map_none,
      Option.some.injEq, reduceCtorEq, iff_false]
    exact fun h => hc h.symm
  | cons g rest => rfl

theorem plainToken_append {kind : Token.Kind} {literal : Literal} {line : Int} {g : Glyph}
    {rest : List Glyph} {taken : Nat} (h : taken ≤ rest.length) :
    plainToken kind literal line g (rest ++ more) taken =
      plainToken kind literal line g rest taken := by
  unfold plainToken
  rw [List.take_append_of_le_length h]

theorem length_takeWhile_le (p : Glyph → Bool) (rest : List Glyph) :
    (rest.takeWhile p).length ≤ rest.length :=
  (List.takeWhile_sublist p).length_le

theorem take_length_takeWhile (p : Glyph → Bool) (rest : List Glyph) :
    rest.take (rest.takeWhile p).length = rest.takeWhile p :=
  Eq.symm <| List.prefix_iff_eq_take.1 <| List.takeWhile_prefix p

variable {line : Int} {g : Glyph} {rest : List Glyph}

theorem cutComment_lineEnd {second : Char} (hrest : rest ≠ [])
    (h : (cutComment line g rest second).piece.complaint? = none) :
    cutComment line g (rest ++ lineEnd :: more) second = cutComment line g rest second ∧
      (cutComment line g rest second).taken ≤ rest.length := by
  unfold cutComment at h ⊢
  by_cases hline : second = '/'
  · have htaken := length_takeWhile_le (fun g => g.char ≠ '\n') rest
    simp only [if_pos hline]
    rw [takeWhile_lineEnd more rfl, List.take_append_of_le_length htaken]
    exact ⟨rfl, htaken⟩
  · simp only [if_neg hline] at h ⊢
    obtain ⟨first, tail, rfl⟩ := List.exists_cons_of_ne_nil hrest
    cases hbody : commentBody line 1 ((first :: tail).drop 1) with
    | unclosed last =>
      simp only [hbody] at h
      cases h
    | closed n last =>
      obtain ⟨hbody', hle⟩ := commentBody_append (lineEnd :: more) hbody
      have htaken : n ≤ (first :: tail).length := by
        simp only [List.drop_succ_cons, List.drop_zero, List.length_cons] at hle ⊢
        omega
      rw [show ((first :: tail) ++ lineEnd :: more).drop 1 =
        (first :: tail).drop 1 ++ lineEnd :: more from rfl, hbody']
      simp only [List.take_append_of_le_length htaken]
      exact ⟨trivial, htaken⟩

theorem cutString_lineEnd (h : (cutString line g rest).piece.complaint? = none) :
    cutString line g (rest ++ lineEnd :: more) = cutString line g rest ∧
      (cutString line g rest).taken ≤ rest.length := by
  unfold cutString at h ⊢
  cases hbody : stringBody line 0 [] rest with
  | unclosed last =>
    simp only [hbody] at h
    cases h
  | closed n value last =>
    obtain ⟨hbody', hle⟩ := stringBody_append (lineEnd :: more) hbody
    have htaken : n ≤ rest.length := by omega
    simp only [hbody']
    exact ⟨plainToken_append _ htaken, htaken⟩

theorem cutWord_lineEnd :
    cutWord line g (rest ++ lineEnd :: more) = cutWord line g rest ∧
      (cutWord line g rest).taken ≤ rest.length := by
  have hstops : Text.continuesWord lineEnd.char = false := by decide
  have htaken := length_takeWhile_le (fun g => Text.continuesWord g.char) rest
  unfold cutWord
  rw [takeWhile_lineEnd more hstops]
  simp only [List.take_append_of_le_length htaken]
  exact ⟨plainToken_append _ htaken, htaken⟩

theorem cutNumber_lineEnd :
    cutNumber line g (rest ++ lineEnd :: more) = cutNumber line g rest ∧
      (cutNumber line g rest).taken ≤ rest.length := by
  have hstops : ∀ gs : List Glyph,
      (gs ++ lineEnd :: more).takeWhile (fun g => Text.isDigit g.char) =
        gs.takeWhile fun g => Text.isDigit g.char :=
    takeWhile_lineEnd more (by decide)
  have hwhole := length_takeWhile_le (fun g => Text.isDigit g.char) rest
  unfold cutNumber
  simp only [hstops, List.drop_append_of_le_length hwhole]
  have hlength : rest.length = (rest.takeWhile fun g => Text.isDigit g.char).length +
      (rest.drop (rest.takeWhile fun g => Text.isDigit g.char).length).length := by
    rw [List.length_drop]
    omega
  -- what follows the digits before the point
  cases hdrop : rest.drop (rest.takeWhile fun g => Text.isDigit g.char).length with
  | nil =>
    have hpoint : ¬ lineEnd.char = '.' := by decide
    simp only [List.nil_append, hpoint, if_false]
    exact ⟨plainToken_append _ hwhole, hwhole⟩
  | cons point digits =>
    rw [hdrop, List.length_cons] at hlength
    have hdigits := length_takeWhile_le (fun g => Text.isDigit g.char) digits
    simp only [List.cons_append, hstops]
    have htaken : (rest.takeWhile fun g => Text.isDigit g.char).length +
        (if (if point.char = '.' then digits.takeWhile fun g => Text.isDigit g.char
          else []).isEmpty = true then 0
        else (if point.char = '.' then digits.takeWhile fun g => Text.isDigit g.char
          else []).length + 1) ≤ rest.length := by
      by_cases hpoint : point.char = '.'
      · simp only [if_pos hpoint]
        split <;> omega
      · simp only [if_neg hpoint, List.isEmpty_nil, if_true]
        omega
    exact ⟨plainToken_append _ htaken, htaken⟩

/-- **A piece that is right stops before a line end** added behind it, and
is the same with it and without it. -/
theorem cut_lineEnd (h : (cut line g rest).piece.complaint? = none) :
    cut line g (rest ++ lineEnd :: more) = cut line g rest ∧
      (cut line g rest).taken ≤ rest.length := by
  unfold cut at h ⊢
  -- the tests look at one character ahead, and none of them asks for a line end
  simp only [head?_lineEnd more (show '/' ≠ '\n' by decide),
    head?_lineEnd more (show '*' ≠ '\n' by decide),
    head?_lineEnd more (show '=' ≠ '\n' by decide)] at h ⊢
  have hnext : ∀ {c : Char}, rest.head?.map Glyph.char = some c → rest ≠ [] := by
    rintro c hc rfl
    cases hc
  split at h
  · rename_i hblank
    simp only [if_pos hblank]
    exact ⟨trivial, Nat.zero_le _⟩
  rename_i hblank
  split at h
  · rename_i hcomment
    simp only [if_neg hblank, if_pos hcomment]
    exact cutComment_lineEnd more (hnext hcomment.2) h
  rename_i hcomment
  split at h
  · rename_i hblock
    simp only [if_neg hblank, if_neg hcomment, if_pos hblock]
    exact cutComment_lineEnd more (hnext hblock.2) h
  rename_i hblock
  split at h
  · rename_i hquote
    simp only [if_neg hblank, if_neg hcomment, if_neg hblock, if_pos hquote]
    exact cutString_lineEnd more h
  rename_i hquote
  simp only [if_neg hblank, if_neg hcomment, if_neg hblock, if_neg hquote]
  cases comparison g.char with
  | some kinds =>
    simp only
    split
    · rename_i hpaired
      have hone : 1 ≤ rest.length := List.length_pos_iff.2 (hnext hpaired)
      exact ⟨plainToken_append _ hone, hone⟩
    · exact ⟨plainToken_append _ (Nat.zero_le _), Nat.zero_le _⟩
  | none =>
    cases punctuation g.char with
    | some kind => exact ⟨plainToken_append _ (Nat.zero_le _), Nat.zero_le _⟩
    | none =>
      simp only
      split
      · exact cutWord_lineEnd more
      split
      · exact cutNumber_lineEnd more
      · exact ⟨rfl, Nat.zero_le _⟩

/-- The mark at the end of a source. -/
def endMark (line : Int) : Piece := .token ⟨.eof, [], .nil, line⟩

/-- **The pieces of a source without a complaint**, and those it has with a
line end and more behind it. -/
theorem piecesAfter_lineEnd {gs : List Glyph} {skip : Nat} (hskip : skip ≤ gs.length)
    (hright : ∀ p ∈ piecesAfter skip line gs, p.complaint? = none) :
    ∃ ps last, piecesAfter skip line gs = ps ++ [endMark last] ∧
      (∀ t, .token t ∈ ps → t.kind ≠ .eof) ∧
      piecesAfter skip line (gs ++ lineEnd :: more) =
        ps ++ .blank lineEnd :: piecesAfter 0 (last + 1) more := by
  induction gs generalizing skip line with
  | nil =>
    obtain rfl : skip = 0 := Nat.le_zero.1 hskip
    refine ⟨[], line, rfl, fun _ h => absurd h List.not_mem_nil, ?_⟩
    have hblank : isBlank lineEnd.char = true := by decide
    simp only [List.nil_append, piecesAfter, cut, hblank, if_true]
    rfl
  | cons g rest ih =>
    cases skip with
    | succ skip => exact ih (Nat.le_of_succ_le_succ hskip) hright
    | zero =>
      simp only [piecesAfter, List.cons_append] at hright ⊢
      -- the first piece is the same and leaves at least the line end to the rest
      obtain ⟨hcut, htaken⟩ := cut_lineEnd more (hright _ (List.mem_cons_self ..))
      obtain ⟨ps, last, hps, hkinds, hmore⟩ :=
        ih htaken fun p hp => hright p (List.mem_cons_of_mem _ hp)
      refine ⟨(cut line g rest).piece :: ps, last, ?_, ?_, ?_⟩
      · rw [hps]
        rfl
      · intro t ht
        rcases List.mem_cons.1 ht with hpiece | ht
        · exact (cut_told hpiece.symm).2
        · exact hkinds t ht
      · rw [hcut, hmore]
        rfl

end

/-! ## The seam -/

theorem reports_eq_nil {src : Text} :
    reports src = [] ↔ ∀ p ∈ pieces src, p.complaint? = none := by
  unfold reports
  rw [List.map_eq_nil_iff, List.filterMap_eq_nil_iff]

theorem ahead_append {ts us : List Token} (hts : ∀ t ∈ ts, t.kind ≠ .eof) :
    Program.ahead (ts ++ us) = ts ++ Program.ahead us :=
  List.takeWhile_append_of_pos fun t ht => decide_eq_true (hts t ht)

theorem ahead_reline (f : Int → Int) (ts : List Token) :
    Program.ahead (ts.map (Token.reline f)) = (Program.ahead ts).map (Token.reline f) := by
  unfold Program.ahead
  rw [List.takeWhile_map]
  rfl

/-- **Two sources with a line end between them.** If the first has no NUL
and is scanned without a report, the tokens before the end are those of the
first and then those of the second, further down; and there is nothing to
report if there is nothing about the second. -/
theorem tokens_seam {a : Text} (b : Text) (hnul : 0 ∉ a) (ha : reports a = []) :
    ∃ k : Int, Program.ahead (tokens (a ++ Text.newline :: b)) =
        Program.ahead (tokens a) ++ (Program.ahead (tokens b)).map (Token.reline (· + k)) ∧
      (reports b = [] → reports (a ++ Text.newline :: b) = []) := by
  obtain ⟨ps, last, hps, hkinds, hboth⟩ :=
    piecesAfter_lineEnd (body b) (Nat.zero_le _) (reports_eq_nil.1 ha)
  have hbelow : piecesAfter 0 (last + 1) (body b) = (pieces b).map (Piece.lower last) := by
    rw [Int.add_comm]
    exact piecesAfter_add last 1 0 (body b)
  have hpieces : pieces (a ++ Text.newline :: b) =
      ps ++ .blank lineEnd :: (pieces b).map (Piece.lower last) := by
    rw [← hbelow, ← hboth, ← body_append_newline b hnul]
    rfl
  -- none of them is an end mark, so the parser reads on over the seam
  have htokens : ∀ t ∈ ps.filterMap Piece.token?, t.kind ≠ .eof := by
    intro t ht
    obtain ⟨p, hp, htoken⟩ := List.mem_filterMap.1 ht
    cases p with
    | token u =>
      cases htoken
      exact hkinds _ hp
    | _ => cases htoken
  refine ⟨last, ?_, fun hb => ?_⟩
  · have hfirst : tokens a = ps.filterMap Piece.token? ++ [⟨.eof, [], .nil, last⟩] := by
      unfold tokens pieces
      rw [hps, List.filterMap_append]
      rfl
    have hwhole : tokens (a ++ Text.newline :: b) =
        ps.filterMap Piece.token? ++ (tokens b).map (Token.reline (· + last)) := by
      unfold tokens
      rw [hpieces, List.filterMap_append, List.filterMap_cons_none rfl, List.filterMap_map,
        List.map_filterMap]
      simp only [Function.comp_def, token?_lower]
    rw [hfirst, hwhole, ahead_append htokens, ahead_append htokens, ahead_reline]
    simp [Program.ahead]
  · rw [reports_eq_nil, hpieces]
    intro p hp
    rcases List.mem_append.1 hp with hp | hp
    · refine reports_eq_nil.1 ha p ?_
      unfold pieces
      rw [hps]
      exact List.mem_append_left _ hp
    · rcases List.mem_cons.1 hp with rfl | hp
      · rfl
      · obtain ⟨q, hq, rfl⟩ := List.mem_map.1 hp
        exact (complaint?_lower last q).2 (reports_eq_nil.1 hb q hq)

end Source

end TanLang
