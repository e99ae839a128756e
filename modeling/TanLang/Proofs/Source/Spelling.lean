import TanLang.Proofs.Source.Gaps
/-!
# Source — tokens spelled out and put together

A spelling is a way to write a token: an operator or a mark of punctuation,
a word, a number, or a string with its escapes. Each is read back as its
token before anything it cannot go on with, that is before a blank or at the
end. So spellings with separators between them are cut into **the tokens
that were spelled, in order, and the mark at the end**; all there is to
report are the numbers beyond the largest float.
-/

namespace TanLang

namespace Source

/-! ## Spellings -/

/-- The operators and the punctuation of one character. -/
def marks : List (Char × Token.Kind) :=
  [('=', .assign), ('!', .bang), ('<', .less), ('>', .greater), ('+', .plus), ('-', .minus),
    ('*', .star), ('/', .slash), ('?', .question), (':', .colon), ('.', .period), (',', .comma),
    (';', .semicolon), ('(', .leftParen), (')', .rightParen), ('\x7b', .leftBrace),
    ('\x7d', .rightBrace)]

/-- The operators of two characters, of which the second is an equals
sign. -/
def pairs : List (Char × Token.Kind) :=
  [('=', .equal), ('!', .notEqual), ('<', .lessEqual), ('>', .greaterEqual)]

/-- One digit or more. -/
structure Digits where
  /-- The first digit. -/
  first : Char
  /-- The others. -/
  more : List Char
  isDigit : ∀ c ∈ first :: more, Text.isDigit c = true

/-- The digits in a row. -/
def Digits.chars (d : Digits) : List Char := d.first :: d.more

/-- A character of a string, and whether a line end or a tab is to be
written as an escape. -/
structure Quoted where
  /-- The character. -/
  char : Char
  /-- Whether it is written as an escape, where that is a choice. -/
  escaped : Bool
  ne_nul : char ≠ '\x00'

/-- How a character of a string is written. -/
def Quoted.chars (q : Quoted) : List Char :=
  if q.char = '\\' then ['\\', '\\']
  else if q.char = '"' then ['\\', '"']
  else if q.char = '\n' ∧ q.escaped then ['\\', 'n']
  else if q.char = '\t' ∧ q.escaped then ['\\', 't']
  else [q.char]

/-- **A way to write a token.** -/
inductive Spelling where
  /-- A mark of one character. -/
  | mark (c : Char) (kind : Token.Kind) (h : (c, kind) ∈ marks)
  /-- A mark of two characters. -/
  | pair (c : Char) (kind : Token.Kind) (h : (c, kind) ∈ pairs)
  /-- A word. -/
  | word (first : Char) (more : List Char) (hfirst : Text.startsWord first = true)
      (hmore : ∀ c ∈ more, Text.continuesWord c = true)
  /-- A number, and what stands after the point if there is one. -/
  | number (whole : Digits) (fraction : Option Digits)
  /-- A string. -/
  | string (value : List Quoted)

namespace Spelling

/-- The characters of a spelling. -/
def chars : Spelling → List Char
  | mark c _ _ => [c]
  | pair c _ _ => [c, '=']
  | word first more _ _ => first :: more
  | number whole none => whole.chars
  | number whole (some fraction) => whole.chars ++ '.' :: fraction.chars
  | string value => '"' :: (value.flatMap Quoted.chars ++ ['"'])

/-- The text of a spelling. -/
def text (s : Spelling) : Text := Text.ofChars s.chars

/-- The kind of the token. -/
def kind : Spelling → Token.Kind
  | mark _ kind _ => kind
  | pair _ kind _ => kind
  | word first more _ _ => .ofWord (Text.ofChars (first :: more))
  | number _ _ => .number
  | string _ => .string

/-- The value that the token stands for. -/
def literal : Spelling → Literal
  | number whole none => .number (Decimal.read (Text.ofChars whole.chars) [])
  | number whole (some fraction) =>
    .number (Decimal.read (Text.ofChars whole.chars) (Text.ofChars fraction.chars))
  | string value => .string (Text.ofChars (value.map Quoted.char))
  | _ => .nil

/-- The token, apart from its line. -/
def look (s : Spelling) : Token.Kind × Text × Literal := (s.kind, s.text, s.literal)

end Spelling

/-- **Spellings put together**, the separator `sep i` after the one at `i`. -/
def joined (sep : Nat → Separator) : List Spelling → Text
  | [] => []
  | [s] => s.text
  | s :: rest => s.text ++ ((sep 0).text ++ joined (fun i => sep (i + 1)) rest)

/-- Whether a token is a number beyond the largest float. -/
def overflows (t : Token) : Bool :=
  match t.literal with
  | .number x => x.isInf
  | _ => false

/-- The report on a number beyond the largest float. -/
def overflowReport (t : Token) : Report := ⟨t.line, none, (Complaint.outOfRange t.lexeme).message⟩

/-! ## Where a token stops -/

/-- A blank is next, or nothing. -/
def Stops (gs : List Glyph) : Prop := ∀ c, gs.head?.map Glyph.char = some c → c ∈ blanks

theorem Stops.nil : Stops [] := nofun

theorem Stops.blank {c : Char} (hc : c ∈ blanks) (gs : List Glyph) : Stops (.of c :: gs) := by
  intro d hd
  cases hd
  exact hc

theorem Stops.next_ne {gs : List Glyph} (h : Stops gs) {c : Char} (hc : c ∉ blanks) :
    gs.head?.map Glyph.char ≠ some c :=
  fun hnext => hc (h c hnext)

/-- Glyphs are taken up to the first that is another. -/
theorem takeWhile_map_of {p : Char → Bool} {cs : List Char} {gs : List Glyph}
    (hcs : ∀ c ∈ cs, p c = true) (hgs : ∀ c, gs.head?.map Glyph.char = some c → p c = false) :
    (cs.map Glyph.of ++ gs).takeWhile (fun g => p g.char) = cs.map Glyph.of := by
  have hstop : gs.takeWhile (fun g => p g.char) = [] := by
    cases gs with
    | nil => rfl
    | cons g gs =>
      have hother := hgs g.char rfl
      rw [List.takeWhile_cons_of_neg (by rw [hother]; exact Bool.false_ne_true)]
  rw [List.takeWhile_append_of_pos, hstop, List.append_nil]
  intro g hg
  obtain ⟨c, hc, rfl⟩ := List.mem_map.1 hg
  exact hcs c hc

theorem ofGlyphs_of (cs : List Char) : Text.ofGlyphs (cs.map Glyph.of) = Text.ofChars cs := by
  rw [Text.ofGlyphs, List.flatMap_map]
  rfl

theorem ofGlyphs_take_of (c : Char) (cs : List Char) (gs : List Glyph) :
    Text.ofGlyphs (Glyph.of c :: (cs.map Glyph.of ++ gs).take cs.length) =
      Text.ofChars (c :: cs) := by
  have hlength : (cs.map Glyph.of).length = cs.length := List.length_map _
  rw [← hlength, List.take_left, ← List.map_cons, ofGlyphs_of]

/-- A text that is cut off as one token. -/
theorem Reads.of_plainToken {c : Char} {cs : List Char} {kind : Token.Kind} {literal : Literal}
    {rest : Text} (h : ∀ line, ∃ line', cut line (.of c) (cs.map .of ++ rest.glyphs) =
      plainToken kind literal line' (.of c) (cs.map .of ++ rest.glyphs) cs.length) :
    Reads (Text.ofChars (c :: cs)) [(kind, Text.ofChars (c :: cs), literal)] rest := by
  refine .of_cut (.of c) (cs.map .of) (Text.glyphs_ofChars (c :: cs) rest) fun line => ?_
  obtain ⟨line', hcut⟩ := h line
  refine ⟨.token ⟨kind, Text.ofChars (c :: cs), literal, line'⟩, line', ?_, trivial, rfl⟩
  rw [hcut, plainToken, ofGlyphs_take_of, List.length_map]

/-! ## Marks -/

section

variable (line : Int) {c : Char} {kind : Token.Kind} {gs : List Glyph}

theorem cut_mark (h : (c, kind) ∈ marks) (hstops : Stops gs) :
    cut line (.of c) gs = plainToken kind .nil line (.of c) gs 0 := by
  have htable : ∀ m ∈ marks, isBlank m.1 = false ∧ m.1 ≠ '"' ∧
      ((comparison m.1 = none ∧ punctuation m.1 = some m.2) ∨
        (comparison m.1).map Prod.fst = some m.2) := by decide
  obtain ⟨hblank, hquote, hkind⟩ := htable _ h
  simp only [cut, Glyph.of, hblank, hquote, hstops.next_ne (show '/' ∉ blanks by decide),
    hstops.next_ne (show '*' ∉ blanks by decide), and_false, if_false, Bool.false_eq_true]
  rcases hkind with ⟨hpair, hmark⟩ | hpair
  · simp only [hpair, hmark]
  · obtain ⟨⟨alone, paired⟩, hpair, rfl⟩ := Option.map_eq_some_iff.1 hpair
    simp only [hpair, if_neg (hstops.next_ne (show '=' ∉ blanks by decide))]

theorem cut_pair (h : (c, kind) ∈ pairs) :
    cut line (.of c) (.of '=' :: gs) = plainToken kind .nil line (.of c) (.of '=' :: gs) 1 := by
  have htable : ∀ m ∈ pairs, isBlank m.1 = false ∧ m.1 ≠ '/' ∧ m.1 ≠ '"' ∧
      (comparison m.1).map Prod.snd = some m.2 := by decide
  obtain ⟨hblank, hslash, hquote, hkind⟩ := htable _ h
  obtain ⟨⟨alone, paired⟩, hpair, rfl⟩ := Option.map_eq_some_iff.1 hkind
  simp only [cut, Glyph.of, hblank, hslash, hquote, hpair, false_and, if_false,
    Bool.false_eq_true, List.head?_cons, Option.map_some, if_true]

/-! ## Words and numbers -/

/-- The quote, the blanks and the characters that marks start with. -/
def starters : List Char := '"' :: (blanks ++ marks.map Prod.fst)

theorem comparison_eq_none (h : c ∉ starters) : comparison c = none := by
  refine Option.eq_none_iff_forall_ne_some.2 fun kinds hkinds => h ?_
  unfold comparison at hkinds
  split at hkinds <;> cases hkinds <;> decide

theorem punctuation_eq_none (h : c ∉ starters) : punctuation c = none := by
  refine Option.eq_none_iff_forall_ne_some.2 fun kind hkind => h ?_
  unfold punctuation at hkind
  split at hkind <;> cases hkind <;> decide

/-- Neither blank nor mark nor quote: a word, a number or a stray
character. -/
theorem cut_of_not_mem_starters (h : c ∉ starters) :
    cut line (.of c) gs =
      if Text.startsWord c then cutWord line (.of c) gs
      else if Text.isDigit c then cutNumber line (.of c) gs
      else ⟨.stray (.of c) line, line, 0⟩ := by
  have hblank : ¬isBlank c = true := fun hblank =>
    h (List.mem_cons_of_mem _ (List.mem_append_left _ (isBlank_iff.1 hblank)))
  have hslash : c ≠ '/' := by
    rintro rfl
    exact h (by decide)
  have hquote : c ≠ '"' := by
    rintro rfl
    exact h (by decide)
  simp only [cut, Glyph.of, hblank, hslash, hquote, comparison_eq_none h, punctuation_eq_none h,
    false_and, if_false]
  rfl

/-- None of them can stand in a word or a number. -/
theorem not_mem_starters (h : Text.continuesWord c = true) : c ∉ starters := by
  have hall : (starters.all fun c => !Text.continuesWord c) = true := by decide
  intro hmem
  have hnone := List.all_eq_true.1 hall c hmem
  rw [h] at hnone
  cases hnone

/-- No word and no number goes on with a blank. -/
theorem continuesWord_of_mem_blanks (h : c ∈ blanks) : Text.continuesWord c = false :=
  Bool.eq_false_iff.2 fun hword =>
    not_mem_starters hword (List.mem_cons_of_mem _ (List.mem_append_left _ h))

theorem isDigit_of_mem_blanks (h : c ∈ blanks) : Text.isDigit c = false :=
  (Bool.or_eq_false_iff.1 (continuesWord_of_mem_blanks h)).2

/-- No digit is a letter. -/
theorem startsWord_of_isDigit (h : Text.isDigit c = true) : Text.startsWord c = false := by
  have hall : ∀ k < 58, 48 ≤ k → Text.startsWord (Char.ofNat k) = false := by decide
  simp only [Text.isDigit, Bool.and_eq_true, decide_eq_true_eq, Char.le_def,
    UInt32.le_iff_toNat_le] at h
  rw [← Char.ofNat_toNat c]
  exact hall c.toNat (Nat.lt_succ_of_le h.2) h.1

theorem continuesWord_of_startsWord (h : Text.startsWord c = true) :
    Text.continuesWord c = true := by
  rw [Text.continuesWord, h, Bool.true_or]

theorem continuesWord_of_isDigit (h : Text.isDigit c = true) : Text.continuesWord c = true := by
  rw [Text.continuesWord, h, Bool.or_true]

theorem cut_word {cs : List Char} (hc : Text.startsWord c = true)
    (hcs : ∀ d ∈ cs, Text.continuesWord d = true) (hstops : Stops gs) :
    cut line (.of c) (cs.map .of ++ gs) =
      plainToken (.ofWord (Text.ofChars (c :: cs))) .nil line (.of c) (cs.map .of ++ gs)
        cs.length := by
  have htaken := takeWhile_map_of hcs fun c hc => continuesWord_of_mem_blanks (hstops c hc)
  rw [cut_of_not_mem_starters line (not_mem_starters (continuesWord_of_startsWord hc)), if_pos hc]
  simp only [cutWord, htaken, List.length_map, ofGlyphs_take_of]

theorem cut_digits (d : Digits) : cut line (.of d.first) gs = cutNumber line (.of d.first) gs := by
  have hfirst : Text.isDigit d.first = true := d.isDigit _ (List.mem_cons_self ..)
  have hword : ¬Text.startsWord d.first = true := by
    rw [startsWord_of_isDigit hfirst]
    exact Bool.false_ne_true
  rw [cut_of_not_mem_starters line (not_mem_starters (continuesWord_of_isDigit hfirst)),
    if_neg hword, if_pos hfirst]

theorem cut_whole (d : Digits) (hstops : Stops gs) :
    cut line (.of d.first) (d.more.map .of ++ gs) =
      plainToken .number (.number (Decimal.read (Text.ofChars d.chars) [])) line (.of d.first)
        (d.more.map .of ++ gs) d.more.length := by
  have hwhole := takeWhile_map_of (fun c hc => d.isDigit c (List.mem_cons_of_mem _ hc))
    fun c hc => isDigit_of_mem_blanks (hstops c hc)
  rw [cut_digits]
  simp only [cutNumber, hwhole, List.drop_left]
  cases gs with
  | nil =>
    simp only [List.isEmpty_nil, if_true, List.length_map, ← List.map_cons, ofGlyphs_of]
    rfl
  | cons g gs =>
    have hpoint : g.char ≠ '.' := fun h =>
      hstops.next_ne (show '.' ∉ blanks by decide) (congrArg some h)
    simp only [hpoint, if_false, List.isEmpty_nil, if_true, List.length_map, ← List.map_cons,
      ofGlyphs_of]
    rfl

theorem cut_fraction (d f : Digits) (hstops : Stops gs) :
    cut line (.of d.first) ((d.more ++ '.' :: f.chars).map .of ++ gs) =
      plainToken .number
        (.number (Decimal.read (Text.ofChars d.chars) (Text.ofChars f.chars))) line (.of d.first)
        ((d.more ++ '.' :: f.chars).map .of ++ gs) (d.more ++ '.' :: f.chars).length := by
  have hfraction : (f.chars.map Glyph.of ++ gs).takeWhile (fun g => Text.isDigit g.char) =
      f.chars.map .of :=
    takeWhile_map_of f.isDigit fun c hc => isDigit_of_mem_blanks (hstops c hc)
  have hsplit : (d.more ++ '.' :: f.chars).map Glyph.of ++ gs =
      d.more.map .of ++ .of '.' :: (f.chars.map .of ++ gs) := by
    simp
  have hwhole : (d.more.map Glyph.of ++ Glyph.of '.' :: (f.chars.map Glyph.of ++ gs)).takeWhile
      (fun g => Text.isDigit g.char) = d.more.map .of := by
    refine takeWhile_map_of (fun c hc => d.isDigit c (List.mem_cons_of_mem _ hc)) fun c hc => ?_
    cases hc
    decide
  rw [cut_digits, hsplit]
  have hpoint : (Glyph.of '.').char = '.' := rfl
  have hsome : (f.chars.map Glyph.of).isEmpty = false := rfl
  simp only [cutNumber, hwhole, List.drop_left, hpoint, if_true, hfraction, hsome,
    Bool.false_eq_true, if_false, ← List.map_cons, ofGlyphs_of]
  simp only [List.length_map, List.length_append, List.length_cons]
  rfl

end

/-! ## Strings -/

section

variable (line : Int) (gs : List Glyph)

/-- A character of a string is read back from how it is written. -/
theorem stringBody_chars (q : Quoted) (taken : Nat) (reversed : List Char) :
    ∃ line', stringBody line taken reversed (q.chars.map .of ++ gs) =
      stringBody line' (taken + q.chars.length) (q.char :: reversed) gs := by
  unfold Quoted.chars
  split
  · rename_i hslash
    exact ⟨line, by rw [hslash]; exact stringBody_escape _ _ _ _ _ rfl⟩
  split
  · rename_i hquote
    exact ⟨line, by rw [hquote]; exact stringBody_escape _ _ _ _ _ rfl⟩
  split
  · rename_i hline
    exact ⟨line, by rw [hline.1]; exact stringBody_escape _ _ _ _ _ rfl⟩
  split
  · rename_i htab
    exact ⟨line, by rw [htab.1]; exact stringBody_escape _ _ _ _ _ rfl⟩
  · rename_i hslash hquote _ _
    exact ⟨lineAfter line q.char, stringBody_plain _ _ _ _ hquote hslash⟩

/-- **A string is read back from how it is written**, up to its closing
quote. -/
theorem stringBody_closes (value : List Quoted) (taken : Nat) (reversed : List Char) :
    ∃ last, stringBody line taken reversed
        ((value.flatMap Quoted.chars ++ ['"']).map .of ++ gs) =
      .closed (taken + (value.flatMap Quoted.chars ++ ['"']).length)
        (reversed.reverse ++ value.map Quoted.char) last := by
  induction value generalizing line taken reversed with
  | nil =>
    refine ⟨line, ?_⟩
    simp only [List.map_nil, List.append_nil]
    exact stringBody_quote _ _ _ _ rfl
  | cons q value ih =>
    obtain ⟨line', hq⟩ := stringBody_chars line _ q taken reversed
    obtain ⟨last, hvalue⟩ := ih line' (taken + q.chars.length) (q.char :: reversed)
    refine ⟨last, ?_⟩
    rw [List.flatMap_cons, List.append_assoc, List.map_append, List.append_assoc, hq, hvalue]
    simp [Nat.add_assoc]

theorem cut_string (value : List Quoted) :
    ∃ last, cut line (.of '"') ((value.flatMap Quoted.chars ++ ['"']).map .of ++ gs) =
      plainToken .string (.string (Text.ofChars (value.map Quoted.char))) last (.of '"')
        ((value.flatMap Quoted.chars ++ ['"']).map .of ++ gs)
        (value.flatMap Quoted.chars ++ ['"']).length := by
  obtain ⟨last, hbody⟩ := stringBody_closes line gs value 0 []
  refine ⟨last, ?_⟩
  have hcut : cut line (.of '"') ((value.flatMap Quoted.chars ++ ['"']).map .of ++ gs) =
      cutString line (.of '"') ((value.flatMap Quoted.chars ++ ['"']).map .of ++ gs) := rfl
  rw [hcut, cutString, hbody]
  simp

end

/-! ## Spellings are read back -/

/-- **A spelling is read back as its token** where it stops. -/
theorem Spelling.reads (s : Spelling) {rest : Text} (hstops : Stops rest.glyphs) :
    Reads s.text [s.look] rest := by
  cases s with
  | mark c kind h => exact .of_plainToken fun line => ⟨line, cut_mark line h hstops⟩
  | pair c kind h => exact .of_plainToken fun line => ⟨line, cut_pair line h⟩
  | word first more hfirst hmore =>
    exact .of_plainToken fun line => ⟨line, cut_word line hfirst hmore hstops⟩
  | number whole fraction =>
    cases fraction with
    | none => exact .of_plainToken fun line => ⟨line, cut_whole line whole hstops⟩
    | some fraction =>
      exact .of_plainToken fun line => ⟨line, cut_fraction line whole fraction hstops⟩
  | string value => exact .of_plainToken fun line => cut_string line _ value

/-- **Spellings put together are read back one by one.** -/
theorem reads_joined (sep : Nat → Separator) (sps : List Spelling) :
    Reads (joined sep sps) (sps.map Spelling.look) [] := by
  induction sps generalizing sep with
  | nil => exact .nil []
  | cons s sps ih =>
    cases sps with
    | nil => exact s.reads .nil
    | cons next sps =>
      have hrest := ((sep 0).reads _).append (ih fun i => sep (i + 1))
      refine (s.reads ?_).append hrest
      -- the separator starts with a blank
      rw [Separator.text, List.append_assoc, List.append_assoc, Text.glyphs_ofChar]
      exact .blank (sep 0).isBlank _

/-! ## No NUL -/

theorem ne_nul_of_continuesWord {c : Char} (h : Text.continuesWord c = true) : c ≠ '\x00' := by
  rintro rfl
  exact absurd h (by decide)

theorem Digits.ne_nul (d : Digits) {c : Char} (hc : c ∈ d.chars) : c ≠ '\x00' :=
  ne_nul_of_continuesWord (continuesWord_of_isDigit (d.isDigit c hc))

theorem Quoted.chars_ne_nul (q : Quoted) {c : Char} (hc : c ∈ q.chars) : c ≠ '\x00' := by
  rintro rfl
  unfold Quoted.chars at hc
  split at hc
  · exact absurd hc (by decide)
  split at hc
  · exact absurd hc (by decide)
  split at hc
  · exact absurd hc (by decide)
  split at hc
  · exact absurd hc (by decide)
  · exact q.ne_nul (List.mem_singleton.1 hc).symm

theorem Spelling.nul_not_mem (s : Spelling) : 0 ∉ s.text := by
  refine nul_not_mem_ofChars fun c hc => ?_
  cases s with
  | mark d kind h =>
    have hall : ∀ m ∈ marks, m.1 ≠ '\x00' := by decide
    rw [List.mem_singleton.1 hc]
    exact hall _ h
  | pair d kind h =>
    have hall : ∀ m ∈ pairs, m.1 ≠ '\x00' := by decide
    rcases List.mem_cons.1 hc with rfl | hc
    · exact hall _ h
    · rw [List.mem_singleton.1 hc]
      decide
  | word first more hfirst hmore =>
    rcases List.mem_cons.1 hc with rfl | hc
    · exact ne_nul_of_continuesWord (continuesWord_of_startsWord hfirst)
    · exact ne_nul_of_continuesWord (hmore c hc)
  | number whole fraction =>
    cases fraction with
    | none => exact whole.ne_nul hc
    | some fraction =>
      rcases List.mem_append.1 hc with hc | hc
      · exact whole.ne_nul hc
      rcases List.mem_cons.1 hc with rfl | hc
      · decide
      · exact fraction.ne_nul hc
  | string value =>
    have hquote : '"' ≠ '\x00' := by decide
    rcases List.mem_cons.1 hc with rfl | hc
    · exact hquote
    rcases List.mem_append.1 hc with hc | hc
    · obtain ⟨q, -, hc⟩ := List.mem_flatMap.1 hc
      exact q.chars_ne_nul hc
    · rw [List.mem_singleton.1 hc]
      exact hquote

theorem nul_not_mem_joined (sep : Nat → Separator) (sps : List Spelling) :
    0 ∉ joined sep sps := by
  induction sps generalizing sep with
  | nil => exact List.not_mem_nil
  | cons s sps ih =>
    cases sps with
    | nil => exact s.nul_not_mem
    | cons next sps =>
      simp only [joined, List.mem_append, not_or]
      exact ⟨s.nul_not_mem, (sep 0).nul_not_mem, ih _⟩

/-! ## The whole source -/

theorem complaint?_token (t : Token) : (Piece.token t).complaint? =
    if overflows t then some (t.line, .outOfRange t.lexeme) else none := by
  obtain ⟨kind, lexeme, literal, line⟩ := t
  cases literal <;> rfl

/-- All there is to say about pieces that are right is which numbers among
them are too large. -/
theorem complaints_of_right {ps : List Piece} (h : ∀ p ∈ ps, p.Right) :
    (ps.filterMap Piece.complaint?).map (fun c => (⟨c.1, none, c.2.message⟩ : Report)) =
      ((ps.filterMap Piece.token?).filter overflows).map overflowReport := by
  induction ps with
  | nil => rfl
  | cons p ps ih =>
    rw [List.forall_mem_cons] at h
    obtain ⟨hp, hps⟩ := h
    cases p with
    | token t =>
      simp only [List.filterMap_cons, Piece.token?, List.filter_cons, complaint?_token]
      by_cases hover : overflows t = true
      · simp only [if_pos hover]
        exact congrArg (overflowReport t :: ·) (ih hps)
      · simp only [if_neg hover]
        exact ih hps
    | blank g => exact ih hps
    | comment gs => exact ih hps
    | _ => cases hp

/-- **Scanning undoes spelling.** The tokens of spellings with separators
between them are the ones that were spelled, in order, and the mark at the
end; the reports are one for each number beyond the largest float, and no
others. -/
theorem tokens_joined (sep : Nat → Separator) (sps : List Spelling) :
    (tokens (joined sep sps)).map look = sps.map Spelling.look ++ [(.eof, [], .nil)] ∧
      reports (joined sep sps) =
        ((tokens (joined sep sps)).filter overflows).map overflowReport := by
  obtain ⟨ps, last, hps, hright, hlooks⟩ := reads_joined sep sps 1
  have hpieces : pieces (joined sep sps) = ps ++ [endMark last] := by
    rw [pieces, body_eq_glyphs (nul_not_mem_joined sep sps)]
    rwa [List.append_nil] at hps
  have hall : ∀ p ∈ ps ++ [endMark last], p.Right :=
    List.forall_mem_append.2 ⟨hright, List.forall_mem_singleton.2 trivial⟩
  rw [tokens, reports, hpieces]
  refine ⟨?_, complaints_of_right hall⟩
  rw [List.filterMap_append, List.map_append, hlooks]
  rfl

end Source

end TanLang
