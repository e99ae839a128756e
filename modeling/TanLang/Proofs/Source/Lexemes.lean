import TanLang.Proofs.Parsing.Faithful
import TanLang.Proofs.Printing.Numerals
/-!
# Source — what tokens look like

Apart from numbers and strings, a token of a source stands for no value. The
value of a number is one, and that of a string is a text. An identifier is a
word of letters, digits and underscores that starts with none of the digits,
so **it is neither a reserved word nor anything that a number looks like**.
-/

namespace TanLang

open Decimal (IsDigit Numeral)

/-- A byte starts no quoted text, no list and no numeral. -/
def StartsName (b : UInt8) : Prop := (b ≠ 34 ∧ b ≠ 40) ∧ ¬ IsDigit b ∧ b ≠ 43 ∧ b ≠ 45

instance : DecidablePred StartsName := fun b =>
  inferInstanceAs (Decidable ((b ≠ 34 ∧ b ≠ 40) ∧ ¬ IsDigit b ∧ b ≠ 43 ∧ b ≠ 45))

/-- **A word**, a reserved one or a name. -/
structure Worded (w : Text) : Prop where
  unbroken : Unbroken w
  head : ∃ b rest, w = b :: rest ∧ StartsName b

namespace Worded

variable {w : Text}

/-- A word is a leaf, -/
theorem leaf (hw : Worded w) : Leaf w := by
  obtain ⟨b, rest, rfl, ⟨hquote, hopening⟩, -⟩ := hw.head
  exact .word hquote hopening hw.unbroken

/-- but no numeral -/
theorem ne_numeral {v : Text} (hw : Worded w) (hv : Numeral v) : v ≠ w := by
  rintro rfl
  obtain ⟨b, rest, rfl, -, hdigit, hplus, hminus⟩ := hw.head
  obtain ⟨c, more, heq, hc⟩ := hv.head
  obtain ⟨rfl, -⟩ := List.cons.inj heq
  rcases hc with hc | hc | hc
  · exact hdigit hc
  · exact hplus hc
  · exact hminus hc

/-- and no quoted text. -/
theorem ne_quote (hw : Worded w) (t : Text) : Text.quote t ≠ w := by
  rintro rfl
  obtain ⟨b, rest, heq, ⟨hquote, -⟩, -⟩ := hw.head
  exact hquote (List.cons.inj heq).1.symm

end Worded

theorem worded_of_keyword {s : String} {k : Token.Kind} (hk : (s, k) ∈ Token.Kind.keywords) :
    Worded (Text.ofString s) := by
  have hall : ∀ k ∈ Token.Kind.keywords, Unbroken (Text.ofString k.1) ∧
      StartsName ((Text.ofString k.1).headD 34) := by decide
  obtain ⟨hunbroken, hfirst⟩ := hall _ hk
  refine ⟨hunbroken, ?_⟩
  cases hword : Text.ofString s with
  | nil =>
    rw [hword] at hfirst
    exact absurd hfirst (by decide)
  | cons b rest =>
    rw [hword] at hfirst
    exact ⟨b, rest, rfl, hfirst⟩

/-- **A word that can be a name**: it is not reserved. -/
structure Name (w : Text) : Prop extends Worded w where
  told : Token.Kind.ofWord w = .identifier

theorem Name.ne_reserved {w : Text} (hw : Name w) {s : String} {k : Token.Kind}
    (hk : (s, k) ∈ Token.Kind.keywords) : Text.ofString s ≠ w := by
  rintro rfl
  have hall : ∀ k ∈ Token.Kind.keywords,
      Token.Kind.ofWord (Text.ofString k.1) ≠ .identifier := by decide
  exact hall _ hk hw.told

/-- **What a source guarantees of its tokens.** -/
structure Token.Scanned (t : Token) : Prop where
  regular : t.Regular
  plain : t.kind ≠ .number → t.kind ≠ .string → t.literal = .nil
  name : t.kind = .identifier → Name t.lexeme
  number : t.kind = .number → ∃ x : Float, x.isNaN = false ∧ t.literal = .number x
  string : t.kind = .string → ∃ s, t.literal = .string s

namespace Source

/-! ## Words -/

theorem unbroken_of_high {b : UInt8} (hb : 128 ≤ b.toNat) : b ≠ 32 ∧ b ≠ 41 :=
  ⟨Text.ne_of_high hb (by decide), Text.ne_of_high hb (by decide)⟩

theorem startsName_of_high {b : UInt8} (hb : 128 ≤ b.toNat) : StartsName b := by
  have hne : ∀ x : UInt8, x.toNat < 128 → b ≠ x := fun _ => Text.ne_of_high hb
  exact ⟨⟨hne _ (by decide), hne _ (by decide)⟩, fun hdigit => absurd hdigit.2 (by omega),
    hne _ (by decide), hne _ (by decide)⟩

/-- The bytes of a character that a word goes on with, -/
theorem unbroken_of_continuesWord {g : Glyph} (hg : Text.Rune g)
    (hword : Text.continuesWord g.char = true) : Unbroken g.raw := by
  intro b hb
  cases hg with
  | stray hhigh =>
    rw [List.mem_singleton.1 hb]
    exact unbroken_of_high hhigh
  | char c =>
    by_cases hlow : c.toNat < 128
    · have hall : ∀ n < 128, Text.continuesWord (Char.ofNat n) = true →
          UInt8.ofNat n ≠ 32 ∧ UInt8.ofNat n ≠ 41 := by decide
      rw [Glyph.of, Text.ofChar_ascii hlow, List.mem_singleton] at hb
      rw [hb]
      exact hall c.toNat hlow (by rwa [Char.ofNat_toNat])
    · exact unbroken_of_high (Text.high_of_mem_ofChar (Nat.le_of_not_lt hlow) hb)

/-- and those of one that a word starts with. -/
theorem startsName_of_startsWord {g : Glyph} (hg : Text.Rune g)
    (hword : Text.startsWord g.char = true) : ∃ b rest, g.raw = b :: rest ∧ StartsName b := by
  cases hg with
  | @stray b hhigh => exact ⟨b, [], rfl, startsName_of_high hhigh⟩
  | char c =>
    by_cases hlow : c.toNat < 128
    · have hall : ∀ n < 128, Text.startsWord (Char.ofNat n) = true →
          StartsName (UInt8.ofNat n) := by decide
      exact ⟨_, [], Text.ofChar_ascii hlow, hall c.toNat hlow (by rwa [Char.ofNat_toNat])⟩
    · obtain ⟨b, tail, hspelled⟩ : ∃ b tail, Text.ofChar c = b :: tail :=
        List.exists_cons_of_ne_nil String.utf8EncodeChar_ne_nil
      refine ⟨b, tail, hspelled, startsName_of_high ?_⟩
      refine Text.high_of_mem_ofChar (Nat.le_of_not_lt hlow) ?_
      rw [hspelled]
      exact List.mem_cons_self

/-- **What a word of the source is**, if it is no reserved one. -/
theorem name_of_word {g : Glyph} {rest : List Glyph} (hrunes : ∀ g' ∈ g :: rest, Text.Rune g')
    (hg : Text.startsWord g.char = true) (hrest : ∀ g' ∈ rest, Text.continuesWord g'.char = true)
    (hkind : Token.Kind.ofWord (Text.ofGlyphs (g :: rest)) = .identifier) :
    Name (Text.ofGlyphs (g :: rest)) where
  unbroken b hb := by
    obtain ⟨g', hg', hb⟩ := List.mem_flatMap.1 hb
    have hword : Text.continuesWord g'.char = true := by
      rcases List.mem_cons.1 hg' with rfl | hg'
      · exact continuesWord_of_startsWord hg
      · exact hrest g' hg'
    exact unbroken_of_continuesWord (hrunes g' hg') hword b hb
  head := by
    obtain ⟨b, tail, hraw, hb⟩ := startsName_of_startsWord (hrunes g List.mem_cons_self) hg
    refine ⟨b, tail ++ Text.ofGlyphs rest, ?_, hb⟩
    rw [Text.ofGlyphs, List.flatMap_cons, hraw]
    rfl
  told := hkind

theorem ofWord_plain (w : Text) : Token.Kind.ofWord w ≠ .number ∧ Token.Kind.ofWord w ≠ .string := by
  unfold Token.Kind.ofWord
  split
  · rename_i k hfind
    have hall : ∀ k ∈ Token.Kind.keywords, k.2 ≠ .number ∧ k.2 ≠ .string := by decide
    exact hall k (List.mem_of_find?_eq_some hfind)
  · decide

/-! ## Tokens -/

/-- A token of a kind with one spelling, which stands for no value. -/
theorem scanned_of_mark {t : Token} {spelling : Text} (hregular : t.Regular)
    (hkind : t.kind.spelling? = some spelling) (hliteral : t.literal = .nil) : t.Scanned := by
  have hnone : Token.Kind.spelling? .identifier = none ∧ Token.Kind.spelling? .number = none ∧
      Token.Kind.spelling? .string = none := by decide
  constructor
  case regular => exact hregular
  case plain => exact fun _ _ => hliteral
  case name =>
    intro h
    rw [h, hnone.1] at hkind
    cases hkind
  case number =>
    intro h
    rw [h, hnone.2.1] at hkind
    cases hkind
  case string =>
    intro h
    rw [h, hnone.2.2] at hkind
    cases hkind

/-- **A token that is cut off looks like its kind.** -/
theorem cut_scanned {line : Int} {g : Glyph} {rest : List Glyph} {t : Token}
    (hrunes : ∀ g' ∈ g :: rest, Text.Rune g') (hregular : t.Regular)
    (h : (cut line g rest).piece = .token t) : t.Scanned := by
  unfold cut at h
  simp only at h
  split at h
  · cases h
  split at h
  · simp only [cutComment, if_true, reduceCtorEq] at h
  split at h
  · unfold cutComment at h
    split at h
    · cases h
    · split at h <;> cases h
  split at h
  · unfold cutString at h
    split at h
    · cases h
      exact ⟨hregular, fun _ hstring => absurd rfl hstring, Token.Kind.noConfusion,
        Token.Kind.noConfusion, fun _ => ⟨_, rfl⟩⟩
    · cases h
  split at h
  · rename_i hpair
    obtain ⟨halone, hpaired, -⟩ := comparison_spelled hpair
    split at h
    · cases h
      exact scanned_of_mark hregular hpaired rfl
    · cases h
      exact scanned_of_mark hregular halone rfl
  · rename_i hmark
    cases h
    exact scanned_of_mark hregular (punctuation_spelled hmark).1 rfl
  · split at h
    · rename_i hword
      cases h
      obtain ⟨hnumber, hstring⟩ := ofWord_plain
        (Text.ofGlyphs (g :: rest.take (rest.takeWhile fun g => Text.continuesWord g.char).length))
      refine ⟨hregular, fun _ _ => rfl, fun hkind => ?_, fun hkind => absurd hkind hnumber,
        fun hkind => absurd hkind hstring⟩
      refine name_of_word (fun g' hg' => ?_) hword (fun g' hg' => ?_) hkind
      · rcases List.mem_cons.1 hg' with rfl | hg'
        · exact hrunes _ List.mem_cons_self
        · exact hrunes g' (List.mem_cons_of_mem _ (List.mem_of_mem_take hg'))
      · rw [take_length_takeWhile] at hg'
        exact List.all_eq_true.1 List.all_takeWhile g' hg'
    split at h
    · cases h
      exact ⟨hregular, fun hnumber _ => absurd rfl hnumber, Token.Kind.noConfusion,
        fun _ => ⟨_, Decimal.isNaN_nearest _ _, rfl⟩, Token.Kind.noConfusion⟩
    · cases h

/-- **Every token but the end mark is cut off somewhere.** -/
theorem exists_cut_of_mem_pieces {t : Token} {skip : Nat} {line : Int} {gs : List Glyph}
    (h : .token t ∈ piecesAfter skip line gs) : (∃ line, t = ⟨.eof, [], .nil, line⟩) ∨
      ∃ line g rest, (g :: rest) <:+ gs ∧ (cut line g rest).piece = .token t := by
  induction gs generalizing skip line with
  | nil =>
    rw [piecesAfter, List.mem_singleton] at h
    cases h
    exact .inl ⟨line, rfl⟩
  | cons g gs ih =>
    have hlater : ∀ {skip line}, .token t ∈ piecesAfter skip line gs →
        (∃ line, t = ⟨.eof, [], .nil, line⟩) ∨
          ∃ line g' rest, (g' :: rest) <:+ (g :: gs) ∧ (cut line g' rest).piece = .token t := by
      intro skip line hmem
      rcases ih hmem with hend | ⟨line, g', rest, hsuffix, hcut⟩
      · exact .inl hend
      · exact .inr ⟨line, g', rest, hsuffix.trans (List.suffix_cons g gs), hcut⟩
    cases skip with
    | succ skip => exact hlater h
    | zero =>
      rw [piecesAfter] at h
      rcases List.mem_cons.1 h with hpiece | hmem
      · exact .inr ⟨line, g, gs, List.suffix_refl _, hpiece.symm⟩
      · exact hlater hmem

/-- **The tokens of a source look like their kinds.** -/
theorem scanned_of_mem_tokens {src : Text} {t : Token} (h : t ∈ tokens src) : t.Scanned := by
  have hregular := regular_of_mem_tokens h
  obtain ⟨piece, hpiece, htoken⟩ := List.mem_filterMap.1 h
  cases piece with
  | token u =>
    cases htoken
    rcases exists_cut_of_mem_pieces hpiece with ⟨line, rfl⟩ | ⟨line, g, rest, hsuffix, hcut⟩
    · exact ⟨hregular, fun _ _ => rfl, nofun, nofun, nofun⟩
    · refine cut_scanned (fun g' hg' => ?_) hregular hcut
      rw [body_eq] at hsuffix
      exact Text.rune_of_mem_glyphs (hsuffix.subset hg')
  | _ => cases htoken

end Source

end TanLang
