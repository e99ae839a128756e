import TanLang.Proofs.Printing.Forms
import TanLang.Proofs.Source.Layout
/-!
# Printing — quoted texts

Inside quotes every character is either written as it is, if it prints, or
as a backslash, a letter that says how to go on, and the digits of a number
whose count the letter tells. So the quote at the end is the first one that
is not escaped, and the characters can be read back one after another: **two
texts are quoted alike only if they are the same**, byte by byte.
-/

namespace TanLang

namespace Text

/-! ## Bytes of characters -/

/-- A character below 128 is spelled by its number. -/
theorem ofChar_ascii {c : Char} (hc : c.toNat < 128) : ofChar c = [UInt8.ofNat c.toNat] := by
  unfold ofChar String.utf8EncodeChar
  simp only
  rw [if_pos (show c.val.toNat ≤ 127 from Nat.le_of_lt_succ hc)]
  rfl

/-- No byte of another one is below 128. -/
theorem high_of_mem_ofChar {c : Char} (hc : 128 ≤ c.toNat) {b : UInt8} (hb : b ∈ ofChar c) :
    128 ≤ b.toNat := by
  cases hspelled : ofChar c with
  | nil => exact absurd hspelled String.utf8EncodeChar_ne_nil
  | cons first rest =>
    obtain ⟨hlength, hhigh⟩ := ofChar_eq_cons hspelled
    rw [hspelled] at hb
    rcases List.mem_cons.1 hb with rfl | hb
    · -- a first byte below 128 would be all there is, and the number of the character
      have hpayload := payload_ofChar c
      rw [hspelled] at hpayload
      refine Nat.le_of_not_lt fun hlow => ?_
      have hone : Glyph.spelledLength b = 1 := by
        unfold Glyph.spelledLength
        rw [if_pos (UInt8.lt_iff_toNat_lt.2 (Nat.lt_trans hlow (by decide)))]
      obtain rfl : rest = [] := List.eq_nil_of_length_eq_zero (by omega)
      rw [Glyph.payload] at hpayload
      omega
    · exact hhigh b hb

/-- A byte from 128 on is none of those below. -/
theorem ne_of_high {b x : UInt8} (hb : 128 ≤ b.toNat) (hx : x.toNat < 128) : b ≠ x := by
  rintro rfl
  omega

/-- A glyph that can stand in a text: a character that is spelled out, or a
byte from 128 on that spells none. -/
inductive Rune : Glyph → Prop where
  | char (c : Char) : Rune (.of c)
  | stray {b : UInt8} (hb : 128 ≤ b.toNat) : Rune ⟨Glyph.replacement, [b]⟩

theorem rune_first (b : UInt8) (rest : Text) : Rune (Glyph.first b rest) := by
  by_cases hlow : b.toNat < 128
  · have hall : ∀ n < 128, (Char.ofNat n).toNat = n := by decide
    have hnat := hall b.toNat hlow
    have hspelled : ofChar (Char.ofNat b.toNat) = [b] := by
      rw [ofChar_ascii (by omega), hnat, UInt8.ofNat_toNat]
    have hfirst := Glyph.first_ofChar hspelled rest
    rw [List.nil_append] at hfirst
    rw [hfirst]
    exact .char _
  · have hchar : ∀ {c : Char} {raw : Text}, ofChar c = raw → Rune ⟨c, raw⟩ := by
      rintro c _ rfl
      exact .char c
    unfold Glyph.first
    simp only
    split
    · exact hchar ‹_›
    · exact .stray (by omega)

theorem rune_of_mem_glyphs {t : Text} {g : Glyph} (hg : g ∈ t.glyphs) : Rune g := by
  have hall : ∀ (t : Text) (skip : Nat), ∀ g ∈ glyphsAfter skip t, Rune g := by
    intro t
    induction t with
    | nil => exact fun _ _ h => nomatch h
    | cons b rest ih =>
      intro skip g hg
      cases skip with
      | succ skip => exact ih skip g hg
      | zero =>
        rcases List.mem_cons.1 hg with rfl | hg
        · exact rune_first b rest
        · exact ih _ g hg
  exact hall t 0 g hg

/-! ## Hexadecimal digits -/

theorem length_hex (w n : Nat) : (hex w n).length = w := by
  induction w generalizing n with
  | zero => rfl
  | succ w ih => rw [hex, List.length_append, ih, List.length_singleton]

theorem hexDigit_mod (n : Nat) : hexDigit n = hexDigit (n % 16) := by
  unfold hexDigit
  rw [Nat.mod_mod]

/-- A digit is neither a quote nor a backslash. -/
theorem hexDigit_plain (n : Nat) : hexDigit n ≠ 34 ∧ hexDigit n ≠ 92 := by
  have hall : ∀ n < 16, hexDigit n ≠ 34 ∧ hexDigit n ≠ 92 := by decide
  rw [hexDigit_mod]
  exact hall _ (Nat.mod_lt _ (by decide))

theorem hexDigit_inj {m n : Nat} (h : hexDigit m = hexDigit n) : m % 16 = n % 16 := by
  have hall : ∀ m < 16, ∀ n < 16, hexDigit m = hexDigit n → m = n := by decide
  rw [hexDigit_mod m, hexDigit_mod n] at h
  exact hall _ (Nat.mod_lt _ (by decide)) _ (Nat.mod_lt _ (by decide)) h

/-- **Digits tell the number** as far as they go. -/
theorem hex_inj {w m n : Nat} (h : hex w m = hex w n) : m % Nat.pow 16 w = n % Nat.pow 16 w := by
  induction w generalizing m n with
  | zero => exact (Nat.mod_one m).trans (Nat.mod_one n).symm
  | succ w ih =>
    obtain ⟨hhigh, hlow⟩ := List.append_inj' h rfl
    have hlow := hexDigit_inj (List.cons.inj hlow).1
    have hhigh := ih hhigh
    show m % (Nat.pow 16 w * 16) = n % (Nat.pow 16 w * 16)
    rw [Nat.mul_comm, Nat.mod_mul, Nat.mod_mul, hlow, hhigh]

theorem escaped_of_plain {w : Text} (hw : ∀ b ∈ w, b ≠ 34 ∧ b ≠ 92) : Escaped w := by
  induction w with
  | nil => exact .nil
  | cons b w ih =>
    obtain ⟨hquote, hslash⟩ := hw b List.mem_cons_self
    exact .byte hquote hslash (ih fun c hc => hw c (List.mem_cons_of_mem b hc))

theorem escaped_hex (w n : Nat) : Escaped (hex w n) := by
  induction w generalizing n with
  | zero => exact .nil
  | succ w ih =>
    have hdigit := hexDigit_plain n
    exact (ih _).append (.byte hdigit.1 hdigit.2 .nil)

/-! ## Characters inside quotes -/

/-- The ways to write a number after a backslash. -/
inductive Span where
  | byte | basic | beyond

/-- The letter that stands before the digits. -/
def Span.letter : Span → UInt8
  | byte => 120
  | basic => 117
  | beyond => 85

/-- How many digits there are. -/
def Span.width : Span → Nat
  | byte => 2
  | basic => 4
  | beyond => 8

/-- What is written by its number, and how. -/
inductive Numbered : Glyph → Span → Nat → Prop where
  | stray {b : UInt8} (hb : 128 ≤ b.toNat) : Numbered ⟨Glyph.replacement, [b]⟩ .byte b.toNat
  | low {c : Char} (hc : c.toNat < 128) : Numbered (.of c) .byte c.toNat
  | basic {c : Char} (hc : c.toNat < 0x10000) : Numbered (.of c) .basic c.toNat
  | beyond (c : Char) : Numbered (.of c) .beyond c.toNat

/-- The characters that a backslash and one byte stand for. -/
def shortEscapes : List (Char × UInt8) :=
  [('"', 34), ('\\', 92), ('\x07', 97), ('\x08', 98), ('\x0C', 102), ('\n', 110), ('\r', 114),
    ('\t', 116), ('\x0B', 118)]

theorem controlLetter_mem {c l : Char} (h : controlLetter c = some l) :
    (c, UInt8.ofNat l.toNat) ∈ shortEscapes ∧ l.toNat < 128 := by
  unfold controlLetter at h
  split at h <;> cases h <;> decide

/-- **How a glyph is written inside quotes.** -/
inductive QuotedAs : Glyph → Text → Prop where
  | plain {c : Char} (hquote : c ≠ '"') (hslash : c ≠ '\\') : QuotedAs (.of c) (ofChar c)
  | short {c : Char} {b : UInt8} (h : (c, b) ∈ shortEscapes) : QuotedAs (.of c) [92, b]
  | long {g : Glyph} {k : Span} {n : Nat} (h : Numbered g k n) :
      QuotedAs g (92 :: k.letter :: hex k.width n)

theorem quotedAs {g : Glyph} (hg : Rune g) : QuotedAs g (quoteGlyph g) := by
  unfold quoteGlyph
  cases hg with
  | @stray b hb =>
    rw [if_pos (show Glyph.isStray _ = true from rfl)]
    exact .long (.stray hb)
  | char c =>
    have hrune : (Glyph.of c).isStray = false := by
      unfold Glyph.isStray
      refine Bool.and_eq_false_iff.2 ?_
      by_cases hc : c = Glyph.replacement
      · subst hc
        exact .inr (by decide)
      · exact .inl (by simpa [Glyph.of] using hc)
    rw [hrune]
    simp only [Bool.false_eq_true, if_false]
    show QuotedAs (.of c) (if c = '"' ∨ c = '\\' then ofChar '\\' ++ ofChar c else _)
    split
    · rename_i hmark
      rcases hmark with rfl | rfl
      · exact .short (b := 34) (by decide)
      · exact .short (b := 92) (by decide)
    rename_i hmark
    obtain ⟨hquote, hslash⟩ := not_or.1 hmark
    split
    · exact .plain hquote hslash
    rw [show (Glyph.of c).char = c from rfl]
    cases hletter : controlLetter c with
    | some l =>
      obtain ⟨hshort, hlow⟩ := controlLetter_mem hletter
      simp only [ofChar_ascii hlow]
      exact .short hshort
    | none =>
      simp only
      unfold codePointEscape
      split
      · exact .long (.low ‹_›)
      split
      · exact .long (.basic ‹_›)
      · exact .long (.beyond c)

/-- What is written inside quotes is escaped where it has to be. -/
theorem QuotedAs.escaped {g : Glyph} {w : Text} (h : QuotedAs g w) : Escaped w := by
  cases h with
  | @plain c hquote hslash =>
    refine escaped_of_plain fun b hb => ?_
    by_cases hlow : c.toNat < 128
    · have hall : ∀ n < 128, Char.ofNat n ≠ '"' → Char.ofNat n ≠ '\\' →
          UInt8.ofNat n ≠ 34 ∧ UInt8.ofNat n ≠ 92 := by decide
      rw [ofChar_ascii hlow, List.mem_singleton] at hb
      rw [hb]
      exact hall _ hlow (by rwa [Char.ofNat_toNat]) (by rwa [Char.ofNat_toNat])
    · have hhigh := high_of_mem_ofChar (Nat.le_of_not_lt hlow) hb
      exact ⟨ne_of_high hhigh (by decide), ne_of_high hhigh (by decide)⟩
  | short => exact .escape _ .nil
  | long => exact .escape _ (escaped_hex _ _)

theorem QuotedAs.ne_nil {g : Glyph} {w : Text} (h : QuotedAs g w) : w ≠ [] := by
  cases h with
  | plain => exact String.utf8EncodeChar_ne_nil
  | short => nofun
  | long => nofun

/-- What is written as it is does not start with a backslash. -/
theorem ofChar_ne_slash {c : Char} (hslash : c ≠ '\\') (r s : Text) :
    ofChar c ++ r ≠ 92 :: s := by
  intro h
  have hglyphs := congrArg glyphs h
  rw [glyphs_ofChar, show (92 :: s : Text) = ofChar '\\' ++ s from rfl, glyphs_ofChar] at hglyphs
  exact hslash (congrArg Glyph.char (List.cons.inj hglyphs).1)

theorem Span.letter_inj {k l : Span} (h : k.letter = l.letter) : k = l := by
  cases k <;> cases l <;> first | rfl | exact absurd h (by decide)

/-- The number of a character has no more than eight digits. -/
theorem toNat_lt (c : Char) : c.toNat < Nat.pow 16 8 :=
  Nat.lt_of_lt_of_eq c.val.toNat_lt (by decide)

/-- **The letter and the digits tell what is meant.** -/
theorem Numbered.inj {g g' : Glyph} {k : Span} {m n : Nat} (h : Numbered g k m)
    (h' : Numbered g' k n) (heq : hex k.width m = hex k.width n) : g = g' := by
  have hmod := hex_inj heq
  have hchar : ∀ {c d : Char}, c.toNat = d.toNat → Glyph.of c = Glyph.of d := fun hcd =>
    congrArg Glyph.of (Char.toNat_inj.1 hcd)
  have hbyte : ∀ b : UInt8, b.toNat < Nat.pow 16 2 := fun b => b.toNat_lt
  cases h with
  | @stray b hb =>
    rw [Span.width, Nat.mod_eq_of_lt (hbyte b)] at hmod
    cases h' with
    | @stray b' _ =>
      rw [Nat.mod_eq_of_lt (hbyte b')] at hmod
      rw [UInt8.toNat_inj.1 hmod]
    | low hc =>
      rw [Nat.mod_eq_of_lt (Nat.lt_trans hc (by decide))] at hmod
      omega
  | low hc =>
    rw [Span.width, Nat.mod_eq_of_lt (Nat.lt_trans hc (by decide))] at hmod
    cases h' with
    | @stray b hb =>
      rw [Nat.mod_eq_of_lt (hbyte b)] at hmod
      omega
    | low hd =>
      rw [Nat.mod_eq_of_lt (Nat.lt_trans hd (by decide))] at hmod
      exact hchar hmod
  | basic hc =>
    cases h' with
    | basic hd =>
      rw [Span.width, Nat.mod_eq_of_lt hc, Nat.mod_eq_of_lt hd] at hmod
      exact hchar hmod
  | beyond c =>
    cases h' with
    | beyond d =>
      rw [Span.width, Nat.mod_eq_of_lt (toNat_lt c), Nat.mod_eq_of_lt (toNat_lt d)] at hmod
      exact hchar hmod

/-- **What is written inside quotes is that of one glyph only**, and tells
where it ends. -/
theorem QuotedAs.append_inj {g g' : Glyph} {v w r s : Text} (h : QuotedAs g v)
    (h' : QuotedAs g' w) (heq : v ++ r = w ++ s) : g = g' ∧ r = s := by
  -- no letter before digits stands for a character alone
  have hmix : ∀ {c : Char} {b : UInt8} (k : Span), (c, b) ∈ shortEscapes → b ≠ k.letter := by
    have hall : ∀ p ∈ shortEscapes, p.2 ∉ [120, 117, 85] := by decide
    intro c b k hb hk
    have hletter : ∀ k : Span, k.letter ∈ [120, 117, 85] := fun k => by cases k <;> decide
    exact hall _ hb (hk ▸ hletter k)
  cases h with
  | @plain c _ hslash =>
    cases h' with
    | @plain d _ _ =>
      have hglyphs := congrArg glyphs heq
      rw [glyphs_ofChar, glyphs_ofChar] at hglyphs
      have hcd := (List.cons.inj hglyphs).1
      obtain rfl : c = d := congrArg Glyph.char hcd
      exact ⟨rfl, List.append_cancel_left heq⟩
    | short => exact absurd heq (ofChar_ne_slash hslash _ _)
    | long => exact absurd heq (ofChar_ne_slash hslash _ _)
  | @short c b hb =>
    cases h' with
    | plain _ hslash => exact absurd heq.symm (ofChar_ne_slash hslash _ _)
    | @short d b' hb' =>
      obtain ⟨rfl, hrest⟩ := List.cons.inj (List.cons.inj heq).2
      have hall : ∀ p ∈ shortEscapes, ∀ q ∈ shortEscapes, p.2 = q.2 → p = q := by decide
      obtain rfl : c = d := congrArg Prod.fst (hall _ hb _ hb' rfl)
      exact ⟨rfl, hrest⟩
    | @long _ k _ _ => exact absurd (List.cons.inj (List.cons.inj heq).2).1 (hmix k hb)
  | @long g k m hg =>
    cases h' with
    | plain _ hslash => exact absurd heq.symm (ofChar_ne_slash hslash _ _)
    | short hb => exact absurd (List.cons.inj (List.cons.inj heq).2).1.symm (hmix k hb)
    | @long g' k' n hg' =>
      obtain ⟨hletter, hrest⟩ := List.cons.inj (List.cons.inj heq).2
      obtain rfl := Span.letter_inj hletter
      obtain ⟨hdigits, rfl⟩ := List.append_inj hrest (by rw [length_hex, length_hex])
      exact ⟨hg.inj hg' hdigits, rfl⟩

/-! ## Quoted texts -/

theorem quote_eq (t : Text) : quote t = 34 :: (t.glyphs.flatMap quoteGlyph ++ [34]) := rfl

/-- **A quoted text is a leaf**: the quote at its end is the first one that
is not escaped. -/
theorem leaf_quote (t : Text) : Leaf (quote t) := by
  have hbody : ∀ gs : List Glyph, (∀ g ∈ gs, Rune g) → Escaped (gs.flatMap quoteGlyph) := by
    intro gs hgs
    induction gs with
    | nil => exact .nil
    | cons g gs ih =>
      obtain ⟨hg, hgs⟩ := List.forall_mem_cons.1 hgs
      exact (quotedAs hg).escaped.append (ih hgs)
  rw [quote_eq]
  exact .quoted (hbody _ fun _ hg => rune_of_mem_glyphs hg)

/-- **Two texts are quoted alike only if they are the same.** -/
theorem quote_inj {t u : Text} (h : quote t = quote u) : t = u := by
  have hglyphs : ∀ gs hs : List Glyph, (∀ g ∈ gs, Rune g) → (∀ g ∈ hs, Rune g) →
      gs.flatMap quoteGlyph = hs.flatMap quoteGlyph → gs = hs := by
    intro gs hs hgs hhs heq
    induction gs generalizing hs with
    | nil =>
      cases hs with
      | nil => rfl
      | cons k hs =>
        have hk := quotedAs (hhs k List.mem_cons_self)
        exact absurd (List.append_eq_nil_iff.1 heq.symm).1 hk.ne_nil
    | cons g gs ih =>
      have hg := quotedAs (hgs g List.mem_cons_self)
      cases hs with
      | nil => exact absurd (List.append_eq_nil_iff.1 heq).1 hg.ne_nil
      | cons k hs =>
        have hk := quotedAs (hhs k List.mem_cons_self)
        rw [List.flatMap_cons, List.flatMap_cons] at heq
        obtain ⟨rfl, hmore⟩ := hg.append_inj hk heq
        rw [ih hs (fun g hg => hgs g (List.mem_cons_of_mem _ hg))
          (fun g hg => hhs g (List.mem_cons_of_mem _ hg)) hmore]
  have hbody := List.append_cancel_right (List.cons.inj h).2
  rw [← ofGlyphs_glyphs t, ← ofGlyphs_glyphs u,
    hglyphs _ _ (fun _ hg => rune_of_mem_glyphs hg) (fun _ hg => rune_of_mem_glyphs hg) hbody]

end Text

end TanLang
