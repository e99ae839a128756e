import TanLang.Source.Piece
/-!
# Source — the glyphs of texts put together

The spelling of a character has one leading byte, which tells how long it
is, and no byte after that is below 128. So a character that is spelled out
is one glyph, whatever follows it; and no spelling reaches over a byte below
128: **a text up to such a byte has the glyphs it has alone**, also where it
breaks off in the middle of a spelling.
-/

namespace TanLang

namespace Text

/-- **The bytes that spell a character**: the first tells how many there
are, the others are not below 128. -/
theorem ofChar_eq_cons {c : Char} {b : UInt8} {rest : Text} (h : ofChar c = b :: rest) :
    Glyph.spelledLength b = rest.length + 1 ∧ ∀ r ∈ rest, 128 ≤ r.toNat := by
  have hvalid : c.val.toNat < 1114112 := by
    rcases c.valid with hlow | hhigh
    · exact Nat.lt_trans hlow (by decide)
    · exact hhigh.2
  -- one case for each number of bytes; the first byte lies in that case's range
  unfold ofChar String.utf8EncodeChar at h
  simp only at h
  unfold Glyph.spelledLength
  simp only [UInt8.lt_iff_toNat_lt, UInt8.reduceToNat]
  split at h
  · cases h
    refine ⟨?_, nofun⟩
    simp only [UInt8.toNat_ofNat']
    rw [if_pos (by omega)]
    rfl
  split at h
  · cases h
    simp only [List.mem_singleton, forall_eq, UInt8.toNat_ofNat']
    refine ⟨?_, by omega⟩
    rw [if_neg (by omega), if_pos (by omega)]
    rfl
  split at h
  · cases h
    simp only [List.mem_cons, List.not_mem_nil, or_false, forall_eq_or_imp, forall_eq,
      UInt8.toNat_ofNat']
    refine ⟨?_, by omega, by omega⟩
    rw [if_neg (by omega), if_neg (by omega), if_pos (by omega)]
    rfl
  · cases h
    simp only [List.mem_cons, List.not_mem_nil, or_false, forall_eq_or_imp, forall_eq,
      UInt8.toNat_ofNat']
    refine ⟨?_, by omega, by omega, by omega⟩
    rw [if_neg (by omega), if_neg (by omega), if_neg (by omega), if_pos (by omega)]
    rfl

/-- **A spelling holds its character.** -/
theorem payload_ofChar (c : Char) : Glyph.payload (ofChar c) = c.toNat := by
  have hvalid : c.val.toNat < 1114112 := by
    rcases c.valid with hlow | hhigh
    · exact Nat.lt_trans hlow (by decide)
    · exact hhigh.2
  unfold ofChar String.utf8EncodeChar
  simp only [Char.toNat]
  split
  · simp only [Glyph.payload, UInt8.toNat_ofNat']
    omega
  split
  · simp only [Glyph.payload, UInt8.toNat_ofNat']
    omega
  split
  · simp only [Glyph.payload, UInt8.toNat_ofNat']
    omega
  · simp only [Glyph.payload, UInt8.toNat_ofNat']
    omega

/-- A character below 128 is spelled with one byte. -/
theorem ofChar_low {c : Char} (hc : c.toNat < 128) :
    ∃ x : UInt8, ofChar c = [x] ∧ x.toNat < 128 := by
  refine ⟨UInt8.ofNat c.toNat, ?_, ?_⟩
  · unfold ofChar String.utf8EncodeChar
    simp only
    rw [if_pos (show c.val.toNat ≤ 127 from Nat.le_of_lt_succ hc)]
    rfl
  · rw [UInt8.toNat_ofNat']
    omega

end Text

namespace Glyph

/-- The glyph of a character that is spelled out. -/
def of (c : Char) : Glyph := ⟨c, Text.ofChar c⟩

/-- The glyph of a line end. -/
def lineEnd : Glyph := ⟨'\n', [Text.newline]⟩

theorem of_newline : of '\n' = lineEnd := by decide

/-- **A character that is spelled out is the glyph at the front.** -/
theorem first_ofChar {c : Char} {b : UInt8} {tail : Text} (h : Text.ofChar c = b :: tail)
    (rest : Text) : first b (tail ++ rest) = of c := by
  have hlength := (Text.ofChar_eq_cons h).1
  have htake : (tail ++ rest).take (spelledLength b - 1) = tail := by
    rw [hlength, Nat.add_sub_cancel, List.take_left]
  unfold first
  simp only [htake]
  rw [← h, Text.payload_ofChar, Char.ofNat_toNat, if_pos rfl]
  rfl

/-- The glyph at the front is the first bytes. -/
theorem raw_first (b : UInt8) (rest : Text) :
    ∃ k, k ≤ rest.length ∧ (first b rest).raw = b :: rest.take k := by
  unfold first
  simp only
  split
  · refine ⟨min (spelledLength b - 1) rest.length, Nat.min_le_right _ _, ?_⟩
    rw [← List.take_eq_take_min]
  · exact ⟨0, Nat.zero_le _, rfl⟩

/-- **A byte below 128 after the text does not change the glyph at its
front.** -/
theorem first_append {x : UInt8} (hx : x.toNat < 128) (b : UInt8) (rest more : Text) :
    first b (rest ++ x :: more) = first b rest := by
  by_cases hlong : spelledLength b - 1 ≤ rest.length
  · unfold first
    rw [List.take_append_of_le_length hlong]
  · -- the text breaks off in the spelling: neither with the byte nor without it is it one
    have hshort : rest.take (spelledLength b - 1) = rest := List.take_of_length_le (by omega)
    have hend : x ∈ (rest ++ x :: more).take (spelledLength b - 1) := by
      obtain ⟨k, hk⟩ : ∃ k, spelledLength b - 1 = rest.length + (k + 1) :=
        ⟨spelledLength b - 1 - rest.length - 1, by omega⟩
      rw [hk, List.take_length_add_append, List.take_succ_cons]
      simp
    unfold first
    simp only
    rw [if_neg, if_neg]
    · -- without the byte it is too short for its first byte
      intro hspelled
      have hlength := (Text.ofChar_eq_cons hspelled).1
      rw [hshort] at hlength
      omega
    · -- with it, there is a byte below 128 after the first
      intro hspelled
      have hbytes := (Text.ofChar_eq_cons hspelled).2 _ hend
      omega

/-- A glyph that stands for a character below 128 spells it. -/
theorem raw_of_low {b : UInt8} {rest : Text} (h : (first b rest).char.toNat < 128) :
    (first b rest).raw = Text.ofChar (first b rest).char := by
  unfold first at h ⊢
  simp only at h ⊢
  split
  · rename_i hspelled
    exact hspelled.symm
  · rename_i hstray
    rw [if_neg hstray] at h
    exact absurd h (show ¬replacement.toNat < 128 by decide)

end Glyph

namespace Text

open Glyph (lineEnd)

theorem glyphsAfter_append_left (a b : Text) : glyphsAfter a.length (a ++ b) = glyphs b := by
  induction a with
  | nil => rfl
  | cons x rest ih => exact ih

/-- **A character that is spelled out is one glyph**, whatever follows. -/
theorem glyphs_ofChar (c : Char) (rest : Text) :
    glyphs (ofChar c ++ rest) = Glyph.of c :: glyphs rest := by
  obtain ⟨b, tail, hspelled⟩ : ∃ b tail, ofChar c = b :: tail :=
    List.exists_cons_of_ne_nil String.utf8EncodeChar_ne_nil
  have hraw : (Glyph.of c).raw.length - 1 = tail.length := by
    rw [Glyph.of, hspelled, List.length_cons, Nat.add_sub_cancel]
  rw [hspelled, List.cons_append]
  simp only [glyphs, glyphsAfter, Glyph.first_ofChar hspelled, hraw]
  rw [glyphsAfter_append_left, glyphs]

/-- The same for characters in a row. -/
theorem glyphs_ofChars (cs : List Char) (rest : Text) :
    glyphs (ofChars cs ++ rest) = cs.map Glyph.of ++ glyphs rest := by
  induction cs with
  | nil => rfl
  | cons c cs ih =>
    rw [ofChars, List.flatMap_cons, List.append_assoc, glyphs_ofChar, List.map_cons,
      List.cons_append]
    exact congrArg _ ih

/-- The glyphs after some bytes of a text, and then those from a byte below
128 on. -/
theorem glyphsAfter_append {x : UInt8} (hx : x.toNat < 128) {skip : Nat} {a : Text} (more : Text)
    (hskip : skip ≤ a.length) :
    glyphsAfter skip (a ++ x :: more) = glyphsAfter skip a ++ glyphs (x :: more) := by
  induction a generalizing skip with
  | nil =>
    obtain rfl : skip = 0 := Nat.le_zero.1 hskip
    rfl
  | cons y rest ih =>
    cases skip with
    | succ skip => exact ih (Nat.le_of_succ_le_succ hskip)
    | zero =>
      obtain ⟨k, hk, hraw⟩ := Glyph.raw_first y rest
      have hlength : (Glyph.first y rest).raw.length - 1 ≤ rest.length := by
        rw [hraw, List.length_cons, List.length_take]
        omega
      simp only [List.cons_append, glyphsAfter, Glyph.first_append hx]
      rw [ih hlength]

/-- **The glyphs of a text and of what follows it** from a character below
128 on. -/
theorem glyphs_append (a : Text) {c : Char} (hc : c.toNat < 128) (more : Text) :
    glyphs (a ++ (ofChar c ++ more)) = glyphs a ++ Glyph.of c :: glyphs more := by
  obtain ⟨x, hspelled, hx⟩ := ofChar_low hc
  have hhead := glyphs_ofChar c more
  rw [hspelled, List.singleton_append] at hhead ⊢
  rw [← hhead]
  exact glyphsAfter_append hx more (Nat.zero_le _)

/-- **The glyphs of a text, a line end and a text.** -/
theorem glyphs_append_newline (a b : Text) :
    glyphs (a ++ newline :: b) = glyphs a ++ lineEnd :: glyphs b := by
  rw [← Glyph.of_newline]
  exact glyphs_append a (show '\n'.toNat < 128 by decide) b

/-- **No byte is lost.** -/
theorem ofGlyphs_glyphsAfter {skip : Nat} {a : Text} (hskip : skip ≤ a.length) :
    ofGlyphs (glyphsAfter skip a) = a.drop skip := by
  induction a generalizing skip with
  | nil =>
    obtain rfl : skip = 0 := Nat.le_zero.1 hskip
    rfl
  | cons b rest ih =>
    cases skip with
    | succ skip => exact ih (Nat.le_of_succ_le_succ hskip)
    | zero =>
      obtain ⟨k, hk, hraw⟩ := Glyph.raw_first b rest
      have hlength : (Glyph.first b rest).raw.length - 1 = k := by
        rw [hraw, List.length_cons, List.length_take, Nat.add_sub_cancel, Nat.min_eq_left hk]
      have hrest := ih (hlength ▸ hk)
      simp only [ofGlyphs, glyphsAfter, List.flatMap_cons] at hrest ⊢
      rw [hrest, hlength, hraw, List.cons_append, List.take_append_drop, List.drop_zero]

theorem ofGlyphs_glyphs (a : Text) : ofGlyphs (glyphs a) = a :=
  ofGlyphs_glyphsAfter (Nat.zero_le _)

/-- A character below 128 that is read is spelled by its byte. -/
theorem raw_of_mem_glyphsAfter {skip : Nat} {a : Text} {g : Glyph} (hg : g ∈ glyphsAfter skip a)
    (hlow : g.char.toNat < 128) : g.raw = ofChar g.char := by
  induction a generalizing skip with
  | nil => cases hg
  | cons b rest ih =>
    cases skip with
    | succ skip => exact ih hg
    | zero =>
      rcases List.mem_cons.1 hg with rfl | hg
      · exact Glyph.raw_of_low hlow
      · exact ih hg

/-- **A byte below 128 that is not in a text is not read there.** -/
theorem char_ne_of_mem_glyphs {a : Text} {g : Glyph} (hg : g ∈ a.glyphs) {c : Char} {x : UInt8}
    (hc : ofChar c = [x]) (hlow : c.toNat < 128) (hx : x ∉ a) : g.char ≠ c := by
  rintro rfl
  have hraw := raw_of_mem_glyphsAfter hg hlow
  refine hx ?_
  rw [← ofGlyphs_glyphs a]
  exact List.mem_flatMap.2 ⟨g, hg, by rw [hraw, hc]; exact List.mem_singleton_self x⟩

end Text

namespace Source

open Glyph (lineEnd)

/-- A source without a NUL is read to its end. -/
theorem body_eq_glyphs {src : Text} (hnul : 0 ∉ src) : body src = src.glyphs := by
  have hall : ∀ g ∈ src.glyphs, decide (g.char ≠ '\x00') = true := fun g hg =>
    decide_eq_true (Text.char_ne_of_mem_glyphs hg (by decide) (by decide) hnul)
  unfold body
  rw [← List.append_nil src.glyphs, List.takeWhile_append_of_pos (by simpa using hall)]
  rfl

/-- **What a source without a NUL, a line end and a source are read as.** -/
theorem body_append_newline {a : Text} (b : Text) (hnul : 0 ∉ a) :
    body (a ++ Text.newline :: b) = body a ++ lineEnd :: body b := by
  have hall : ∀ g ∈ a.glyphs, decide (g.char ≠ '\x00') = true := fun g hg =>
    decide_eq_true (Text.char_ne_of_mem_glyphs hg (by decide) (by decide) hnul)
  rw [body_eq_glyphs hnul]
  unfold body
  rw [Text.glyphs_append_newline, List.takeWhile_append_of_pos hall,
    List.takeWhile_cons_of_pos rfl]

end Source

end TanLang
