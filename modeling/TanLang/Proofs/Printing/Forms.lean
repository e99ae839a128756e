import TanLang.Text
/-!
# Printing — texts in parentheses

A form is a leaf or a list in parentheses: a head, and parts with a blank
before each. A leaf is a word, which has neither blanks nor closing
parentheses in it, or a text between quotes, in which a backslash takes the
next byte with it. **A text is that of one form only**: a word ends where a
blank or a closing parenthesis follows, a quoted text at its first quote that
is not escaped, and a list at the parenthesis that closes it.
-/

namespace TanLang

/-- What follows a form starts with a blank or a closing parenthesis, if it
is anything at all. -/
def Delimited (rest : Text) : Prop := ∀ b ∈ rest.head?, b = 32 ∨ b = 41

/-- Neither a blank nor a closing parenthesis is in a text. -/
def Unbroken (w : Text) : Prop := ∀ b ∈ w, b ≠ 32 ∧ b ≠ 41

instance (w : Text) : Decidable (Unbroken w) :=
  List.decidableBAll (fun b => b ≠ 32 ∧ b ≠ 41) w

/-- **The inside of a quoted text**: no quote stands there but after a
backslash, and no backslash is the last byte. -/
inductive Escaped : Text → Prop where
  | nil : Escaped []
  | byte {b : UInt8} {rest : Text} (hquote : b ≠ 34) (hslash : b ≠ 92) (hrest : Escaped rest) :
      Escaped (b :: rest)
  | escape (b : UInt8) {rest : Text} (hrest : Escaped rest) : Escaped (92 :: b :: rest)

/-- **A leaf**: a word that does not start like a list or a quoted text, or
a quoted text. -/
inductive Leaf : Text → Prop where
  | word {b : UInt8} {rest : Text} (hquote : b ≠ 34) (hopening : b ≠ 40)
      (hw : Unbroken (b :: rest)) : Leaf (b :: rest)
  | quoted {body : Text} (hbody : Escaped body) : Leaf (34 :: (body ++ [34]))

section

variable {v w r s : Text}

theorem delimited_nil : Delimited [] := nofun

theorem delimited_blank (rest : Text) : Delimited (32 :: rest) := by
  rintro b ⟨⟩
  exact .inl rfl

theorem delimited_closing (rest : Text) : Delimited (41 :: rest) := by
  rintro b ⟨⟩
  exact .inr rfl

theorem Unbroken.tail {b : UInt8} (hw : Unbroken (b :: w)) : Unbroken w :=
  fun c hc => hw c (List.mem_cons_of_mem b hc)

theorem Unbroken.append (hv : Unbroken v) (hw : Unbroken w) : Unbroken (v ++ w) :=
  fun b hb => (List.mem_append.1 hb).elim (hv b) (hw b)

/-- A byte of a word is not where another word has ended. -/
theorem Unbroken.not_delimited {b : UInt8} (hw : Unbroken (b :: w)) : ¬ Delimited (b :: r) := by
  intro hr
  obtain ⟨hblank, hclosing⟩ := hw b List.mem_cons_self
  exact (hr b rfl).elim hblank hclosing

/-- **A word ends at the first delimiter.** -/
theorem Unbroken.append_inj (hv : Unbroken v) (hw : Unbroken w) (hr : Delimited r)
    (hs : Delimited s) (h : v ++ r = w ++ s) : v = w ∧ r = s := by
  induction v generalizing w with
  | nil =>
    cases w with
    | nil => exact ⟨rfl, h⟩
    | cons b w =>
      rw [List.nil_append] at h
      rw [h] at hr
      exact absurd hr hw.not_delimited
  | cons b v ih =>
    cases w with
    | nil =>
      rw [List.nil_append] at h
      rw [← h] at hs
      exact absurd hs hv.not_delimited
    | cons c w =>
      obtain ⟨rfl, hmore⟩ := List.cons.inj h
      obtain ⟨rfl, rfl⟩ := ih hv.tail hw.tail hmore
      exact ⟨rfl, rfl⟩

theorem Escaped.append (hv : Escaped v) (hw : Escaped w) : Escaped (v ++ w) := by
  induction hv with
  | nil => exact hw
  | byte hquote hslash _ ih => exact .byte hquote hslash ih
  | escape b _ ih => exact .escape b ih

/-- **A quoted text ends at its first quote that is not escaped.** -/
theorem Escaped.append_inj (hv : Escaped v) (hw : Escaped w) (h : v ++ 34 :: r = w ++ 34 :: s) :
    v = w ∧ r = s := by
  induction hv generalizing w with
  | nil =>
    cases hw with
    | nil => exact ⟨rfl, (List.cons.inj h).2⟩
    | byte hquote _ _ => exact absurd (List.cons.inj h).1.symm hquote
    | escape => cases (List.cons.inj h).1
  | byte hquote hslash _ ih =>
    cases hw with
    | nil => exact absurd (List.cons.inj h).1 hquote
    | byte _ _ hrest =>
      obtain ⟨rfl, hmore⟩ := List.cons.inj h
      obtain ⟨rfl, rfl⟩ := ih hrest hmore
      exact ⟨rfl, rfl⟩
    | escape => exact absurd (List.cons.inj h).1 hslash
  | escape b _ ih =>
    cases hw with
    | nil => cases (List.cons.inj h).1
    | byte _ hslash _ => exact absurd (List.cons.inj h).1.symm hslash
    | escape c hrest =>
      obtain ⟨rfl, hmore⟩ := List.cons.inj (List.cons.inj h).2
      obtain ⟨rfl, rfl⟩ := ih hrest hmore
      exact ⟨rfl, rfl⟩

/-- **Where a leaf ends.** -/
theorem Leaf.append_inj (hv : Leaf v) (hw : Leaf w) (hr : Delimited r) (hs : Delimited s)
    (h : v ++ r = w ++ s) : v = w ∧ r = s := by
  cases hv with
  | word hquote _ hv =>
    cases hw with
    | word _ _ hw => exact hv.append_inj hw hr hs h
    | quoted => exact absurd (List.cons.inj h).1 hquote
  | @quoted v hv =>
    cases hw with
    | word hquote _ _ => exact absurd (List.cons.inj h).1.symm hquote
    | @quoted w hw =>
      have hbodies : v ++ [34] ++ r = w ++ [34] ++ s := (List.cons.inj h).2
      rw [List.append_assoc, List.append_assoc] at hbodies
      obtain ⟨rfl, rfl⟩ := hv.append_inj hw hbodies
      exact ⟨rfl, rfl⟩

/-- A leaf does not start like a list. -/
theorem Leaf.ne_opening (hw : Leaf w) : w ++ r ≠ 40 :: s := by
  intro h
  cases hw with
  | word _ hopening _ => exact hopening (List.cons.inj h).1
  | quoted => cases (List.cons.inj h).1

end

/-! ## Forms -/

/-- A leaf, or a head with parts in parentheses. -/
inductive Form where
  | leaf (w : Text)
  | list (head : Text) (parts : List Form)

namespace Form

mutual

/-- A form in front of a text. -/
def write : Form → Text → Text
  | leaf w, rest => w ++ rest
  | list head parts, rest => 40 :: (head ++ writeAll parts (41 :: rest))

/-- Forms, each after a blank, in front of a text. -/
def writeAll : List Form → Text → Text
  | [], rest => rest
  | f :: more, rest => 32 :: write f (writeAll more rest)

end

mutual

/-- The leaves of a form are leaves, and its heads are words. -/
def Sound : Form → Prop
  | leaf w => Leaf w
  | list head parts => Unbroken head ∧ SoundAll parts

/-- The same for forms in a row. -/
def SoundAll : List Form → Prop
  | [] => True
  | f :: more => Sound f ∧ SoundAll more

end

theorem delimited_writeAll {fs : List Form} {r : Text} (hr : Delimited r) :
    Delimited (writeAll fs r) := by
  cases fs with
  | nil => exact hr
  | cons f more => exact delimited_blank _

mutual

/-- **A text is that of one form only**, and where the form ends is where
the rest of the text starts. -/
theorem write_inj : ∀ {f g : Form} {r s : Text}, f.Sound → g.Sound → Delimited r → Delimited s →
    f.write r = g.write s → f = g ∧ r = s
  | leaf v, leaf w, r, s, hf, hg, hr, hs, h => by
    obtain ⟨rfl, rfl⟩ := Leaf.append_inj hf hg hr hs h
    exact ⟨rfl, rfl⟩
  | leaf _, list _ _, _, _, hf, _, _, _, h => absurd h (Leaf.ne_opening hf)
  | list _ _, leaf _, _, _, _, hg, _, _, h => absurd h.symm (Leaf.ne_opening hg)
  | list head parts, list head' parts', r, s, hf, hg, _, _, h => by
    obtain ⟨rfl, hparts⟩ := hf.1.append_inj hg.1 (delimited_writeAll (delimited_closing r))
      (delimited_writeAll (delimited_closing s)) (List.cons.inj h).2
    obtain ⟨rfl, rfl⟩ := writeAll_inj hf.2 hg.2 hparts
    exact ⟨rfl, rfl⟩

/-- The parts of a list are known from its text up to the closing
parenthesis. -/
theorem writeAll_inj : ∀ {fs gs : List Form} {r s : Text}, SoundAll fs → SoundAll gs →
    writeAll fs (41 :: r) = writeAll gs (41 :: s) → fs = gs ∧ r = s
  | [], [], _, _, _, _, h => ⟨rfl, (List.cons.inj h).2⟩
  | [], _ :: _, _, _, _, _, h => nomatch (List.cons.inj h).1
  | _ :: _, [], _, _, _, _, h => nomatch (List.cons.inj h).1
  | f :: fs, g :: gs, r, s, hf, hg, h => by
    obtain ⟨rfl, hmore⟩ := write_inj hf.1 hg.1 (delimited_writeAll (delimited_closing r))
      (delimited_writeAll (delimited_closing s)) (List.cons.inj h).2
    obtain ⟨rfl, rfl⟩ := writeAll_inj hf.2 hg.2 hmore
    exact ⟨rfl, rfl⟩

end

end Form

end TanLang
