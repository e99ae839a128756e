import TanLang.Proofs.Printing.Quoted
/-!
# Printing — numbers

Scaling a number by a power of ten rounds, overflows or underflows, but never
ends in the value that is no number. So **digits never read as `NaN`**, and
what is printed for a literal starts with a digit or a sign: it is a word, and
no word that a variable could be called by.
-/

namespace TanLang

namespace Decimal

open Float.Model (UnpackedFloat Format)
open Float.Model.UnpackedFloat (Sign)

variable {f g : UnpackedFloat}

/-! ## Scaling -/

/-- Whether a value is a number other than zero. -/
def isProper : UnpackedFloat → Bool
  | .finite .. => true
  | _ => false

theorem isNaN_dite {p : Prop} [Decidable p] {x : p → UnpackedFloat} {y : ¬ p → UnpackedFloat}
    (hx : ∀ h, (x h).isNaN = false) (hy : ∀ h, (y h).isNaN = false) :
    (dite p x y).isNaN = false := by
  by_cases h : p
  · rw [dif_pos h, hx]
  · rw [dif_neg h, hy]

theorem isNaN_ite {p : Prop} [Decidable p] (hf : f.isNaN = false) (hg : g.isNaN = false) :
    (if p then f else g).isNaN = false := by
  by_cases h : p
  · rw [if_pos h, hf]
  · rw [if_neg h, hg]

theorem isNaN_roundWithAccuracy (s : Sign) (m : Nat) (e : Int) (acc : UnpackedFloat.Accuracy) :
    (UnpackedFloat.roundWithAccuracy Format.binary64 s m e acc).isNaN = false :=
  isNaN_dite (fun _ => rfl) fun _ => rfl

/-- A product is a number if one side is proper. -/
theorem isNaN_mul (hf : f.isNaN = false) (hg : isProper g = true) :
    (UnpackedFloat.mul Format.binary64 f g).isNaN = false := by
  cases g with
  | finite =>
    cases f with
    | notANumber => cases hf
    | finite => exact isNaN_roundWithAccuracy _ _ _ _
    | _ => rfl
  | _ => cases hg

/-- So is a quotient if the divisor is. -/
theorem isNaN_div (hf : f.isNaN = false) (hg : isProper g = true) :
    (UnpackedFloat.div Format.binary64 f g).isNaN = false := by
  cases g with
  | finite =>
    cases f with
    | notANumber => cases hf
    | finite => exact isNaN_roundWithAccuracy _ _ _ _
    | _ => rfl
  | _ => cases hg

theorem isNaN_ofScientific (m : Nat) (e : Int) :
    (UnpackedFloat.ofScientific Format.binary64 m e).isNaN = false := by
  unfold UnpackedFloat.ofScientific
  refine isNaN_dite (fun _ => rfl) fun _ => isNaN_ite rfl (isNaN_ite rfl (isNaN_ite ?_ ?_))
  · exact isNaN_mul rfl rfl
  · exact isNaN_div rfl rfl

theorem isNaN_ofUInt64 (n : UInt64) :
    (UnpackedFloat.ofUInt64 Format.binary64 n).isNaN = false := by
  unfold UnpackedFloat.ofUInt64 UnpackedFloat.ofNat UnpackedFloat.ofInt UnpackedFloat.normalize
  split
  · exact isNaN_roundWithAccuracy _ _ _ _
  · rfl
  · exact isNaN_roundWithAccuracy _ _ _ _

/-! ## Bits -/

/-- A number with all bits of the exponent set has no fraction. -/
theorem unpackMantissa_pack (hf : f.isNaN = false)
    (hfull : UnpackedFloat.unpackExponent (UnpackedFloat.pack Format.binary64 f) = -1#11) :
    UnpackedFloat.unpackMantissa (UnpackedFloat.pack Format.binary64 f) = 0#52 := by
  cases f with
  | notANumber => cases hf
  | infinity s => exact UnpackedFloat.unpackMantissa_packComponents
  | zero s => exact UnpackedFloat.unpackMantissa_packComponents
  | finite s m e hm =>
    unfold UnpackedFloat.pack at hfull ⊢
    dsimp only at hfull ⊢
    split
    · exact UnpackedFloat.unpackMantissa_packComponents
    · rename_i hsmall
      rw [if_neg hsmall] at hfull
      split at hfull
      · rw [UnpackedFloat.unpackExponent_packComponents] at hfull
        have hbits := congrArg BitVec.toNat hfull
        rw [BitVec.toNat_ofNat, show (-1#11).toNat = 2047 from rfl] at hbits
        omega
      · rw [UnpackedFloat.unpackExponent_packComponents] at hfull
        cases hfull

/-- **A number is still one when it is packed into bits.** -/
theorem isNaN_pack (hf : f.isNaN = false) : (Float.Model.pack f).unpack.isNaN = false := by
  unfold Float.Model.unpack UnpackedFloat.unpack
  dsimp only
  by_cases hfull : @UnpackedFloat.unpackExponent Format.binary64
      (Float.Model.pack f).toBits.toBitVec = -1#11
  · have hzero : @UnpackedFloat.unpackMantissa Format.binary64
        (Float.Model.pack f).toBits.toBitVec = 0#52 := unpackMantissa_pack hf hfull
    rw [if_pos hfull, if_pos hzero]
    rfl
  · rw [if_neg hfull]
    exact isNaN_ite (isNaN_dite (fun _ => rfl) fun _ => rfl) rfl

/-- **The bits of a float that is a number say so.** -/
theorem ofFloat_ne_nan {x : Float} (hx : x.isNaN = false) : Binary64.ofFloat x ≠ .nan := by
  intro hnan
  unfold Binary64.ofFloat at hnan
  simp only at hnan
  split at hnan
  · rename_i hexponent
    split at hnan
    · cases hnan
    · rename_i hfraction
      have hfull : @UnpackedFloat.unpackExponent Format.binary64 x.toModel.toBits.toBitVec =
          -1#11 := by
        refine BitVec.eq_of_toNat_eq ?_
        unfold UnpackedFloat.unpackExponent
        simp only [BitVec.toNat_cast, BitVec.extractLsb_toNat, Nat.shiftRight_eq_div_pow]
        show x.toBits.toNat / fractionCount % exponentCount = exponentCount - 1
        omega
      have hsome : @UnpackedFloat.unpackMantissa Format.binary64 x.toModel.toBits.toBitVec ≠
          0#52 := by
        intro hzero
        have hbits := congrArg BitVec.toNat hzero
        unfold UnpackedFloat.unpackMantissa at hbits
        simp only [BitVec.toNat_cast, BitVec.extractLsb_toNat] at hbits
        exact hfraction hbits
      have hunpack : x.toModel.unpack.isNaN = true := by
        unfold Float.Model.unpack UnpackedFloat.unpack
        dsimp only
        rw [if_pos hfull, if_neg hsome]
        rfl
      cases hunpack.symm.trans hx
  · split at hnan <;> cases hnan

/-! ## Reading -/

theorem isNaN_ofScientific_float (m : Nat) (s : Bool) (e : Nat) :
    (Float.ofScientific m s e).isNaN = false := by
  unfold Float.ofScientific
  split
  · rename_i hsmall
    have hpowers : ∀ i : Fin 23,
        isProper (Float.exactlyRepresentablePowersOfTen[i]).toModel.unpack = true := by
      decide +kernel
    have hpower := hpowers ⟨e, by omega⟩
    have hwhole : m.toUInt64.toFloat.toModel.unpack.isNaN = false := isNaN_pack (isNaN_ofUInt64 _)
    simp only
    split
    · exact isNaN_pack (isNaN_div hwhole hpower)
    · exact isNaN_pack (isNaN_mul hwhole hpower)
  · exact isNaN_pack (isNaN_ofScientific _ _)

/-- **Digits read as a number**, or as an infinity. -/
theorem isNaN_nearest (digits : Nat) (scale : Int) : (nearest digits scale).isNaN = false := by
  unfold nearest
  simp only
  split
  · decide +kernel
  split
  · decide +kernel
  · exact isNaN_ofScientific_float _ _ _

/-! ## Writing -/

/-- The byte of a digit. -/
def IsDigit (b : UInt8) : Prop := 48 ≤ b.toNat ∧ b.toNat < 58

instance : DecidablePred IsDigit := fun b =>
  inferInstanceAs (Decidable (48 ≤ b.toNat ∧ b.toNat < 58))

/-- **A text looks like a number**: it is a word that starts with a digit or
a sign. -/
structure Numeral (w : Text) : Prop where
  unbroken : Unbroken w
  head : ∃ b rest, w = b :: rest ∧ (IsDigit b ∨ b = 43 ∨ b = 45)

theorem IsDigit.unbroken {b : UInt8} (hb : IsDigit b) : b ≠ 32 ∧ b ≠ 41 := by
  obtain ⟨hlow, -⟩ := hb
  constructor
  · rintro rfl
    exact absurd hlow (by decide)
  · rintro rfl
    exact absurd hlow (by decide)

theorem digitText_eq (n : Nat) : digitText n = (Nat.toDigits 10 n).flatMap Text.ofChar := by
  unfold digitText Text.ofNat Text.ofString
  simp [Nat.repr, List.utf8Encode]
  rfl

theorem isDigit_of_mem_digitText {n : Nat} {b : UInt8} (hb : b ∈ digitText n) : IsDigit b := by
  rw [digitText_eq] at hb
  obtain ⟨c, hc, hb⟩ := List.mem_flatMap.1 hb
  have hdigit := Nat.isDigit_of_mem_toDigits (by decide) (by decide) hc
  have hrange : 48 ≤ c.toNat ∧ c.toNat ≤ 57 := by
    simpa [Char.isDigit, UInt32.le_iff_toNat_le] using hdigit
  rw [Text.ofChar_ascii (by omega), List.mem_singleton] at hb
  rw [hb, IsDigit, UInt8.toNat_ofNat']
  omega

theorem digitText_ne_nil (n : Nat) : digitText n ≠ [] := by
  rw [digitText_eq]
  intro hnil
  obtain ⟨c, rest, hdigits⟩ := List.exists_cons_of_ne_nil (Nat.toDigits_ne_nil (n := n) (b := 10))
  rw [hdigits, List.flatMap_cons] at hnil
  exact String.utf8EncodeChar_ne_nil (List.append_eq_nil_iff.1 hnil).1

theorem unbroken_digitText (n : Nat) : Unbroken (digitText n) :=
  fun _ hb => (isDigit_of_mem_digitText hb).unbroken

theorem unbroken_zeros (n : Nat) : Unbroken (zeros n) := by
  intro b hb
  rw [List.eq_of_mem_replicate hb]
  decide

/-- A word in front of a word. -/
theorem Numeral.append {v w : Text} (hv : Numeral v) (hw : Unbroken w) : Numeral (v ++ w) where
  unbroken := hv.unbroken.append hw
  head := by
    obtain ⟨b, rest, rfl, hb⟩ := hv.head
    exact ⟨b, rest ++ w, rfl, hb⟩

theorem numeral_take_digitText (n k : Nat) : Numeral ((digitText n).take (k + 1)) where
  unbroken := fun b hb => unbroken_digitText n b (List.mem_of_mem_take hb)
  head := by
    obtain ⟨b, rest, hdigits⟩ := List.exists_cons_of_ne_nil (digitText_ne_nil n)
    have hb : IsDigit b := isDigit_of_mem_digitText (by rw [hdigits]; exact List.mem_cons_self)
    exact ⟨b, rest.take k, by rw [hdigits, List.take_succ_cons], .inl hb⟩

theorem numeral_zero : Numeral (Text.ofString "0") where
  unbroken := by decide
  head := ⟨48, [], by decide, .inl (by decide)⟩

theorem numeral_writePositional (s : Scientific) : Numeral (writePositional s) := by
  unfold writePositional
  simp only
  split
  · have hpoint : Numeral (Text.ofString "0.") := ⟨by decide, 48, [46], by decide, .inl (by decide)⟩
    exact (hpoint.append (unbroken_zeros _)).append (unbroken_digitText _)
  · refine ((numeral_take_digitText _ _).append (unbroken_zeros _)).append ?_
    split
    · exact fun _ hb => nomatch hb
    · refine .append (by decide) fun b hb => ?_
      exact unbroken_digitText _ b (List.mem_of_mem_drop hb)

/-- **What is printed for a number looks like one.** -/
theorem numeral_write {x : Float} (hx : x.isNaN = false) : Numeral (write positional x) := by
  unfold write
  split
  · exact absurd ‹_› (ofFloat_ne_nan hx)
  · rename_i negative _
    cases negative with
    | true => exact ⟨by decide, 45, _, rfl, .inr (.inr rfl)⟩
    | false => exact ⟨by decide, 43, _, rfl, .inr (.inl rfl)⟩
  · rename_i negative mantissa power narrow _
    have hsize : Numeral (if mantissa = 0 then Text.ofString "0"
        else writePositional (shortest mantissa power narrow)) := by
      split
      · exact numeral_zero
      · exact numeral_writePositional _
    cases negative with
    | true =>
      have hsign : Numeral (Text.ofString "-") := ⟨by decide, 45, [], by decide, .inr (.inr rfl)⟩
      exact hsign.append hsize.unbroken
    | false => exact hsize

end Decimal

end TanLang
