import Spex.CborFloat

/-!
# When a double is written as a half

The conversion to half precision cuts off the low bits of the fraction, so it changes
every double that is not the value of a half. The double of a half has known fields: the
exponent is shifted by the difference of the biases and the fraction padded with zeros, or,
for a subnormal half, normalized. The conversion takes these fields back to the ones of the
half. So the two-byte form is written for exactly the doubles that are values of halves.
-/
namespace Spex.Cbor
open BinaryFloat

/-- Some half has the exact value of the double, the sign of a zero included. -/
def HasHalf (value : UInt64) : Prop :=
  ∃ bits : UInt16, binary16.decode bits.toNat = binary64.decode value.toNat

section Fields
variable {e m e' f : ℕ}

lemma halfFields_of_normal (hm : m < 2 ^ 52) (hf : f < 2 ^ 10) (he : e' < 31) (hnormal : e' ≠ 0)
    (h : binary64.magnitudeOf e m = binary16.magnitudeOf e' f * 2 ^ (42 + 1008)) :
    halfFields e m = (e', f) := by
  have hdouble : binary64.magnitudeOf (e' + 1008) (f * 2 ^ 42) = _ :=
    Format.magnitudeOf_normal (F := binary16) rfl hnormal
  have hlt : f * 2 ^ 42 < 2 ^ 52 := by omega
  obtain ⟨rfl, rfl⟩ := binary64.magnitudeOf_inj hm hlt (h.trans hdouble.symm)
  rw [halfFields_normal (by omega) (by omega), Nat.mul_div_cancel _ (by norm_num),
    Nat.add_sub_cancel]

/-- The implicit bit of the double is put back before the shift. -/
lemma halfFields_of_subnormal (hm : m < 2 ^ 52) (hf : f < 2 ^ 10) (hpos : f ≠ 0)
    (h : binary64.magnitudeOf e m = binary16.magnitudeOf 0 f * 2 ^ (42 + 1008)) :
    halfFields e m = (0, f) := by
  obtain ⟨hlo, hhi⟩ := (Nat.log2_eq_iff hpos).mp rfl
  have hl : f.log2 < 10 := (Nat.log2_lt hpos).mpr hf
  generalize f.log2 = l at hlo hhi hl
  have hdouble : binary64.magnitudeOf (l + 1 + 1008 - 10) (f * 2 ^ (52 - l) - 2 ^ 52) = _ :=
    Format.magnitudeOf_subnormal (F := binary16) (k := 42) rfl hlo hl (by decide)
  have hle : 2 ^ 52 ≤ f * 2 ^ (52 - l) := by
    calc 2 ^ 52 = 2 ^ l * 2 ^ (52 - l) := by rw [← pow_add, Nat.add_sub_cancel' (by omega)]
      _ ≤ f * 2 ^ (52 - l) := Nat.mul_le_mul_right _ hlo
  have hlt : f * 2 ^ (52 - l) < 2 ^ 53 := by
    calc f * 2 ^ (52 - l) < 2 ^ (l + 1) * 2 ^ (52 - l) :=
          Nat.mul_lt_mul_of_pos_right hhi (by positivity)
      _ = 2 ^ 53 := by rw [← pow_add, show l + 1 + (52 - l) = 53 by omega]
  have hfraction : f * 2 ^ (52 - l) - 2 ^ 52 < 2 ^ 52 := by omega
  obtain ⟨rfl, hm'⟩ := binary64.magnitudeOf_inj hm hfraction (h.trans hdouble.symm)
  have hshift : 1051 - (l + 1 + 1008 - 10) = 52 - l := by omega
  rw [hm', halfFields_subnormal (by omega) (by omega), Nat.add_sub_cancel' hle, hshift,
    Nat.mul_div_cancel _ (by positivity)]

lemma halfFields_of_zero (hm : m < 2 ^ 52) (h : binary64.magnitudeOf e m = 0) :
    halfFields e m = (0, 0) := by
  have hzero : binary64.magnitudeOf 0 0 = 0 := rfl
  obtain ⟨rfl, rfl⟩ := binary64.magnitudeOf_inj hm (by norm_num) (h.trans hzero.symm)
  rfl

/-- The conversion takes the fields of the double of a half back to those of the half. -/
theorem halfFields_of_magnitude (hm : m < 2 ^ 52) (hf : f < 2 ^ 10) (he : e' < 31)
    (h : binary64.magnitudeOf e m = binary16.magnitudeOf e' f * 2 ^ (42 + 1008)) :
    halfFields e m = (e', f) := by
  by_cases hnormal : e' = 0
  · subst hnormal
    by_cases hzero : f = 0
    · subst hzero
      have hmagnitude : binary16.magnitudeOf 0 0 = 0 := rfl
      rw [hmagnitude, Nat.zero_mul] at h
      exact halfFields_of_zero hm h
    · exact halfFields_of_subnormal hm hf hzero h
  · exact halfFields_of_normal hm hf he hnormal h

end Fields

section Shortening
variable {value : UInt64} {bits : UInt16}

/-- A double with the fields of an assembled word is converted field by field. -/
theorem f64ToF16Bits_of_fields {negative : Bool} {e m : ℕ} (he : e < 2 ^ 11) (hm : m < 2 ^ 52)
    (hvalue : value.toNat = binary64.assemble negative e m)
    (hfields : halfFields e m = (binary16.exponent bits.toNat, binary16.fraction bits.toNat))
    (hnegative : negative = binary16.negative bits.toNat) : f64ToF16Bits value = bits := by
  rw [← UInt16.toNat_inj, toNat_f64ToF16Bits, hvalue, binary64.negative_assemble he hm,
    binary64.exponent_assemble he hm, binary64.fraction_assemble hm, hfields, hnegative]
  exact binary16.assemble_fields _ bits.toNat_lt

/-- A half with the value of a double is the one the conversion gives. -/
theorem f64ToF16Bits_of_decode (hnan : binary64.isNan value.toNat = false)
    (h : binary16.decode bits.toNat = binary64.decode value.toNat) : f64ToF16Bits value = bits := by
  have hn : binary16.isNan bits.toNat = false := by
    by_contra hbits
    have hvalue := (binary16.decode_eq_nan_iff _).mpr (by simpa using hbits)
    rw [h, binary64.decode_eq_nan_iff, hnan] at hvalue
    exact absurd hvalue (by simp)
  have hwiden := widen_eq_of_decode_eq widens_16_64 value.toNat_lt hn h
  by_cases htop : binary16.exponent bits.toNat = binary16.top
  · have hzero : binary16.fraction bits.toNat = 0 := by
      by_contra hne
      simp [Format.isNan, htop, hne] at hn
    rw [widen, if_pos htop, if_pos hzero] at hwiden
    refine f64ToF16Bits_of_fields (by decide) (by norm_num) hwiden.symm ?_ rfl
    rw [htop, hzero]
    exact halfFields_infinite rfl rfl
  · obtain ⟨e, m, hwide, he, hm, hmagnitude⟩ := widen_fields widens_16_64 htop
    have hlt : binary16.exponent bits.toNat < 31 :=
      lt_of_le_of_ne (Nat.lt_succ_iff.mp (binary16.exponent_lt _)) htop
    refine f64ToF16Bits_of_fields (he.trans (by decide)) hm (hwiden.symm.trans hwide) ?_ rfl
    have hscale : binary64.scale - binary16.scale = 42 + 1008 := rfl
    rw [hscale] at hmagnitude
    exact halfFields_of_magnitude hm (binary16.fraction_lt _) hlt hmagnitude

/-- The value survives the conversion exactly if some half has it. -/
theorem f16BitsToF64_f64ToF16Bits_iff (hnan : binary64.isNan value.toNat = false) :
    f16BitsToF64 (f64ToF16Bits value) = binary64.decode value.toNat ↔ HasHalf value := by
  rw [f16BitsToF64_eq]
  constructor
  · intro h
    exact ⟨_, h⟩
  · rintro ⟨bits, h⟩
    rw [f64ToF16Bits_of_decode hnan h, h]

/-- The comparison of the encoder sees no sign of a zero, but none is lost before it. -/
theorem f64Eq_half_iff (hnan : binary64.isNan value.toNat = false) :
    f64Eq (f16BitsToF64 (f64ToF16Bits value)) value = true ↔ HasHalf value := by
  rw [← f16BitsToF64_f64ToF16Bits_iff hnan]
  constructor
  · intro h
    rw [f64Eq, f16BitsToF64_eq] at h
    rw [f16BitsToF64_eq]
    exact decode_eq_of_same h fun _ => negative_f64ToF16Bits value
  · intro h
    rw [f64Eq, h]
    apply Datum.same_self
    rw [ne_eq, binary64.decode_eq_nan_iff, hnan]
    simp

theorem hasHalf_of_isNan (hnan : binary64.isNan value.toNat = true) : HasHalf value := by
  refine ⟨0x7e00, ?_⟩
  rw [(binary64.decode_eq_nan_iff _).mpr hnan]
  exact (binary16.decode_eq_nan_iff _).mpr (by decide)

/-- NaNs are written as the one half NaN, everything else as a half if it has one. -/
theorem encodeFloat_half_iff :
    (∃ bits, encodeFloat value = (majorSimple ||| 25) :: u16Be bits) ↔ HasHalf value := by
  by_cases hnan : binary64.isNan value.toNat = true
  · rw [encodeFloat, if_pos hnan]
    exact ⟨fun _ => hasHalf_of_isNan hnan, fun _ => ⟨_, rfl⟩⟩
  · rw [encodeFloat, if_neg hnan, ← f64Eq_half_iff (by simpa using hnan)]
    dsimp only
    split_ifs with hhalf hsingle
    · exact ⟨fun _ => hhalf, fun _ => ⟨_, rfl⟩⟩
    · refine ⟨?_, fun h => absurd h hhalf⟩
      rintro ⟨bits, h⟩
      exact absurd (List.cons.inj h).1 (by decide)
    · refine ⟨?_, fun h => absurd h hhalf⟩
      rintro ⟨bits, h⟩
      exact absurd (List.cons.inj h).1 (by decide)

end Shortening

/-- Shortening to half precision loses nothing: a double that is no NaN comes back with its
value, zeros with their sign, exactly if some half has that value. The conversion then gives
the only such half, and the two-byte form is written for these doubles and no others. -/
theorem half_shortening_exact (value : UInt64) (hnan : binary64.isNan value.toNat = false) :
    (f16BitsToF64 (f64ToF16Bits value) = binary64.decode value.toNat ↔ HasHalf value) ∧
    (f64Eq (f16BitsToF64 (f64ToF16Bits value)) value = true ↔ HasHalf value) ∧
    (HasHalf value → ∀ bits : UInt16,
      binary16.decode bits.toNat = binary64.decode value.toNat ↔ bits = f64ToF16Bits value) ∧
    ((∃ bits, encodeFloat value = (majorSimple ||| 25) :: u16Be bits) ↔ HasHalf value) ∧
    (HasHalf value → encodeFloat value = (majorSimple ||| 25) :: u16Be (f64ToF16Bits value)) := by
  refine ⟨f16BitsToF64_f64ToF16Bits_iff hnan, f64Eq_half_iff hnan, ?_, encodeFloat_half_iff, ?_⟩
  · intro hhalf bits
    constructor
    · intro h
      exact (f64ToF16Bits_of_decode hnan h).symm
    · rintro rfl
      rw [← f16BitsToF64_eq]
      exact (f16BitsToF64_f64ToF16Bits_iff hnan).mpr hhalf
  · intro hhalf
    rw [encodeFloat, if_neg (by simp [hnan])]
    exact if_pos ((f64Eq_half_iff hnan).mpr hhalf)

/-- The least subnormal half is written in two bytes, and half of it is no half. -/
theorem half_shortening_least :
    HasHalf 0x3e70000000000000 ∧
    encodeFloat 0x3e70000000000000 = (majorSimple ||| 25) :: u16Be 1 ∧
    ¬ HasHalf 0x3e60000000000000 := by
  have hleast := half_shortening_exact 0x3e70000000000000 (by decide)
  have hbelow := half_shortening_exact 0x3e60000000000000 (by decide)
  have hbits : f64ToF16Bits 0x3e70000000000000 = 1 := by decide
  have hhalf : HasHalf 0x3e70000000000000 := hleast.2.1.mp (by decide +kernel)
  refine ⟨hhalf, ?_, ?_⟩
  · rw [hleast.2.2.2.2 hhalf, hbits]
  · intro h
    exact absurd (hbelow.2.1.mpr h) (by decide +kernel)

end Spex.Cbor
