import Spex.CborEncode

/-!
# Floats of the canonical encoder

The encoder picks the shortest of three widths whose value equals the double.
Equality of numbers does not see the sign of a zero, but the half candidate
always keeps the sign bit, and a zero never gets past the half candidate; so
whichever width is written, widening it gives back the bit pattern of the
double. Only NaNs lose anything: they all become one.
-/
namespace Spex.Cbor
open BinaryFloat
variable {e : ℕ} {value : UInt64}

/-- The bit pattern every NaN is written as, read back at double width. -/
def canonicalNan (f : UInt64) : UInt64 :=
  if binary64.isNan f.toNat then 0x7ff8000000000000 else f

theorem f16_exponent (bits : UInt16) :
    ((bits >>> 10) &&& 0x1f).toNat = binary16.exponent bits.toNat := by
  rw [UInt16.toNat_and, UInt16.toNat_shiftRight, Nat.shiftRight_eq_div_pow]
  exact Nat.and_two_pow_sub_one_eq_mod _ 5

theorem f16_fraction (bits : UInt16) :
    (bits &&& 0x03ff).toNat = binary16.fraction bits.toNat := by
  rw [UInt16.toNat_and]
  exact Nat.and_two_pow_sub_one_eq_mod _ 10

theorem f16_sign (bits : UInt16) :
    Datum.ofRat (if bits >>> 15 = 0 then 1 else -1) =
      .finite (binary16.negative bits.toNat) 1 := by
  have hlt := bits.toNat_lt
  have h : bits >>> 15 = 0 ↔ bits.toNat / 2 ^ 15 = 0 := by
    rw [← UInt16.toNat_inj, UInt16.toNat_shiftRight, Nat.shiftRight_eq_div_pow]
    rfl
  have hneg : binary16.negative bits.toNat = decide (bits.toNat / 2 ^ 15 % 2 = 1) := rfl
  by_cases h0 : bits.toNat / 2 ^ 15 = 0
  · rw [if_pos (h.mpr h0), hneg, h0]
    simp [Datum.ofRat]
  · have h1 : bits.toNat / 2 ^ 15 = 1 := by omega
    rw [if_neg (mt h.mp h0), hneg, h1]
    simp [Datum.ofRat]

/-- The source's formula for a normal half, with a sign factor already taken. -/
lemma half_normal {m : ℕ} (h0 : e ≠ 0) {s : Bool} :
    ((Datum.finite s 1).mul (.ofRat (1 + m / 1024))).mul (.ofRat (2 ^ ((e : ℤ) - 15))) =
      .finite s (binary16.magnitudeOf e m / 2 ^ binary16.scale) := by
  obtain ⟨k, rfl⟩ := Nat.exists_eq_succ_of_ne_zero h0
  have hpow : (2 : ℚ) ^ (((k + 1 : ℕ) : ℤ) - 15) = 2 ^ k / 2 ^ 14 := by
    rw [show ((k + 1 : ℕ) : ℤ) - 15 = (k : ℤ) - (14 : ℕ) by push_cast; ring,
      zpow_sub₀ two_ne_zero, zpow_natCast, zpow_natCast]
  have hfirst : (0 : ℚ) ≤ 1 + m / 1024 := by positivity
  have hsecond : (0 : ℚ) ≤ 2 ^ k / 2 ^ 14 := by positivity
  rw [hpow, Datum.ofRat_of_nonneg hfirst, Datum.ofRat_of_nonneg hsecond]
  simp [Datum.mul, Format.magnitudeOf, Format.scale, binary16]
  ring

/-- What the source computes from half precision bits is their value. -/
theorem f16BitsToF64_eq (bits : UInt16) :
    f16BitsToF64 bits = binary16.decode bits.toNat := by
  have he0 : (bits >>> 10) &&& 0x1f = 0 ↔ binary16.exponent bits.toNat = 0 := by
    rw [← f16_exponent, ← UInt16.toNat_inj]
    rfl
  have he31 : (bits >>> 10) &&& 0x1f = 31 ↔ binary16.exponent bits.toNat = binary16.top := by
    rw [← f16_exponent, ← UInt16.toNat_inj]
    rfl
  have hm0 : bits &&& 0x03ff = 0 ↔ binary16.fraction bits.toNat = 0 := by
    rw [← f16_fraction, ← UInt16.toNat_inj]
    rfl
  have hmag : binary16.magnitude bits.toNat =
      binary16.magnitudeOf (binary16.exponent bits.toNat) (binary16.fraction bits.toNat) := rfl
  simp only [f16BitsToF64, Format.decode, f16_sign, he0, he31, hm0, f16_exponent, f16_fraction,
    hmag]
  generalize binary16.exponent bits.toNat = e
  generalize binary16.fraction bits.toNat = m
  by_cases h0 : e = 0
  · have htop : (0 : ℕ) ≠ binary16.top := by decide
    subst h0
    rw [if_pos rfl, if_neg htop, Datum.ofRat_of_nonneg (Nat.cast_nonneg m),
      Datum.ofRat_of_nonneg (by positivity : (0 : ℚ) ≤ 1 / 2 ^ 24)]
    simp [Datum.mul, Format.magnitudeOf, Format.scale, binary16, div_eq_mul_inv]
  · rw [if_neg h0]
    by_cases h31 : e = binary16.top
    · rw [if_pos h31, if_pos h31]
      simp [Datum.mul]
    · rw [if_neg h31, if_neg h31, half_normal h0]

/-- The exponent and fraction fields of the half, from those of the double. -/
def halfFields (e m : ℕ) : ℕ × ℕ :=
  if e = 2047 then (31, if m = 0 then 0 else 512)
  else if 1039 ≤ e then (31, 0)
  else if 1009 ≤ e then (e - 1008, m / 2 ^ 42)
  else if 998 ≤ e then (0, (2 ^ 52 + m) / 2 ^ (1051 - e))
  else (0, 0)

section HalfFields
variable {e m : ℕ}

lemma halfFields_nan (h : e = 2047) (hm : m ≠ 0) : halfFields e m = (31, 512) := by
  rw [halfFields, if_pos h, if_neg hm]

lemma halfFields_infinite (h : e = 2047) (hm : m = 0) : halfFields e m = (31, 0) := by
  rw [halfFields, if_pos h, if_pos hm]

lemma halfFields_overflow (hlo : 1039 ≤ e) (htop : e ≠ 2047) : halfFields e m = (31, 0) := by
  rw [halfFields, if_neg htop, if_pos hlo]

lemma halfFields_normal (hlo : 1009 ≤ e) (hhi : e < 1039) :
    halfFields e m = (e - 1008, m / 2 ^ 42) := by
  rw [halfFields, if_neg (by omega), if_neg (by omega), if_pos hlo]

lemma halfFields_subnormal (hlo : 998 ≤ e) (hhi : e < 1009) :
    halfFields e m = (0, (2 ^ 52 + m) / 2 ^ (1051 - e)) := by
  rw [halfFields, if_neg (by omega), if_neg (by omega), if_neg (by omega), if_pos hlo]

lemma halfFields_underflow (hhi : e < 998) : halfFields e m = (0, 0) := by
  rw [halfFields, if_neg (by omega), if_neg (by omega), if_neg (by omega), if_neg (by omega)]

end HalfFields

theorem f64_exponent (value : UInt64) :
    ((value >>> 52) &&& 0x7ff).toNat = binary64.exponent value.toNat := by
  rw [UInt64.toNat_and, UInt64.toNat_shiftRight, Nat.shiftRight_eq_div_pow]
  exact Nat.and_two_pow_sub_one_eq_mod _ 11

theorem f64_fraction (value : UInt64) :
    (value &&& 0x000fffffffffffff).toNat = binary64.fraction value.toNat := by
  rw [UInt64.toNat_and]
  exact Nat.and_two_pow_sub_one_eq_mod _ 52

theorem f64_sign (value : UInt64) : ((value >>> 63).toUInt16 <<< 15).toNat =
    if binary64.negative value.toNat then 2 ^ 15 else 0 := by
  have hlt := value.toNat_lt
  have hsign : ((value >>> 63).toUInt16 <<< 15).toNat = value.toNat / 2 ^ 63 * 2 ^ 15 := by
    rw [UInt16.toNat_shiftLeft, UInt64.toNat_toUInt16, UInt64.toNat_shiftRight,
      show (63 : UInt64).toNat % 64 = 63 from rfl, show (15 : UInt16).toNat % 16 = 15 from rfl,
      Nat.shiftRight_eq_div_pow, Nat.shiftLeft_eq]
    omega
  have hneg : binary64.negative value.toNat = decide (value.toNat / 2 ^ 63 % 2 = 1) := rfl
  rw [hsign, hneg]
  simp only [decide_eq_true_eq]
  split_ifs with h <;> omega

/-- A sign bit and the fields below it. -/
theorem toNat_sign_or {negative : Bool} {sign low : UInt16} {f : ℕ}
    (hsign : sign.toNat = if negative then 2 ^ 15 else 0) (hlow : low.toNat = e * 2 ^ 10 + f)
    (he : e < 2 ^ 5) (hf : f < 2 ^ 10) : (sign ||| low).toNat = binary16.assemble negative e f := by
  have hlt : low.toNat < 2 ^ 15 := by omega
  have hadd := Nat.two_pow_add_eq_or_of_lt hlt (if negative then 1 else 0)
  have hbits : binary16.assemble negative e f =
      (if negative then 2 ^ 15 else 0) + e * 2 ^ 10 + f := rfl
  rw [UInt16.toNat_or, hbits, hsign]
  cases negative with
  | false => simp [hlow]
  | true =>
    simp only [if_true, Nat.mul_one] at hadd ⊢
    rw [← hadd, hlow, Nat.add_assoc]

/-- An exponent field and a fraction field. -/
theorem toNat_fields_or {exp fraction : UInt16} {f : ℕ} (hexp : exp.toNat = e * 2 ^ 10)
    (hfraction : fraction.toNat = f) (hf : f < 2 ^ 10) :
    (exp ||| fraction).toNat = e * 2 ^ 10 + f := by
  rw [UInt16.toNat_or, hexp, hfraction, Nat.mul_comm, Nat.two_pow_add_eq_or_of_lt hf]

theorem half_fraction {mantissa : UInt64} (h : mantissa.toNat < 2 ^ 52) :
    (mantissa >>> 42).toUInt16.toNat = mantissa.toNat / 2 ^ 42 := by
  rw [UInt64.toNat_toUInt16, UInt64.toNat_shiftRight, show (42 : UInt64).toNat % 64 = 42 from rfl,
    Nat.shiftRight_eq_div_pow]
  omega

theorem half_exponent (h : e < 31) : (UInt16.ofNat e <<< 10).toNat = e * 2 ^ 10 := by
  rw [UInt16.toNat_shiftLeft, UInt16.toNat_ofNat', show (10 : UInt16).toNat % 16 = 10 from rfl,
    Nat.shiftLeft_eq]
  omega

lemma subnormal_lt {m k : ℕ} (h : m < 2 ^ 52) (hlo : 43 ≤ k) : (2 ^ 52 + m) / 2 ^ k < 2 ^ 10 := by
  rw [Nat.div_lt_iff_lt_mul (by positivity)]
  have hpow : 2 ^ 43 ≤ 2 ^ k := Nat.pow_le_pow_right (by norm_num) hlo
  omega

theorem half_subnormal {mantissa : UInt64} {k : ℕ} (h : mantissa.toNat < 2 ^ 52)
    (hlo : 43 ≤ k) (hhi : k < 64) :
    ((mantissa ||| 0x0010000000000000) >>> UInt64.ofNat k).toUInt16.toNat =
      (2 ^ 52 + mantissa.toNat) / 2 ^ k := by
  have hadd := Nat.two_pow_add_eq_or_of_lt h 1
  have hlt := subnormal_lt h hlo
  rw [UInt64.toNat_toUInt16, UInt64.toNat_shiftRight, UInt64.toNat_or, UInt64.toNat_ofNat',
    show (k % 2 ^ 64) % 64 = k by omega, Nat.shiftRight_eq_div_pow,
    show (0x0010000000000000 : UInt64).toNat = 2 ^ 52 from rfl, Nat.or_comm,
    ← Nat.mul_one (2 ^ 52), ← hadd, Nat.mul_one]
  exact Nat.mod_eq_of_lt (by omega)

theorem halfFields_lt {m : ℕ} (hm : m < 2 ^ 52) :
    (halfFields e m).1 < 2 ^ 5 ∧ (halfFields e m).2 < 2 ^ 10 := by
  unfold halfFields
  split_ifs with htop hzero hover hnormal hsub
  · norm_num
  · norm_num
  · norm_num
  · dsimp only
    omega
  · exact ⟨by norm_num, subnormal_lt hm (by omega)⟩
  · norm_num

/-- The conversion to half precision, field by field. -/
theorem toNat_f64ToF16Bits (value : UInt64) :
    (f64ToF16Bits value).toNat = binary16.assemble (binary64.negative value.toNat)
      (halfFields (binary64.exponent value.toNat) (binary64.fraction value.toNat)).1
      (halfFields (binary64.exponent value.toNat) (binary64.fraction value.toNat)).2 := by
  have hsign := f64_sign value
  have hmant := f64_fraction value
  have hmlt := binary64.fraction_lt value.toNat
  rw [← hmant] at hmlt ⊢
  unfold f64ToF16Bits
  dsimp only
  rw [f64_exponent]
  generalize (value >>> 63).toUInt16 <<< 15 = sign at hsign ⊢
  generalize value &&& 0x000fffffffffffff = mantissa at hmlt ⊢
  generalize binary64.exponent value.toNat = e
  have hlt := halfFields_lt (e := e) hmlt
  have hzero : mantissa = 0 ↔ mantissa.toNat = 0 := by
    rw [← UInt64.toNat_inj]
    rfl
  split_ifs with htop hnan hover hunder hsmall
  · rw [UInt16.or_assoc, halfFields_nan (by omega) (mt hzero.mpr hnan)]
    exact toNat_sign_or hsign rfl (by norm_num) (by norm_num)
  · rw [UInt16.or_assoc, halfFields_infinite (by omega) (hzero.mp (not_not.mp hnan))]
    exact toNat_sign_or hsign rfl (by norm_num) (by norm_num)
  · rw [halfFields_overflow (by omega) (by omega)]
    exact toNat_sign_or hsign rfl (by norm_num) (by norm_num)
  · rw [halfFields_underflow (by omega), ← UInt16.or_zero (a := sign)]
    exact toNat_sign_or hsign rfl (by norm_num) (by norm_num)
  · have hshift : (1 - ((e : ℤ) - 1023 + 15) + 42).toNat = 1051 - e := by omega
    rw [halfFields_subnormal (by omega) (by omega)] at hlt ⊢
    rw [hshift]
    refine toNat_sign_or hsign ?_ hlt.1 hlt.2
    rw [half_subnormal hmlt (by omega) (by omega), Nat.zero_mul, Nat.zero_add]
  · have hexp : ((e : ℤ) - 1023 + 15).toNat = e - 1008 := by omega
    rw [halfFields_normal (by omega) (by omega)] at hlt ⊢
    rw [UInt16.or_assoc, hexp]
    refine toNat_sign_or hsign ?_ hlt.1 hlt.2
    exact toNat_fields_or (half_exponent (by omega)) (half_fraction hmlt) hlt.2

/-- Every branch of the conversion to half precision keeps the sign bit. -/
theorem negative_f64ToF16Bits (value : UInt64) :
    binary16.negative (f64ToF16Bits value).toNat = binary64.negative value.toNat := by
  obtain ⟨he, hf⟩ := halfFields_lt (e := binary64.exponent value.toNat)
    (binary64.fraction_lt value.toNat)
  rw [toNat_f64ToF16Bits]
  exact binary16.negative_assemble he hf

/-- Two words with equal numbers have one value, unless they are zeros of
different sign. -/
lemma decode_eq_of_same {F G : Format} {w v : ℕ}
    (h : (F.decode w).same (G.decode v) = true)
    (hz : G.magnitude v = 0 → F.negative w = G.negative v) : F.decode w = G.decode v := by
  by_cases hw : F.exponent w = F.top
  · by_cases hv : G.exponent v = G.top
    · by_cases hwf : F.fraction w = 0 <;> by_cases hvf : G.fraction v = 0 <;>
        simp_all [Format.decode, Datum.same]
    · by_cases hwf : F.fraction w = 0 <;> simp_all [Format.decode, Datum.same]
  · by_cases hv : G.exponent v = G.top
    · by_cases hvf : G.fraction v = 0 <;> simp_all [Format.decode, Datum.same]
    · rw [F.decode_finite hw, G.decode_finite hv] at h ⊢
      apply Datum.eq_of_same (by positivity) (by positivity) h
      intro h0
      apply hz
      simp only [Datum.same, Datum.signed, h0, decide_eq_true_eq, neg_zero, ite_self] at h
      split_ifs at h <;> simpa using h.symm

lemma decode_zero {F : Format} {w : ℕ} (he : F.exponent w ≠ F.top) (hm : F.magnitude w = 0) :
    F.decode w = .finite (F.negative w) 0 := by
  rw [F.decode_finite he, hm, Nat.cast_zero, zero_div]

lemma eq_zero_of_magnitude_eq_zero (h : binary64.magnitude value.toNat = 0) :
    value = 0 ∨ value = 0x8000000000000000 := by
  have he : binary64.exponent value.toNat = 0 := by
    by_contra he
    rw [Format.magnitude, Format.magnitudeOf, if_neg he] at h
    simp at h
  rw [Format.magnitude, Format.magnitudeOf, if_pos he] at h
  have hw := binary64.assemble_fields value.toNat value.toNat_lt
  rw [he, h, Format.assemble] at hw
  rw [← UInt64.toNat_inj, ← UInt64.toNat_inj, ← hw]
  split_ifs <;> decide

/-- Both zeros are written as halves. -/
lemma half_of_zero (h : binary64.magnitude value.toNat = 0) :
    f64Eq (f16BitsToF64 (f64ToF16Bits value)) value = true := by
  have hsame : ∀ s t, (Datum.finite s 0).same (.finite t 0) = true := by
    intro s t
    simp [Datum.same, Datum.signed]
  rw [f64Eq, f16BitsToF64_eq]
  rcases eq_zero_of_magnitude_eq_zero h with rfl | rfl
  · rw [decode_zero (by decide) (by decide), decode_zero (by decide) (by decide)]
    exact hsame _ _
  · rw [decode_zero (by decide) (by decide), decode_zero (by decide) (by decide)]
    exact hsame _ _

/-- A half that passed the comparison widens to the double it came from. -/
theorem widen_half (h : f64Eq (f16BitsToF64 (f64ToF16Bits value)) value = true) :
    widen binary16 binary64 (f64ToF16Bits value).toNat = value.toNat := by
  rw [f64Eq, f16BitsToF64_eq] at h
  have hd := decode_eq_of_same h fun _ => negative_f64ToF16Bits value
  refine widen_eq_of_decode_eq widens_16_64 value.toNat_lt ?_ hd
  by_contra hn
  rw [(binary16.decode_eq_nan_iff _).mpr (by simpa using hn)] at h
  simp [Datum.same] at h

/-- A single that passed the comparison widens to the double, given that the
half did not. -/
theorem f64From_asF32 (hhalf : ¬ f64Eq (f16BitsToF64 (f64ToF16Bits value)) value = true)
    (h : f64Eq (binary64.decode (f64From (asF32 value)).toNat) value = true) :
    f64From (asF32 value) = value := by
  have hd := decode_eq_of_same h fun h0 => absurd (half_of_zero h0) hhalf
  rw [← UInt64.toNat_inj]
  refine binary64.decode_inj (UInt64.toNat_lt _) value.toNat_lt hd ?_
  by_contra hn
  rw [f64Eq, (binary64.decode_eq_nan_iff _).mpr (by simpa using hn)] at h
  simp [Datum.same] at h

theorem encodeFloat_canonicalNan (f : UInt64) : encodeFloat (canonicalNan f) = encodeFloat f := by
  by_cases h : binary64.isNan f.toNat = true
  · have hcanon : binary64.isNan (0x7ff8000000000000 : UInt64).toNat = true := by decide
    simp only [canonicalNan, h, if_true, encodeFloat, hcanon]
  · simp only [canonicalNan, h, Bool.false_eq_true, if_false]

end Spex.Cbor
