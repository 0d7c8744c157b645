import Mathlib.Data.Rat.Cast.Defs
import Mathlib.Data.Nat.Log
import Mathlib.Tactic

/-!
# Binary interchange formats with exact values

A word of a binary format is a natural number holding a sign bit, a biased
exponent field and a fraction field. Its value is an exact rational, an
infinity or a NaN; nothing is rounded when a word is read. Finite magnitudes
are natural multiples of the least subnormal, so two formats are compared by
integer arithmetic alone. Widening keeps the value of every word and narrowing
rounds to nearest, ties to even.
-/
namespace Spex.BinaryFloat

structure Format where
  fractionBits : ℕ
  exponentBits : ℕ

def binary16 : Format := ⟨10, 5⟩
def binary32 : Format := ⟨23, 8⟩
def binary64 : Format := ⟨52, 11⟩

/-- An exact value. The sign of a zero is part of the value. -/
inductive Datum where
  | nan
  | infinite (negative : Bool)
  | finite (negative : Bool) (absolute : ℚ)
  deriving DecidableEq

namespace Datum

def signed (negative : Bool) (q : ℚ) : ℚ := if negative then -q else q

/-- Numerical equality: the two zeros are equal and a NaN equals nothing. -/
def same : Datum → Datum → Bool
  | finite s a, finite t b => decide (signed s a = signed t b)
  | infinite s, infinite t => s == t
  | _, _ => false

def ofRat (q : ℚ) : Datum := finite (decide (q < 0)) |q|

def mul : Datum → Datum → Datum
  | finite s a, finite t b => finite (s ^^ t) (a * b)
  | infinite s, infinite t => infinite (s ^^ t)
  | infinite s, finite t b => if b = 0 then nan else infinite (s ^^ t)
  | finite s a, infinite t => if a = 0 then nan else infinite (s ^^ t)
  | _, _ => nan

theorem ofRat_of_nonneg {q : ℚ} (h : 0 ≤ q) : ofRat q = finite false q := by
  simp [ofRat, abs_of_nonneg h, not_lt.mpr h]

theorem same_self {d : Datum} (h : d ≠ nan) : same d d = true := by
  cases d with
  | nan => exact absurd rfl h
  | infinite s => simp [same]
  | finite s a => simp [same]

/-- Equal numbers with equal signs are the same value, zeros included. -/
theorem eq_of_same {s t : Bool} {a b : ℚ} (ha : 0 ≤ a) (hb : 0 ≤ b)
    (h : same (finite s a) (finite t b) = true) (hz : a = 0 → s = t) :
    finite s a = finite t b := by
  simp only [same, decide_eq_true_eq] at h
  cases s <;> cases t <;> simp only [signed, if_true, if_false, Bool.false_eq_true] at h
  · rw [h]
  · have h0 : a = 0 := by linarith
    exact absurd (hz h0) (by simp)
  · have h0 : a = 0 := by linarith
    exact absurd (hz h0) (by simp)
  · rw [neg_inj.mp h]

end Datum

namespace Format
variable (F : Format)

/-- Every word of the format is below this bound. -/
def bound : ℕ := 2 ^ (F.fractionBits + F.exponentBits + 1)

/-- The exponent field of infinities and NaNs. -/
def top : ℕ := 2 ^ F.exponentBits - 1

/-- The least subnormal is two to the minus `scale`. -/
def scale : ℕ := 2 ^ (F.exponentBits - 1) + F.fractionBits - 2

def negative (w : ℕ) : Bool := decide (w / 2 ^ (F.fractionBits + F.exponentBits) % 2 = 1)
def exponent (w : ℕ) : ℕ := w / 2 ^ F.fractionBits % 2 ^ F.exponentBits
def fraction (w : ℕ) : ℕ := w % 2 ^ F.fractionBits

/-- Magnitude in multiples of the least subnormal. -/
def magnitudeOf (e f : ℕ) : ℕ := if e = 0 then f else (2 ^ F.fractionBits + f) * 2 ^ (e - 1)

def magnitude (w : ℕ) : ℕ := F.magnitudeOf (F.exponent w) (F.fraction w)

def decode (w : ℕ) : Datum :=
  if F.exponent w = F.top then
    if F.fraction w = 0 then .infinite (F.negative w) else .nan
  else .finite (F.negative w) (F.magnitude w / 2 ^ F.scale)

def isNan (w : ℕ) : Bool := decide (F.exponent w = F.top ∧ F.fraction w ≠ 0)

/-- The word with the given fields. -/
def assemble (s : Bool) (e f : ℕ) : ℕ :=
  (if s then 2 ^ (F.fractionBits + F.exponentBits) else 0) + e * 2 ^ F.fractionBits + f

/-- Exponent and fraction fields of a magnitude, exact when it is representable. -/
def fields (n : ℕ) : ℕ × ℕ :=
  if n < 2 ^ F.fractionBits then (0, n)
  else
    let d := Nat.log2 n - F.fractionBits
    (d + 1, n / 2 ^ d - 2 ^ F.fractionBits)

end Format

/-- Division by a power of two, rounded to nearest with ties to even. -/
def roundShift (n s : ℕ) : ℕ :=
  let q := n / 2 ^ s
  let r := n % 2 ^ s
  if 2 ^ s < 2 * r ∨ 2 * r = 2 ^ s ∧ q % 2 = 1 then q + 1 else q

/-- Conversion to a format with at least the range and precision of the source.
A NaN keeps its sign and payload and becomes quiet. -/
def widen (S T : Format) (w : ℕ) : ℕ :=
  if S.exponent w = S.top then
    if S.fraction w = 0 then T.assemble (S.negative w) T.top 0
    else T.assemble (S.negative w) T.top
      (2 ^ (T.fractionBits - 1) +
        S.fraction w % 2 ^ (S.fractionBits - 1) * 2 ^ (T.fractionBits - S.fractionBits))
  else
    let ef := T.fields (S.magnitude w * 2 ^ (T.scale - S.scale))
    T.assemble (S.negative w) ef.1 ef.2

/-- Conversion to a smaller format, rounding to nearest with ties to even and
overflowing to an infinity. -/
def narrow (S T : Format) (w : ℕ) : ℕ :=
  if S.exponent w = S.top then
    if S.fraction w = 0 then T.assemble (S.negative w) T.top 0
    else T.assemble (S.negative w) T.top
      (2 ^ (T.fractionBits - 1) +
        S.fraction w / 2 ^ (S.fractionBits - T.fractionBits) % 2 ^ (T.fractionBits - 1))
  else
    let n := S.magnitude w
    let s := max (S.scale - T.scale) (Nat.log2 n - T.fractionBits)
    let ef := T.fields (roundShift n s * 2 ^ (s - (S.scale - T.scale)))
    if ef.1 < T.top then T.assemble (S.negative w) ef.1 ef.2
    else T.assemble (S.negative w) T.top 0

namespace Format
variable (F : Format)

theorem exponent_lt (w : ℕ) : F.exponent w < 2 ^ F.exponentBits := Nat.mod_lt _ (by positivity)

theorem fraction_lt (w : ℕ) : F.fraction w < 2 ^ F.fractionBits := Nat.mod_lt _ (by positivity)

/-- A word is determined by its three fields. -/
theorem assemble_fields (w : ℕ) (hw : w < F.bound) :
    F.assemble (F.negative w) (F.exponent w) (F.fraction w) = w := by
  have hlow : F.exponent w * 2 ^ F.fractionBits + F.fraction w =
      w % 2 ^ (F.fractionBits + F.exponentBits) := by
    rw [exponent, fraction, pow_add, Nat.mod_mul, Nat.mul_comm, Nat.add_comm]
  have hhigh : w / 2 ^ (F.fractionBits + F.exponentBits) < 2 := by
    rw [Nat.div_lt_iff_lt_mul (by positivity)]
    simpa [bound, pow_succ, Nat.mul_comm] using hw
  have hsplit := Nat.div_add_mod w (2 ^ (F.fractionBits + F.exponentBits))
  rw [assemble, Nat.add_assoc, hlow]
  obtain h | h : w / 2 ^ (F.fractionBits + F.exponentBits) = 0 ∨
      w / 2 ^ (F.fractionBits + F.exponentBits) = 1 := by
    generalize w / 2 ^ (F.fractionBits + F.exponentBits) = q at hhigh
    omega
  · rw [h] at hsplit
    simpa [negative, h] using hsplit
  · rw [h] at hsplit
    simpa [negative, h] using hsplit

section Assemble
variable {s : Bool} {e f : ℕ}

theorem fraction_assemble (hf : f < 2 ^ F.fractionBits) : F.fraction (F.assemble s e f) = f := by
  have h : F.assemble s e f =
      f + 2 ^ F.fractionBits * ((if s then 2 ^ F.exponentBits else 0) + e) := by
    cases s <;> simp [assemble, pow_add] <;> ring
  rw [fraction, h, Nat.add_mul_mod_self_left, Nat.mod_eq_of_lt hf]

theorem assemble_div (hf : f < 2 ^ F.fractionBits) :
    F.assemble s e f / 2 ^ F.fractionBits = (if s then 2 ^ F.exponentBits else 0) + e := by
  have h : F.assemble s e f =
      f + 2 ^ F.fractionBits * ((if s then 2 ^ F.exponentBits else 0) + e) := by
    cases s <;> simp [assemble, pow_add] <;> ring
  rw [h, Nat.add_mul_div_left _ _ (by positivity), Nat.div_eq_of_lt hf, Nat.zero_add]

theorem exponent_assemble (he : e < 2 ^ F.exponentBits) (hf : f < 2 ^ F.fractionBits) :
    F.exponent (F.assemble s e f) = e := by
  rw [exponent, F.assemble_div hf]
  cases s <;> simp [Nat.mod_eq_of_lt he]

theorem negative_assemble (he : e < 2 ^ F.exponentBits) (hf : f < 2 ^ F.fractionBits) :
    F.negative (F.assemble s e f) = s := by
  rw [negative, pow_add, ← Nat.div_div_eq_div_mul, F.assemble_div hf]
  cases s <;> simp [Nat.add_div_left, Nat.div_eq_of_lt he]

theorem assemble_lt (he : e < 2 ^ F.exponentBits) (hf : f < 2 ^ F.fractionBits) :
    F.assemble s e f < F.bound := by
  have hef : (e + 1) * 2 ^ F.fractionBits ≤ 2 ^ F.exponentBits * 2 ^ F.fractionBits :=
    Nat.mul_le_mul_right _ he
  have hs : (if s then 2 ^ (F.fractionBits + F.exponentBits) else 0) ≤
      2 ^ (F.fractionBits + F.exponentBits) := by split_ifs <;> simp
  have hp : 2 ^ F.exponentBits * 2 ^ F.fractionBits = 2 ^ (F.fractionBits + F.exponentBits) := by
    rw [pow_add, Nat.mul_comm]
  simp only [assemble, bound, pow_succ]
  rw [Nat.add_mul, Nat.one_mul] at hef
  omega

end Assemble

/-- Magnitudes grow with the exponent field. -/
lemma magnitudeOf_lt {e e' f g : ℕ} (hf : f < 2 ^ F.fractionBits) (he : e < e') :
    F.magnitudeOf e f < F.magnitudeOf e' g := by
  have hpos : 0 < 2 ^ (e' - 1) := by positivity
  have hge : 2 ^ F.fractionBits * 2 ^ (e' - 1) ≤ F.magnitudeOf e' g := by
    rw [magnitudeOf, if_neg (by omega)]
    exact Nat.mul_le_mul_right _ (Nat.le_add_right _ _)
  refine lt_of_lt_of_le ?_ hge
  rw [magnitudeOf]
  split_ifs with h0
  · exact lt_of_lt_of_le hf (Nat.le_mul_of_pos_right _ hpos)
  · have hstep : 2 * 2 ^ (e - 1) ≤ 2 ^ (e' - 1) := by
      rw [← pow_succ']
      exact Nat.pow_le_pow_right (by omega) (by omega)
    calc (2 ^ F.fractionBits + f) * 2 ^ (e - 1)
        < (2 ^ F.fractionBits + 2 ^ F.fractionBits) * 2 ^ (e - 1) :=
          Nat.mul_lt_mul_of_pos_right (by omega) (by positivity)
      _ = 2 ^ F.fractionBits * (2 * 2 ^ (e - 1)) := by ring
      _ ≤ 2 ^ F.fractionBits * 2 ^ (e' - 1) := Nat.mul_le_mul_left _ hstep

theorem magnitudeOf_inj {e e' f f' : ℕ} (hf : f < 2 ^ F.fractionBits)
    (hf' : f' < 2 ^ F.fractionBits) (h : F.magnitudeOf e f = F.magnitudeOf e' f') :
    e = e' ∧ f = f' := by
  rcases Nat.lt_trichotomy e e' with hlt | rfl | hlt
  · have := F.magnitudeOf_lt (g := f') hf hlt
    omega
  · refine ⟨rfl, ?_⟩
    simp only [magnitudeOf] at h
    split_ifs at h with h0
    · exact h
    · have := Nat.eq_of_mul_eq_mul_right (by positivity) h
      omega
  · have := F.magnitudeOf_lt (g := f) hf' hlt
    omega

theorem decode_finite {w : ℕ} (h : F.exponent w ≠ F.top) :
    F.decode w = .finite (F.negative w) (F.magnitude w / 2 ^ F.scale) := if_neg h

theorem decode_eq_nan_iff (w : ℕ) : F.decode w = .nan ↔ F.isNan w = true := by
  simp only [decode, isNan, decide_eq_true_eq]
  split_ifs with h h' <;> simp [*]

/-- Reading loses nothing but the payloads of NaNs. -/
theorem decode_inj {w w' : ℕ} (hw : w < F.bound) (hw' : w' < F.bound)
    (h : F.decode w = F.decode w') (hn : F.isNan w = false) : w = w' := by
  suffices hs : F.negative w = F.negative w' ∧ F.exponent w = F.exponent w' ∧
      F.fraction w = F.fraction w' by
    rw [← F.assemble_fields w hw, ← F.assemble_fields w' hw', hs.1, hs.2.1, hs.2.2]
  by_cases he : F.exponent w = F.top
  · have hf : F.fraction w = 0 := by
      by_contra hf
      simp [isNan, he, hf] at hn
    rw [decode, if_pos he, if_pos hf] at h
    by_cases he' : F.exponent w' = F.top
    · by_cases hf' : F.fraction w' = 0
      · rw [decode, if_pos he', if_pos hf'] at h
        exact ⟨Datum.infinite.inj h, he.trans he'.symm, hf.trans hf'.symm⟩
      · simp [decode, he', hf'] at h
    · simp [decode, he'] at h
  · rw [F.decode_finite he] at h
    by_cases he' : F.exponent w' = F.top
    · simp only [decode, if_pos he'] at h
      split_ifs at h
    · rw [F.decode_finite he'] at h
      obtain ⟨hs, hm⟩ := Datum.finite.inj h
      have hp : (2 : ℚ) ^ F.scale ≠ 0 := by positivity
      have hm' : F.magnitude w = F.magnitude w' := by
        exact_mod_cast (div_left_inj' hp).mp hm
      exact ⟨hs, F.magnitudeOf_inj (F.fraction_lt w) (F.fraction_lt w') hm'⟩

theorem log2_bounds {n : ℕ} (h : ¬ n < 2 ^ F.fractionBits) :
    F.fractionBits ≤ n.log2 ∧ 2 ^ n.log2 ≤ n ∧ n < 2 ^ (n.log2 + 1) := by
  have hn : n ≠ 0 := by
    have : 0 < 2 ^ F.fractionBits := by positivity
    omega
  obtain ⟨hlo, hhi⟩ := (Nat.log2_eq_iff hn).mp rfl
  refine ⟨?_, hlo, hhi⟩
  by_contra hlt
  have := Nat.pow_le_pow_right (n := 2) (by omega) (by omega : n.log2 + 1 ≤ F.fractionBits)
  omega

/-- The fields of a magnitude with a short enough significand give it back. -/
theorem magnitudeOf_fields {m k : ℕ} (hm : m < 2 ^ (F.fractionBits + 1)) :
    F.magnitudeOf (F.fields (m * 2 ^ k)).1 (F.fields (m * 2 ^ k)).2 = m * 2 ^ k := by
  set n := m * 2 ^ k with hn
  by_cases hsmall : n < 2 ^ F.fractionBits
  · simp [fields, hsmall, magnitudeOf]
  obtain ⟨hle, hlo, hhi⟩ := F.log2_bounds hsmall
  set l := Nat.log2 n with hl
  have hlk : l < F.fractionBits + 1 + k := by
    by_contra hge
    have h1 := Nat.pow_le_pow_right (n := 2) (by omega) (by omega : F.fractionBits + 1 + k ≤ l)
    have h2 : n < 2 ^ (F.fractionBits + 1) * 2 ^ k :=
      Nat.mul_lt_mul_of_pos_right hm (by positivity)
    rw [← pow_add] at h2
    omega
  have hdvd : 2 ^ (l - F.fractionBits) ∣ n :=
    (Nat.pow_dvd_pow 2 (by omega)).trans (Dvd.intro_left m hn.symm)
  have hquot : 2 ^ F.fractionBits ≤ n / 2 ^ (l - F.fractionBits) := by
    rw [Nat.le_div_iff_mul_le (by positivity), ← pow_add]
    simpa [Nat.add_sub_cancel' hle] using hlo
  simp only [fields, hsmall, if_false, ← hl, magnitudeOf, Nat.add_sub_cancel,
    Nat.add_one_ne_zero, Nat.add_sub_cancel' hquot]
  exact Nat.div_mul_cancel hdvd

/-- The fraction field fits, and the exponent field is as large as the magnitude
asks for. -/
theorem fields_lt {n t : ℕ} (hn : n < 2 ^ (F.fractionBits + t)) :
    (F.fields n).1 ≤ t ∧ (F.fields n).2 < 2 ^ F.fractionBits := by
  by_cases hsmall : n < 2 ^ F.fractionBits
  · simp [fields, hsmall]
  obtain ⟨hle, hlo, hhi⟩ := F.log2_bounds hsmall
  set l := Nat.log2 n with hl
  have hlt : l < F.fractionBits + t := by
    by_contra hge
    have := Nat.pow_le_pow_right (n := 2) (by omega) (by omega : F.fractionBits + t ≤ l)
    omega
  have hquot : n / 2 ^ (l - F.fractionBits) < 2 ^ (F.fractionBits + 1) := by
    rw [Nat.div_lt_iff_lt_mul (by positivity), ← pow_add]
    simpa [show F.fractionBits + 1 + (l - F.fractionBits) = l + 1 by omega] using hhi
  simp only [fields, hsmall, if_false, ← hl]
  rw [pow_succ] at hquot
  have hpos : 0 < 2 ^ F.fractionBits := by positivity
  constructor
  · omega
  · generalize n / 2 ^ (l - F.fractionBits) = q at hquot
    omega

section Rescaled
variable {F} {G : Format} {k d e f : ℕ} (hbits : G.fractionBits = F.fractionBits + k)
include hbits

/-- A normal magnitude in a format with `k` more fraction bits and a bias larger by `d`. -/
theorem magnitudeOf_normal (he : e ≠ 0) :
    G.magnitudeOf (e + d) (f * 2 ^ k) = F.magnitudeOf e f * 2 ^ (k + d) := by
  have hexp : e + d - 1 = e - 1 + d := by omega
  rw [magnitudeOf, magnitudeOf, if_neg he, if_neg (by omega), hbits, hexp, pow_add, pow_add,
    pow_add]
  ring

/-- A subnormal magnitude becomes a normal one, with its leading bit `l` made implicit. -/
theorem magnitudeOf_subnormal {l : ℕ} (hlo : 2 ^ l ≤ f) (hl : l < F.fractionBits)
    (hd : F.fractionBits ≤ d) :
    G.magnitudeOf (l + 1 + d - F.fractionBits)
      (f * 2 ^ (G.fractionBits - l) - 2 ^ G.fractionBits) = F.magnitudeOf 0 f * 2 ^ (k + d) := by
  have hpow : 2 ^ l * 2 ^ (G.fractionBits - l) = 2 ^ G.fractionBits := by
    rw [← pow_add]
    congr 1
    omega
  have hle : 2 ^ G.fractionBits ≤ f * 2 ^ (G.fractionBits - l) := by
    rw [← hpow]
    exact Nat.mul_le_mul_right _ hlo
  have hunits : G.fractionBits - l + (l + 1 + d - F.fractionBits - 1) = k + d := by omega
  rw [magnitudeOf, magnitudeOf, if_neg (by omega), if_pos rfl, Nat.add_sub_cancel' hle,
    Nat.mul_assoc, ← pow_add, hunits]

end Rescaled

end Format

/-- The target holds every value of the source. -/
structure Widens (S T : Format) : Prop where
  fraction_le : S.fractionBits ≤ T.fractionBits
  exponent_pos : 2 ≤ S.exponentBits
  exponent_le : S.exponentBits ≤ T.exponentBits

theorem widens_16_64 : Widens binary16 binary64 := ⟨by decide, by decide, by decide⟩

section Widen
variable {S T : Format} (h : Widens S T) {w : ℕ}
include h

lemma scale_le : S.scale ≤ T.scale := by
  have h1 := h.fraction_le
  have h2 := Nat.pow_le_pow_right (n := 2) (by omega) (Nat.sub_le_sub_right h.exponent_le 1)
  simp only [Format.scale]
  omega

/-- A finite source magnitude, in target units, is below the target's top binade. -/
lemma widened_lt (hw : S.exponent w ≠ S.top) :
    S.magnitude w * 2 ^ (T.scale - S.scale) < 2 ^ (T.fractionBits + (T.top - 1)) := by
  have htop : S.exponent w ≤ S.top - 1 := by
    have hlt := S.exponent_lt w
    simp only [Format.top] at hw ⊢
    omega
  have hfrac := S.fraction_lt w
  have hmag : S.magnitude w < 2 ^ (S.fractionBits + (S.top - 1)) := by
    simp only [Format.magnitude, Format.magnitudeOf]
    split_ifs with h0
    · exact lt_of_lt_of_le hfrac (Nat.pow_le_pow_right (by omega) (by omega))
    · calc (2 ^ S.fractionBits + S.fraction w) * 2 ^ (S.exponent w - 1)
          < (2 ^ S.fractionBits + 2 ^ S.fractionBits) * 2 ^ (S.exponent w - 1) :=
            Nat.mul_lt_mul_of_pos_right (by omega) (by positivity)
        _ = 2 ^ (S.fractionBits + 1 + (S.exponent w - 1)) := by rw [pow_add, pow_succ]; ring
        _ ≤ _ := Nat.pow_le_pow_right (by omega) (by omega)
  have hexp : S.fractionBits + (S.top - 1) + (T.scale - S.scale) ≤
      T.fractionBits + (T.top - 1) := by
    have h1 := h.fraction_le
    have h2 := Nat.pow_le_pow_right (n := 2) (by omega) (Nat.sub_le_sub_right h.exponent_le 1)
    have h3 : 2 ≤ 2 ^ (S.exponentBits - 1) :=
      le_self_pow₀ (by norm_num) (by have := h.exponent_pos; omega)
    have hS : 2 ^ S.exponentBits = 2 * 2 ^ (S.exponentBits - 1) := by
      rw [← pow_succ']
      congr 1
      have := h.exponent_pos
      omega
    have hT : 2 ^ T.exponentBits = 2 * 2 ^ (T.exponentBits - 1) := by
      rw [← pow_succ']
      congr 1
      have := h.exponent_pos
      have := h.exponent_le
      omega
    simp only [Format.scale, Format.top]
    omega
  calc S.magnitude w * 2 ^ (T.scale - S.scale)
      < 2 ^ (S.fractionBits + (S.top - 1)) * 2 ^ (T.scale - S.scale) :=
        Nat.mul_lt_mul_of_pos_right hmag (by positivity)
    _ = 2 ^ (S.fractionBits + (S.top - 1) + (T.scale - S.scale)) := by rw [← pow_add]
    _ ≤ _ := Nat.pow_le_pow_right (by omega) hexp

lemma magnitude_fields :
    T.magnitudeOf (T.fields (S.magnitude w * 2 ^ (T.scale - S.scale))).1
      (T.fields (S.magnitude w * 2 ^ (T.scale - S.scale))).2 =
      S.magnitude w * 2 ^ (T.scale - S.scale) := by
  obtain ⟨m, k, hm, hmk⟩ : ∃ m k, m < 2 ^ (S.fractionBits + 1) ∧ S.magnitude w = m * 2 ^ k := by
    have hf := S.fraction_lt w
    rcases eq_or_ne (S.exponent w) 0 with h0 | h0
    · refine ⟨S.fraction w, 0, ?_, by simp [Format.magnitude, Format.magnitudeOf, h0]⟩
      rw [pow_succ]
      omega
    · refine ⟨2 ^ S.fractionBits + S.fraction w, S.exponent w - 1, ?_,
        by simp [Format.magnitude, Format.magnitudeOf, h0]⟩
      rw [pow_succ]
      omega
  have hm' : m < 2 ^ (T.fractionBits + 1) :=
    lt_of_lt_of_le hm (Nat.pow_le_pow_right (by omega) (by have := h.fraction_le; omega))
  rw [hmk, Nat.mul_assoc, ← pow_add]
  exact T.magnitudeOf_fields hm'

/-- The fields written for a finite word, with room below the infinities. -/
lemma widen_fields (hw : S.exponent w ≠ S.top) :
    ∃ e f, widen S T w = T.assemble (S.negative w) e f ∧ e < T.top ∧ f < 2 ^ T.fractionBits ∧
      T.magnitudeOf e f = S.magnitude w * 2 ^ (T.scale - S.scale) := by
  have hlt := T.fields_lt (widened_lt h hw)
  have htop : 1 ≤ T.top := by
    have h2 : 2 ^ 2 ≤ 2 ^ T.exponentBits :=
      Nat.pow_le_pow_right (by omega) (h.exponent_pos.trans h.exponent_le)
    simp only [Format.top]
    omega
  exact ⟨_, _, by simp [widen, hw], by omega, hlt.2, magnitude_fields h⟩

/-- Widening keeps the value of every word that is not a NaN. -/
theorem decode_widen (hn : S.isNan w = false) : T.decode (widen S T w) = S.decode w := by
  by_cases hw : S.exponent w = S.top
  · have hf : S.fraction w = 0 := by
      by_contra hf
      simp [Format.isNan, hw, hf] at hn
    have htop : T.top < 2 ^ T.exponentBits := by
      have : 0 < 2 ^ T.exponentBits := by positivity
      simp only [Format.top]
      omega
    have hpos : 0 < 2 ^ T.fractionBits := by positivity
    simp [widen, hw, hf, Format.decode, T.exponent_assemble htop hpos,
      T.fraction_assemble hpos, T.negative_assemble htop hpos]
  · obtain ⟨e, f, hwid, he, hf, hmag⟩ := widen_fields h hw
    have he' : e < 2 ^ T.exponentBits := by
      simp only [Format.top] at he
      omega
    have hexp := T.exponent_assemble (s := S.negative w) he' hf
    have hscale : T.scale = T.scale - S.scale + S.scale := by
      have := scale_le h
      omega
    rw [hwid, T.decode_finite (by omega), S.decode_finite hw, T.negative_assemble he' hf,
      Format.magnitude, hexp, T.fraction_assemble hf, hmag]
    congr 1
    push_cast
    have hk : (2 : ℚ) ^ (T.scale - S.scale) ≠ 0 := pow_ne_zero _ two_ne_zero
    rw [hscale, pow_add, Nat.add_sub_cancel, mul_comm ((2 : ℚ) ^ (T.scale - S.scale))]
    exact mul_div_mul_right _ _ hk

theorem widen_lt : widen S T w < T.bound := by
  have hpos : 0 < 2 ^ T.exponentBits := by positivity
  have htop : T.top < 2 ^ T.exponentBits := by
    simp only [Format.top]
    omega
  by_cases hw : S.exponent w = S.top
  · by_cases hf : S.fraction w = 0
    · simpa [widen, hw, hf] using T.assemble_lt htop (by positivity)
    · have hfrac : 2 ^ (T.fractionBits - 1) + S.fraction w % 2 ^ (S.fractionBits - 1) *
          2 ^ (T.fractionBits - S.fractionBits) < 2 ^ T.fractionBits := by
        have hS : S.fractionBits ≠ 0 := by
          intro h0
          have := S.fraction_lt w
          simp [h0] at this
          omega
        have hle := h.fraction_le
        have h1 : S.fraction w % 2 ^ (S.fractionBits - 1) * 2 ^ (T.fractionBits - S.fractionBits) <
            2 ^ (S.fractionBits - 1) * 2 ^ (T.fractionBits - S.fractionBits) :=
          Nat.mul_lt_mul_of_pos_right (Nat.mod_lt _ (by positivity)) (by positivity)
        rw [← pow_add, show S.fractionBits - 1 + (T.fractionBits - S.fractionBits) =
          T.fractionBits - 1 by omega] at h1
        have h2 : 2 ^ T.fractionBits = 2 * 2 ^ (T.fractionBits - 1) := by
          rw [← pow_succ']
          congr 1
          omega
        omega
      simpa [widen, hw, hf] using T.assemble_lt htop hfrac
  · obtain ⟨e, f, hwid, he, hf, _⟩ := widen_fields h hw
    rw [hwid]
    exact T.assemble_lt (by simp only [Format.top] at he; omega) hf

/-- A wide word with the value of a narrow one is its widening. -/
theorem widen_eq_of_decode_eq {v : ℕ} (hv : v < T.bound) (hn : S.isNan w = false)
    (he : S.decode w = T.decode v) : widen S T w = v := by
  have hd : T.decode (widen S T w) = T.decode v := (decode_widen h hn).trans he
  refine T.decode_inj (widen_lt h) hv hd ?_
  by_contra hnan
  have hS := (T.decode_eq_nan_iff _).mpr (by simpa using hnan)
  rw [decode_widen h hn] at hS
  simp [(S.decode_eq_nan_iff w).mp hS] at hn

end Widen

end Spex.BinaryFloat
