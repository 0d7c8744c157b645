import Mathlib.Tactic

/-!
# Saturating arithmetic on machine words

Sums and products stop at the largest word and differences at zero, so a
comparison with a saturated bound never accepts more than the exact one.
-/
namespace Spex.Saturating

def add (a b : UInt64) : UInt64 :=
  if a.toNat + b.toNat < 2 ^ 64 then a + b else UInt64.ofNat (2 ^ 64 - 1)

def sub (a b : UInt64) : UInt64 := if b ≤ a then a - b else 0

def add32 (a b : UInt32) : UInt32 := UInt32.ofNat (min (a.toNat + b.toNat) (2 ^ 32 - 1))

def mul32 (a b : UInt32) : UInt32 := UInt32.ofNat (min (a.toNat * b.toNat) (2 ^ 32 - 1))

theorem toNat_add (a b : UInt64) : (add a b).toNat = min (a.toNat + b.toNat) (2 ^ 64 - 1) := by
  unfold add
  split_ifs with h
  · rw [UInt64.toNat_add]
    omega
  · rw [UInt64.toNat_ofNat']
    omega

theorem toNat_sub (a b : UInt64) : (sub a b).toNat = a.toNat - b.toNat := by
  unfold sub
  split_ifs with h
  · exact UInt64.toNat_sub_of_le a b h
  · rw [UInt64.le_iff_toNat_le] at h
    rw [UInt64.toNat_zero]
    omega

theorem toNat_add32 (a b : UInt32) :
    (add32 a b).toNat = min (a.toNat + b.toNat) (2 ^ 32 - 1) := by
  rw [add32, UInt32.toNat_ofNat']
  omega

theorem toNat_mul32 (a b : UInt32) :
    (mul32 a b).toNat = min (a.toNat * b.toNat) (2 ^ 32 - 1) := by
  rw [mul32, UInt32.toNat_ofNat']
  omega

theorem le_add32 (a b : UInt32) : a ≤ add32 a b := by
  have hlt := a.toNat_lt
  rw [UInt32.le_iff_toNat_le, toNat_add32]
  omega

theorem one_le_add32_one (a : UInt32) : 1 ≤ add32 a 1 := by
  rw [UInt32.le_iff_toNat_le, toNat_add32]
  simp

theorem le_mul32 (a : UInt32) {b : UInt32} (h : 1 ≤ b) : a ≤ mul32 a b := by
  have hlt := a.toNat_lt
  rw [UInt32.le_iff_toNat_le, toNat_mul32]
  have hmul : a.toNat ≤ a.toNat * b.toNat :=
    Nat.le_mul_of_pos_right _ (UInt32.le_iff_toNat_le.mp h)
  omega

end Spex.Saturating
