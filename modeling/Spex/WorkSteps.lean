import Spex.StoredRows

/-!
# Work that grows with the volume

The volume of an identity's recent requests raises the work it has to do, its reputation
lowers it. The number of steps is cut to 32 bits before it is added to the base
parameters, so more volume asks for at least as much work unless the cut drops a carry.
-/
namespace Spex.Bridge

/-- The second snapshot has at least the volume of the first and no more reputation. -/
structure Busier (snapshot busier : RateLimitSnapshot) : Prop where
  recentRequests : snapshot.recentRequests ≤ busier.recentRequests
  recentBytes : snapshot.recentBytes ≤ busier.recentBytes
  reputationScore : busier.reputationScore ≤ snapshot.reputationScore

/-- The steps of 20 requests or 262144 bytes that are not covered by 25 points each. -/
def uncoveredSteps (snapshot : RateLimitSnapshot) : ℕ :=
  max (snapshot.recentRequests / 20) (snapshot.recentBytes / 262144) -
    snapshot.reputationScore.toNat / 25

theorem toNat_requiredMemory (snapshot : RateLimitSnapshot) :
    (requiredPowParams snapshot {}).memoryKib.toNat =
      min (65536 * min (uncoveredSteps snapshot % 2 ^ 32 + 1) (2 ^ 32 - 1)) (2 ^ 32 - 1) := by
  show (Saturating.mul32 (64 * 1024)
    (Saturating.add32 (UInt32.ofNat (uncoveredSteps snapshot)) 1)).toNat = _
  rw [Saturating.toNat_mul32, Saturating.toNat_add32, UInt32.toNat_ofNat']
  rfl

theorem toNat_requiredIterations (snapshot : RateLimitSnapshot) :
    (requiredPowParams snapshot {}).iterations.toNat =
      min (3 + uncoveredSteps snapshot % 2 ^ 32) (2 ^ 32 - 1) := by
  show (Saturating.add32 3 (UInt32.ofNat (uncoveredSteps snapshot))).toNat = _
  rw [Saturating.toNat_add32, UInt32.toNat_ofNat']
  rfl

/-- The memory grows with the steps that are left, and is at its bound long before they
are. -/
theorem memory_mono {steps steps' : ℕ} (h : steps ≤ steps' ∨ 2 ^ 32 - 4 ≤ steps') :
    min (65536 * min (steps + 1) (2 ^ 32 - 1)) (2 ^ 32 - 1) ≤
      min (65536 * min (steps' + 1) (2 ^ 32 - 1)) (2 ^ 32 - 1) := by
  rcases h with hle | hlarge
  · have hsucc : steps + 1 ≤ steps' + 1 := by omega
    exact min_le_min_right _ (Nat.mul_le_mul_left _ (min_le_min_right _ hsucc))
  · have hbound : 2 ^ 16 ≤ min (steps' + 1) (2 ^ 32 - 1) := by omega
    have hproduct : 2 ^ 32 - 1 ≤ 65536 * min (steps' + 1) (2 ^ 32 - 1) :=
      le_trans (by norm_num) (Nat.mul_le_mul_left 65536 hbound)
    rw [min_eq_right hproduct]
    exact min_le_right _ _

/-- The required work is compared by the steps that are left after the cut. -/
theorem atLeast_required_iff (snapshot other : RateLimitSnapshot) :
    AtLeast (requiredPowParams snapshot {}) (requiredPowParams other {}) ↔
      uncoveredSteps snapshot % 2 ^ 32 ≤ uncoveredSteps other % 2 ^ 32 ∨
        2 ^ 32 - 4 ≤ uncoveredSteps other % 2 ^ 32 := by
  have hlt : uncoveredSteps snapshot % 2 ^ 32 < 2 ^ 32 := Nat.mod_lt _ (by positivity)
  constructor
  · intro h
    have hle := UInt32.le_iff_toNat_le.mp h.iterations
    rw [toNat_requiredIterations, toNat_requiredIterations] at hle
    omega
  · intro h
    refine ⟨UInt32.le_iff_toNat_le.mpr ?_, UInt32.le_iff_toNat_le.mpr ?_, UInt32.le_refl _,
      UInt64.le_refl _⟩
    · rw [toNat_requiredMemory, toNat_requiredMemory]
      exact memory_mono h
    · rw [toNat_requiredIterations, toNat_requiredIterations]
      omega

/-- With the default limits no work is below the base parameters, and a busier identity
works at least as much exactly if the cut to 32 bits keeps the order of the steps or
leaves so many that the work is at its bound. -/
theorem required_work_monotone_iff (snapshot busier : RateLimitSnapshot) :
    ((Busier snapshot busier →
        AtLeast (requiredPowParams snapshot {}) (requiredPowParams busier {})) ∧
      AtLeast .minimum (requiredPowParams snapshot {}) ∧
      AtLeast .minimum (requiredPowParams busier {})) ↔
    (Busier snapshot busier →
      uncoveredSteps snapshot % 2 ^ 32 ≤ uncoveredSteps busier % 2 ^ 32 ∨
        2 ^ 32 - 4 ≤ uncoveredSteps busier % 2 ^ 32) := by
  rw [← atLeast_required_iff]
  exact and_iff_left ⟨minimum_atLeast_required snapshot {}, minimum_atLeast_required busier {}⟩

/-- Eighty-six thousand million requests ask for less work than twenty. -/
theorem required_work_drops :
    Busier ⟨20, 0, 0⟩ ⟨20 * 2 ^ 32, 0, 0⟩ ∧
      ¬ AtLeast (requiredPowParams ⟨20, 0, 0⟩ {}) (requiredPowParams ⟨20 * 2 ^ 32, 0, 0⟩ {}) ∧
      20 * 2 ^ 32 < 2 ^ 64 := by
  refine ⟨⟨by norm_num, le_refl _, le_refl _⟩, ?_, by norm_num⟩
  rw [atLeast_required_iff]
  norm_num [uncoveredSteps]

end Spex.Bridge
