import Spex.GroupRecovery

/-!
# How a received epoch is classified

A received epoch is compared with the group's own epoch and with the one after it. The
epoch after is computed modulo `2 ^ 64`, so at the last epoch of the counter it is zero:
the first epoch then counts as the next one, and any other is stale with zero as the
epoch that was expected.
-/
namespace Spex

/-- The epoch that a classification reports as expected. -/
def EpochGap.expectedEpoch : EpochGap → Option UInt64
  | .current => none
  | .next => none
  | .stale expected _ => some expected
  | .gap expected _ _ => some expected

section Ranges

theorem pairwise_epochRange (start stop : UInt64) :
    (epochRange start stop).Pairwise (· < ·) := by
  have hsorted : ((epochRange start stop).map UInt64.toNat).Pairwise (· < ·) := by
    rw [Group.toNat_epochRange]
    exact List.pairwise_lt_range'
  rw [List.pairwise_map] at hsorted
  exact hsorted.imp UInt64.lt_iff_toNat_lt.mpr

end Ranges

section Classification
variable {localEpoch receivedEpoch : UInt64}

/-- Below the last epoch the comparisons are those of the integers. -/
theorem detectEpochGap_of_lt (h : localEpoch.toNat + 1 < 2 ^ 64) :
    detectEpochGap localEpoch receivedEpoch =
      if receivedEpoch.toNat = localEpoch.toNat then .current
      else if receivedEpoch.toNat = localEpoch.toNat + 1 then .next
      else if receivedEpoch.toNat < localEpoch.toNat then .stale (localEpoch + 1) receivedEpoch
      else .gap (localEpoch + 1) receivedEpoch (epochRange (localEpoch + 1) receivedEpoch) := by
  unfold detectEpochGap
  simp only [← UInt64.toNat_inj, UInt64.lt_iff_toNat_lt, toNat_succ_of_lt h]

end Classification

end Spex
