import Mathlib.Data.List.Perm.Subperm
import Mathlib.Tactic

/-!
# Quotas over sliding windows

Charges with a key, a time and a size. A list of charges is within a quota if in
every window of the given span each key has at most a number of charges and a
total size. A charge may be added if the charges of its key since the start of
the last window that can hold it leave room for it.
-/
namespace Spex.Quota

structure Charge (κ : Type*) where
  key : κ
  time : ℤ
  size : ℕ

structure Limits where
  span : ℕ
  maxCount : ℕ
  maxSize : ℕ

variable {κ : Type*} [DecidableEq κ] {limits : Limits} {charges charges' : List (Charge κ)}

def size (charges : List (Charge κ)) : ℕ := (charges.map Charge.size).sum

def window (span : ℕ) (key : κ) (start : ℕ) (charges : List (Charge κ)) : List (Charge κ) :=
  charges.filter fun charge =>
    charge.key = key ∧ (start : ℤ) ≤ charge.time ∧ charge.time ≤ start + span

def since (key : κ) (start : ℤ) (charges : List (Charge κ)) : List (Charge κ) :=
  charges.filter fun charge => charge.key = key ∧ start ≤ charge.time

def Within (limits : Limits) (charges : List (Charge κ)) : Prop :=
  ∀ key start, (window limits.span key start charges).length ≤ limits.maxCount ∧
    size (window limits.span key start charges) ≤ limits.maxSize

/-- There is room for one more charge of the given size. -/
def Room (limits : Limits) (charges : List (Charge κ)) (extra : ℕ) : Prop :=
  charges.length + 1 ≤ limits.maxCount ∧ size charges + extra ≤ limits.maxSize

omit [DecidableEq κ] in
theorem size_append (charges charges' : List (Charge κ)) :
    size (charges ++ charges') = size charges + size charges' := by
  simp [size]

omit [DecidableEq κ] in
theorem size_le_of_subperm (h : charges.Subperm charges') : size charges ≤ size charges' := by
  obtain ⟨between, hperm, hsub⟩ := h
  calc size charges = size between := (hperm.map Charge.size).sum_eq.symm
    _ ≤ size charges' := (hsub.map Charge.size).sum_le_sum fun _ _ => Nat.zero_le _

theorem since_append (key : κ) (start : ℤ) (charges charges' : List (Charge κ)) :
    since key start (charges ++ charges') = since key start charges ++ since key start charges' :=
  List.filter_append ..

theorem Within.of_subperm (h : Within limits charges') (hsub : charges.Subperm charges') :
    Within limits charges := by
  intro key start
  have hwindow : (window limits.span key start charges).Subperm
      (window limits.span key start charges') := hsub.filter _
  exact ⟨hwindow.length_le.trans (h key start).1,
    (size_le_of_subperm hwindow).trans (h key start).2⟩

theorem Within.of_total (hcount : charges.length ≤ limits.maxCount)
    (hsize : size charges ≤ limits.maxSize) : Within limits charges := by
  intro key start
  have hsub : (window limits.span key start charges).Sublist charges := List.filter_sublist
  exact ⟨hsub.length_le.trans hcount, (size_le_of_subperm hsub.subperm).trans hsize⟩

/-- Every window that holds the charge starts at or after `start`. -/
theorem Within.cons {charge : Charge κ} {start : ℤ} (h : Within limits charges)
    (hstart : ∀ t : ℕ, charge.time ≤ t + limits.span → start ≤ t)
    (hroom : Room limits (since charge.key start charges) charge.size) :
    Within limits (charge :: charges) := by
  intro key t
  by_cases hin : charge.key = key ∧ (t : ℤ) ≤ charge.time ∧ charge.time ≤ t + limits.span
  · have hsub : (window limits.span key t charges).Sublist (since charge.key start charges) := by
      refine List.monotone_filter_right _ fun other hother => ?_
      simp only [decide_eq_true_eq] at hother ⊢
      exact ⟨hother.1.trans hin.1.symm, (hstart t hin.2.2).trans hother.2.1⟩
    have hsize := size_le_of_subperm hsub.subperm
    rw [window, List.filter_cons_of_pos (by simpa using hin), ← window]
    refine ⟨(Nat.succ_le_succ hsub.length_le).trans hroom.1, ?_⟩
    calc size (charge :: window limits.span key t charges)
        = charge.size + size (window limits.span key t charges) := by simp [size]
      _ ≤ limits.maxSize := by have := hroom.2; omega
  · rw [window, List.filter_cons_of_neg (by simpa using hin)]
    exact h key t

/-- Charges to a few keys, each charged at most so often. -/
theorem length_le_mul_card [BEq κ] [LawfulBEq κ] {keys : List κ} {known : Finset κ} {n : ℕ}
    (hknown : ∀ key ∈ keys, key ∈ known) (hcount : ∀ key, keys.count key ≤ n) :
    keys.length ≤ n * known.card := by
  have hsubset : keys.toFinset ⊆ known := fun key hkey => hknown key (List.mem_toFinset.mp hkey)
  calc keys.length = ∑ key ∈ keys.toFinset, keys.count key := by
        convert (List.sum_toFinset_count_eq_length keys).symm
    _ ≤ ∑ key ∈ keys.toFinset, n := Finset.sum_le_sum fun key _ => hcount key
    _ = n * keys.toFinset.card := by rw [Finset.sum_const, smul_eq_mul, Nat.mul_comm]
    _ ≤ n * known.card := Nat.mul_le_mul_left n (Finset.card_le_card hsubset)

end Spex.Quota
