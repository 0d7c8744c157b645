import Mathlib.Data.Set.Insert
import Mathlib.Logic.Function.Basic
import Mathlib.Tactic

/-!
# Replicas that count epochs

Replicas start with one value and change it epoch by epoch. A change is announced
with the epoch it leads to, and another replica takes it over when it stands one
epoch earlier. A replica may announce a change for an epoch that others have
already announced one for, if all these changes do the same to its value. Then
the epoch determines the value: two replicas, or a replica and an earlier record
of one, that are at the same epoch hold the same value.
-/
namespace Spex.Replication

variable {ι α γ : Type*}

/-- Where every replica stands, the changes announced with the epochs they lead
to, and the positions recorded on the way. -/
@[ext] structure Replicas (ι α γ : Type*) where
  epoch : ι → ℕ
  value : ι → α
  announced : Set (ℕ × γ)
  recorded : Set (ℕ × α)

/-- Everything that is known at an epoch is the value that the history has there,
and every epoch reached since the origin was announced. -/
structure Follows (act : γ → α → α) (origin : ℕ) (history : ℕ → α) (s : Replicas ι α γ) :
    Prop where
  value : ∀ i, s.value i = history (s.epoch i)
  announced : ∀ n c, (n, c) ∈ s.announced →
    (∃ m, n = m + 1 ∧ act c (history m) = history n) ∧ ∃ i, n ≤ s.epoch i
  recorded : ∀ n v, (n, v) ∈ s.recorded → v = history n ∧ ∃ i, n ≤ s.epoch i
  since : ∀ i, origin ≤ s.epoch i
  reached : ∀ i n, origin < n → n ≤ s.epoch i → ∃ c, (n, c) ∈ s.announced

variable {act : γ → α → α} {origin : ℕ} {history : ℕ → α} {s s' : Replicas ι α γ}

namespace Follows

theorem start (act : γ → α → α) (origin : ℕ) (v : α) : Follows act origin (fun _ => v)
    (⟨fun _ => origin, fun _ => v, ∅, ∅⟩ : Replicas ι α γ) where
  value _ := rfl
  announced _ _ h := h.elim
  recorded _ _ h := h.elim
  since _ := le_rfl
  reached _ _ hlt hle := absurd hle (not_le.mpr hlt)

/-- A change that is announced leads where the history is. -/
theorem act_eq (h : Follows act origin history s) {i : ι} {c : γ}
    (hmem : (s.epoch i + 1, c) ∈ s.announced) :
    act c (history (s.epoch i)) = history (s.epoch i + 1) := by
  obtain ⟨⟨m, hm, hact⟩, -⟩ := h.announced _ c hmem
  rwa [← Nat.succ.inj hm] at hact

/-- An epoch for which nothing is announced has not been reached by anyone. -/
theorem epoch_le (h : Follows act origin history s) {i : ι}
    (hnew : ∀ c, (s.epoch i + 1, c) ∉ s.announced) (j : ι) : s.epoch j ≤ s.epoch i := by
  by_contra hlt
  push Not at hlt
  obtain ⟨c, hc⟩ := h.reached j (s.epoch i + 1) (Nat.lt_succ_of_le (h.since i)) hlt
  exact hnew c hc

/-- The history beyond the epochs reached is free. -/
theorem congr (h : Follows act origin history s) {history' : ℕ → α} {last : ℕ}
    (hlast : ∀ j, s.epoch j ≤ last) (heq : ∀ n ≤ last, history' n = history n) :
    Follows act origin history' s where
  value i := by rw [h.value i, heq _ (hlast i)]
  announced n c hmem := by
    obtain ⟨⟨m, rfl, hact⟩, j, hle⟩ := h.announced n c hmem
    have hn := hle.trans (hlast j)
    refine ⟨⟨m, rfl, ?_⟩, j, hle⟩
    rw [heq m (Nat.le_of_succ_le hn), heq _ hn, hact]
  recorded n v hmem := by
    obtain ⟨hval, j, hle⟩ := h.recorded n v hmem
    exact ⟨by rw [hval, heq n (hle.trans (hlast j))], j, hle⟩
  since := h.since
  reached := h.reached

theorem record (h : Follows act origin history s) (i : ι) : Follows act origin history
    { s with recorded := insert (s.epoch i, s.value i) s.recorded } where
  value := h.value
  announced := h.announced
  recorded n v hmem := by
    rcases hmem with heq | hmem
    · obtain ⟨rfl, rfl⟩ := Prod.mk.inj heq
      exact ⟨h.value i, i, le_rfl⟩
    · exact h.recorded n v hmem
  since := h.since
  reached := h.reached

end Follows

variable [DecidableEq ι]

/-- A replica moves to the next epoch by a change that everybody then knows. -/
def Replicas.advance (act : γ → α → α) (s : Replicas ι α γ) (i : ι) (c : γ) : Replicas ι α γ where
  epoch := Function.update s.epoch i (s.epoch i + 1)
  value := Function.update s.value i (act c (s.value i))
  announced := insert (s.epoch i + 1, c) s.announced
  recorded := s.recorded

inductive Step (act : γ → α → α) (s : Replicas ι α γ) : Replicas ι α γ → Prop
  | announce (i : ι) (c : γ) (hagree : ∀ c', (s.epoch i + 1, c') ∈ s.announced →
      act c' (s.value i) = act c (s.value i)) : Step act s (s.advance act i c)
  | deliver (i : ι) (c : γ) (hmem : (s.epoch i + 1, c) ∈ s.announced) :
    Step act s (s.advance act i c)
  | record (i : ι) :
    Step act s { s with recorded := insert (s.epoch i, s.value i) s.recorded }
  | idle : Step act s s

theorem le_epoch_advance (i : ι) (c : γ) (j : ι) :
    s.epoch j ≤ (s.advance act i c).epoch j := by
  by_cases hj : j = i
  · subst hj
    simp [Replicas.advance]
  · simp [Replicas.advance, hj]

/-- A replica may change its value when the change leads where the history is. -/
theorem Follows.advance (h : Follows act origin history s) {i : ι} {c : γ}
    (hvalue : act c (history (s.epoch i)) = history (s.epoch i + 1)) :
    Follows act origin history (s.advance act i c) where
  value j := by
    rw [Replicas.advance]
    dsimp only
    by_cases hj : j = i
    · rw [hj, Function.update_self, Function.update_self, h.value i, hvalue]
    · rw [Function.update_of_ne hj, Function.update_of_ne hj, h.value j]
  announced n c' hmem := by
    rcases hmem with heq | hmem
    · obtain ⟨rfl, rfl⟩ := Prod.mk.inj heq
      exact ⟨⟨_, rfl, hvalue⟩, i, by simp [Replicas.advance]⟩
    · obtain ⟨hact, j, hle⟩ := h.announced n c' hmem
      exact ⟨hact, j, hle.trans (le_epoch_advance i c j)⟩
  recorded n v hmem := by
    obtain ⟨hval, j, hle⟩ := h.recorded n v hmem
    exact ⟨hval, j, hle.trans (le_epoch_advance i c j)⟩
  since j := (h.since j).trans (le_epoch_advance i c j)
  reached j n hlt hle := by
    rw [Replicas.advance] at hle ⊢
    dsimp only at hle ⊢
    by_cases hj : j = i
    · rw [hj, Function.update_self] at hle
      rcases Nat.le_succ_iff.mp hle with hle | rfl
      · exact (h.reached i n hlt hle).imp fun _ => Set.mem_insert_of_mem _
      · exact ⟨c, Set.mem_insert _ _⟩
    · rw [Function.update_of_ne hj] at hle
      exact (h.reached j n hlt hle).imp fun _ => Set.mem_insert_of_mem _

/-- A history that all replicas follow extends to one that they follow after a
step. -/
theorem exists_follows (h : ∃ history, Follows act origin history s) (hstep : Step act s s') :
    ∃ history, Follows act origin history s' := by
  obtain ⟨history, h⟩ := h
  cases hstep with
  | announce i c hagree =>
    by_cases hold : ∃ c', (s.epoch i + 1, c') ∈ s.announced
    · obtain ⟨c', hc'⟩ := hold
      refine ⟨history, h.advance ?_⟩
      rw [← h.value i, ← hagree c' hc', h.value i, h.act_eq hc']
    · push Not at hold
      refine ⟨Function.update history (s.epoch i + 1) (act c (s.value i)), ?_⟩
      have hfree : ∀ n ≤ s.epoch i, Function.update history (s.epoch i + 1)
          (act c (s.value i)) n = history n :=
        fun n hn => Function.update_of_ne (Nat.lt_succ_of_le hn).ne _ _
      refine (h.congr (h.epoch_le hold) hfree).advance ?_
      rw [hfree _ le_rfl, Function.update_self, h.value i]
  | deliver i c hmem => exact ⟨history, h.advance (h.act_eq hmem)⟩
  | record i => exact ⟨history, h.record i⟩
  | idle => exact ⟨history, h⟩

end Spex.Replication
