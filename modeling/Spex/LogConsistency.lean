import Spex.CheckpointLog

/-!
# Comparing checkpoint logs

What `compare_with` answers for two logs, and what the answer says about the logs
that further appends lead to.
-/
namespace Spex

/-- The answer of the other log to the same comparison. -/
def LogConsistency.mirror : LogConsistency → LogConsistency
  | .identical => .identical
  | .localBehind => .localAhead
  | .localAhead => .localBehind
  | .diverged => .diverged

section Entries
variable {α : Type} {xs ys : List α}

/-- Comparing pair by pair is enough when the first list is not the longer one. -/
theorem zip_all_iff [DecidableEq α] (h : xs.length ≤ ys.length) :
    ((xs.zip ys).all fun pair => decide (pair.1 = pair.2)) = true ↔ xs <+: ys := by
  induction xs generalizing ys with
  | nil => simp
  | cons x xs ih =>
    cases ys with
    | nil => simp at h
    | cons y ys => simp [ih (Nat.le_of_succ_le_succ h), List.cons_prefix_cons]

/-- Two lists differ at an index that both have. -/
def Differ (xs ys : List α) : Prop := ∃ (i : ℕ) (x y : α), xs[i]? = some x ∧ ys[i]? = some y ∧ x ≠ y

theorem Differ.symm (h : Differ xs ys) : Differ ys xs := by
  obtain ⟨i, x, y, hx, hy, hne⟩ := h
  exact ⟨i, y, x, hy, hx, hne.symm⟩

theorem Differ.not_isPrefix (h : Differ xs ys) : ¬ xs <+: ys := by
  obtain ⟨i, x, y, hx, hy, hne⟩ := h
  rintro ⟨rest, rfl⟩
  have hlt : i < xs.length := (List.getElem?_eq_some_iff.mp hx).1
  rw [List.getElem?_append_left hlt, hx] at hy
  exact hne (Option.some.inj hy)

theorem Differ.extend {more more' : List α} (h : Differ xs ys) :
    Differ (xs ++ more) (ys ++ more') := by
  obtain ⟨i, x, y, hx, hy, hne⟩ := h
  have hxs : i < xs.length := (List.getElem?_eq_some_iff.mp hx).1
  have hys : i < ys.length := (List.getElem?_eq_some_iff.mp hy).1
  refine ⟨i, x, y, ?_, ?_, hne⟩
  · rw [List.getElem?_append_left hxs, hx]
  · rw [List.getElem?_append_left hys, hy]

theorem differ_of_not_isPrefix (h : ¬ xs <+: ys) (hle : xs.length ≤ ys.length) : Differ xs ys := by
  rw [List.prefix_iff_getElem?] at h
  push Not at h
  obtain ⟨i, hi, hne⟩ := h
  have hy : ys[i]? = some ys[i] := List.getElem?_eq_getElem (by omega)
  refine ⟨i, xs[i], ys[i], List.getElem?_eq_getElem hi, hy, fun heq => hne ?_⟩
  rw [hy, heq]

/-- Lists differ at a common index exactly when neither begins with the other. -/
theorem differ_iff : Differ xs ys ↔ ¬ xs <+: ys ∧ ¬ ys <+: xs := by
  constructor
  · exact fun h => ⟨h.not_isPrefix, h.symm.not_isPrefix⟩
  · rintro ⟨hxs, hys⟩
    rcases Nat.le_total xs.length ys.length with hle | hle
    · exact differ_of_not_isPrefix hxs hle
    · exact (differ_of_not_isPrefix hys hle).symm

theorem eq_of_isPrefix_of_isPrefix (h : xs <+: ys) (h' : ys <+: xs) : xs = ys :=
  h.eq_of_length_le h'.length_le

end Entries

namespace CheckpointLog
variable {log other next : CheckpointLog}

theorem isPrefixOf_iff : log.isPrefixOf other = true ↔ log.entries <+: other.entries := by
  unfold isPrefixOf
  split_ifs with h
  · simp only [false_iff]
    intro hpre
    exact absurd hpre.length_le (by omega)
  · exact zip_all_iff (by omega)

theorem compareWith_identical_iff :
    log.compareWith other = .identical ↔ log.entries = other.entries := by
  unfold compareWith
  split_ifs with heq <;> simp [heq]

theorem compareWith_localBehind_iff :
    log.compareWith other = .localBehind ↔
      log.entries <+: other.entries ∧ log.entries ≠ other.entries := by
  rw [← isPrefixOf_iff]
  unfold compareWith
  split_ifs with heq hpre
  · simp [heq]
  · simp [heq, hpre]
  · simp [hpre]
  · simp [hpre]

theorem compareWith_diverged_iff :
    log.compareWith other = .diverged ↔ Differ log.entries other.entries := by
  rw [differ_iff, ← isPrefixOf_iff, ← isPrefixOf_iff]
  unfold compareWith
  split_ifs with heq hpre hother
  · simp [isPrefixOf_iff, heq]
  · simp [hpre]
  · simp [hother]
  · simp [hpre, hother]

theorem compareWith_mirror (log other : CheckpointLog) :
    other.compareWith log = (log.compareWith other).mirror := by
  by_cases heq : log.entries = other.entries
  · rw [compareWith_identical_iff.mpr heq, compareWith_identical_iff.mpr heq.symm]
    rfl
  · have hpre : log.isPrefixOf other = true → other.isPrefixOf log = false := by
      intro hlog
      rw [← Bool.not_eq_true, isPrefixOf_iff]
      exact fun hother => heq (eq_of_isPrefix_of_isPrefix (isPrefixOf_iff.mp hlog) hother)
    unfold compareWith
    rw [if_neg heq, if_neg (Ne.symm heq)]
    split_ifs with hother hlog
    · rw [hpre hlog] at hother
      exact absurd hother (by simp)
    · rfl
    · rfl
    · rfl

theorem compareWith_localAhead_iff :
    log.compareWith other = .localAhead ↔
      other.entries <+: log.entries ∧ other.entries ≠ log.entries := by
  rw [← compareWith_localBehind_iff, compareWith_mirror log other]
  cases log.compareWith other <;> simp [LogConsistency.mirror]

section Later
variable (sha256 : Bytes → Bytes)

/-- The states that a log can pass through after appends. -/
inductive Later (log : CheckpointLog) : CheckpointLog → Prop
  | refl : Later log log
  | append {next : CheckpointLog} (entry : CheckpointEntry) :
      Later log next → Later log (next.append sha256 entry).2
  | appendWithRoot {next : CheckpointLog} (entry : CheckpointEntry) :
      Later log next → Later log (next.appendWithRoot sha256 entry).2

variable {sha256}

theorem ensureMerkleState_entries (sha256 : Bytes → Bytes) (log : CheckpointLog) :
    (log.ensureMerkleState sha256).2.entries = log.entries := by
  unfold ensureMerkleState rebuildMerkleState
  split_ifs
  · rfl
  · split <;> rfl

theorem prefix_appendWithRoot (log : CheckpointLog) (entry : CheckpointEntry) :
    log.entries <+: (log.appendWithRoot sha256 entry).2.entries := by
  rw [← ensureMerkleState_entries sha256 log]
  unfold appendWithRoot
  rcases log.ensureMerkleState sha256 with ⟨err | _, ensured⟩
  · exact List.prefix_refl _
  · cases leafHash sha256 entry with
    | error err => exact List.prefix_refl _
    | ok leaf => exact List.prefix_append _ _

/-- Entries are never removed or changed. -/
theorem prefix_of_later (h : Later sha256 log next) : log.entries <+: next.entries := by
  induction h with
  | refl => exact List.prefix_refl _
  | append entry _ ih => exact ih.trans (prefix_appendWithRoot _ entry)
  | appendWithRoot entry _ ih => exact ih.trans (prefix_appendWithRoot _ entry)

/-- The comparison is exact, the other log sees its mirror image, and appends cannot
undo a divergence. -/
theorem compareWith_exact (sha256 : Bytes → Bytes) (log other : CheckpointLog) :
    (log.compareWith other = .identical ↔ log.entries = other.entries) ∧
    (log.compareWith other = .localBehind ↔
      log.entries <+: other.entries ∧ log.entries ≠ other.entries) ∧
    (log.compareWith other = .localAhead ↔
      other.entries <+: log.entries ∧ other.entries ≠ log.entries) ∧
    (log.compareWith other = .diverged ↔ Differ log.entries other.entries) ∧
    other.compareWith log = (log.compareWith other).mirror ∧
    (log.compareWith other = .diverged → ∀ log' other', Later sha256 log log' →
      Later sha256 other other' → log'.compareWith other' = .diverged) ∧
    (∀ log', Later sha256 log log' →
      log.compareWith log' = .identical ∨ log.compareWith log' = .localBehind) := by
  refine ⟨compareWith_identical_iff, compareWith_localBehind_iff, compareWith_localAhead_iff,
    compareWith_diverged_iff, compareWith_mirror log other, ?_, ?_⟩
  · intro hdiverged log' other' hlog hother
    obtain ⟨more, hmore⟩ := prefix_of_later hlog
    obtain ⟨more', hmore'⟩ := prefix_of_later hother
    rw [compareWith_diverged_iff] at hdiverged ⊢
    rw [← hmore, ← hmore']
    exact hdiverged.extend
  · intro log' hlater
    rw [compareWith_identical_iff, compareWith_localBehind_iff]
    by_cases heq : log.entries = log'.entries
    · exact .inl heq
    · exact .inr ⟨prefix_of_later hlater, heq⟩

end Later

end CheckpointLog

end Spex
