import Mathlib.Data.List.Basic
import Mathlib.Tactic

/-!
# Lists that grow without repeats

An element is appended to a list only when the list does not hold it yet. The
lemmas say which list a run of such appends gives, that the first occurrences of
the elements commute with appends and with filters, and when removing listed
elements one occurrence at a time removes them altogether.
-/
namespace Spex.Roster

variable {α : Type*} [DecidableEq α] {l : List α} {x : α}

def pushNew (l : List α) (x : α) : List α := if x ∈ l then l else l ++ [x]

def pushAll (l xs : List α) : List α := xs.foldl pushNew l

/-- The first occurrences of the elements of a list, in order. -/
def firsts (l : List α) : List α := pushAll [] l

theorem pushNew_of_mem (h : x ∈ l) : pushNew l x = l := if_pos h

theorem pushNew_of_not_mem (h : x ∉ l) : pushNew l x = l ++ [x] := if_neg h

@[simp] theorem mem_pushNew {y : α} : x ∈ pushNew l y ↔ x ∈ l ∨ x = y := by
  by_cases h : y ∈ l
  · rw [pushNew_of_mem h]
    exact ⟨.inl, fun hx => hx.elim id fun e => e ▸ h⟩
  · simp [pushNew_of_not_mem h]

@[simp] theorem pushAll_nil (l : List α) : pushAll l [] = l := rfl

@[simp] theorem pushAll_cons (l : List α) (x : α) (xs : List α) :
    pushAll l (x :: xs) = pushAll (pushNew l x) xs := rfl

theorem pushAll_append (l xs ys : List α) :
    pushAll l (xs ++ ys) = pushAll (pushAll l xs) ys := List.foldl_append

@[simp] theorem mem_pushAll {xs : List α} : x ∈ pushAll l xs ↔ x ∈ l ∨ x ∈ xs := by
  induction xs generalizing l with
  | nil => simp
  | cons y xs ih => simp [ih, or_assoc]

@[simp] theorem mem_firsts : x ∈ firsts l ↔ x ∈ l := by simp [firsts]

theorem firsts_append (l xs : List α) : firsts (l ++ xs) = pushAll (firsts l) xs :=
  pushAll_append [] l xs

theorem firsts_pushNew (l : List α) (x : α) : firsts (pushNew l x) = pushNew (firsts l) x := by
  by_cases h : x ∈ l
  · rw [pushNew_of_mem h, pushNew_of_mem (mem_firsts.mpr h)]
  · rw [pushNew_of_not_mem h, firsts_append]
    rfl

theorem firsts_pushAll (l xs : List α) : firsts (pushAll l xs) = pushAll (firsts l) xs := by
  induction xs generalizing l with
  | nil => rfl
  | cons x xs ih => rw [pushAll_cons, ih, firsts_pushNew, pushAll_cons]

theorem filter_pushNew (p : α → Bool) (l : List α) (x : α) :
    (pushNew l x).filter p = pushAll (l.filter p) ([x].filter p) := by
  by_cases hx : p x <;> by_cases hl : x ∈ l
  · simp [hx, pushNew_of_mem hl, pushNew_of_mem (List.mem_filter.mpr ⟨hl, hx⟩)]
  · have hf : x ∉ l.filter p := fun h => hl (List.mem_filter.mp h).1
    simp [hx, pushNew_of_not_mem hl, pushNew_of_not_mem hf]
  · simp [hx, pushNew_of_mem hl]
  · simp [hx, pushNew_of_not_mem hl]

theorem filter_pushAll (p : α → Bool) (l xs : List α) :
    (pushAll l xs).filter p = pushAll (l.filter p) (xs.filter p) := by
  induction xs generalizing l with
  | nil => rfl
  | cons x xs ih =>
    rw [pushAll_cons, ih, filter_pushNew, ← pushAll_append, ← List.filter_append]
    rfl

theorem filter_firsts (p : α → Bool) (l : List α) : (firsts l).filter p = firsts (l.filter p) :=
  filter_pushAll p [] l

/-- What a run of appends adds: the new elements, each once. -/
theorem pushAll_eq (l xs : List α) :
    pushAll l xs = l ++ firsts (xs.filter (· ∉ l)) := by
  induction xs using List.reverseRecOn with
  | nil => simp [firsts]
  | append_singleton xs x ih =>
    rw [pushAll_append, ih, List.filter_append, firsts_append]
    generalize firsts (xs.filter (· ∉ l)) = news
    by_cases h : x ∈ l
    · simp [h, pushNew_of_mem]
    · by_cases hx : x ∈ news
      · simp [h, pushNew_of_mem hx, pushNew_of_mem (List.mem_append_right l hx)]
      · have happ : x ∉ l ++ news := by simp [h, hx]
        simp [h, pushNew_of_not_mem hx, pushNew_of_not_mem happ]

theorem count_pushNew_le (l : List α) (x y : α) :
    (pushNew l y).count x ≤ max (l.count x) 1 := by
  by_cases h : y ∈ l
  · rw [pushNew_of_mem h]
    exact le_max_left _ _
  · rw [pushNew_of_not_mem h, List.count_append, List.count_singleton]
    by_cases hxy : y = x
    · subst hxy
      simp [List.count_eq_zero_of_not_mem h]
    · simp [hxy]

theorem count_pushAll_le (l xs : List α) (x : α) :
    (pushAll l xs).count x ≤ max (l.count x) 1 := by
  induction xs generalizing l with
  | nil => exact le_max_left _ _
  | cons y xs ih =>
    have hstep := count_pushNew_le l x y
    have hrest := ih (pushNew l y)
    rw [pushAll_cons]
    omega

theorem nodup_pushAll (h : l.Nodup) (xs : List α) : (pushAll l xs).Nodup := by
  rw [List.nodup_iff_count_le_one] at h ⊢
  intro x
  exact (count_pushAll_le l xs x).trans (max_le (h x) le_rfl)

/-- Dropping listed elements one after the other drops all of them. -/
theorem foldl_retain (l xs : List α) :
    xs.foldl (fun l x => l.filter (· ≠ x)) l = l.filter (· ∉ xs) := by
  induction xs generalizing l with
  | nil => simp
  | cons x xs ih =>
    rw [List.foldl_cons, ih, List.filter_filter]
    apply List.filter_congr
    intro a _
    by_cases ha : a = x <;> simp [ha]

lemma filter_erase_of_not {p : α → Bool} (hx : p x = false) (l : List α) :
    (l.erase x).filter p = l.filter p := by
  induction l with
  | nil => rfl
  | cons a l ih =>
    by_cases h : a = x
    · subst h
      simp [hx]
    · rw [List.erase_cons_tail (by simpa using h), List.filter_cons, List.filter_cons, ih]

lemma erase_eq_filter (h : l.count x ≤ 1) : l.erase x = l.filter (· ≠ x) := by
  induction l with
  | nil => rfl
  | cons a l ih =>
    by_cases ha : a = x
    · subst ha
      rw [List.count_cons_self] at h
      have hnot : a ∉ l := List.count_eq_zero.mp (by omega)
      rw [List.erase_cons_head, List.filter_cons_of_neg (by simp)]
      symm
      rw [List.filter_eq_self]
      intro b hb
      have hne : b ≠ a := ne_of_mem_of_not_mem hb hnot
      simpa using hne
    · rw [List.count_cons_of_ne ha] at h
      rw [List.erase_cons_tail (by simpa using ha), ih h,
        List.filter_cons_of_pos (by simpa using ha)]

/-- Removing one occurrence for each listed element removes the listed elements
altogether when each is listed at least as often as it occurs. -/
theorem diff_eq_filter {xs : List α} (h : ∀ x ∈ xs, l.count x ≤ xs.count x) :
    l.diff xs = l.filter (· ∉ xs) := by
  induction xs generalizing l with
  | nil => simp
  | cons y xs ih =>
    have hrest : ∀ x ∈ xs, (l.erase y).count x ≤ xs.count x := by
      intro x hx
      have hl := h x (List.mem_cons_of_mem y hx)
      rw [List.count_cons] at hl
      rw [List.count_erase]
      by_cases hy : y = x
      · subst hy
        simp at hl ⊢
        omega
      · simp [hy] at hl ⊢
        omega
    rw [List.diff_cons, ih hrest]
    by_cases hy : y ∈ xs
    · rw [filter_erase_of_not (by simpa using hy)]
      apply List.filter_congr
      intro a _
      by_cases ha : a = y <;> simp [ha, hy]
    · have hone : l.count y ≤ 1 := by
        have := h y List.mem_cons_self
        rwa [List.count_cons_self, List.count_eq_zero.mpr hy] at this
      rw [erase_eq_filter hone, List.filter_filter]
      apply List.filter_congr
      intro a _
      by_cases ha : a = y <;> simp [ha]

end Spex.Roster
