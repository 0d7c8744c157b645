import Mathlib.Tactic

/-!
# Selecting from a list by marks

The elements of a list whose mark is set, and the place that an element has among
them. Changing an element changes the selection at its place, or not at all.
-/
namespace Spex.Selection

variable {α : Type*} {marks : List Bool} {xs : List α} {index : ℕ}

def select : List Bool → List α → List α
  | true :: marks, x :: xs => x :: select marks xs
  | false :: marks, _ :: xs => select marks xs
  | _, _ => []

/-- The number of marks set before a place. -/
def rank (marks : List Bool) (index : ℕ) : ℕ := (marks.take index).count true

@[simp] theorem select_nil (marks : List Bool) : select marks ([] : List α) = [] := by
  cases marks with
  | nil => rfl
  | cons mark marks => cases mark <;> rfl

@[simp] theorem rank_zero (marks : List Bool) : rank marks 0 = 0 := by simp [rank]

@[simp] theorem rank_cons_succ (mark : Bool) (marks : List Bool) (index : ℕ) :
    rank (mark :: marks) (index + 1) = rank marks index + mark.toNat := by
  cases mark <;> simp [rank]

theorem select_append {marks' : List Bool} {xs' : List α} (h : marks.length = xs.length) :
    select (marks ++ marks') (xs ++ xs') = select marks xs ++ select marks' xs' := by
  induction marks generalizing xs with
  | nil =>
    obtain rfl : xs = [] := List.length_eq_zero_iff.mp h.symm
    rfl
  | cons mark marks ih =>
    cases xs with
    | nil => simp at h
    | cons x xs =>
      have hlength : marks.length = xs.length := by simpa using h
      cases mark <;> simp [select, ih hlength]

theorem select_map (p : α → Bool) (xs : List α) : select (xs.map p) xs = xs.filter p := by
  induction xs with
  | nil => rfl
  | cons x xs ih => cases hmark : p x <;> simp [select, hmark, ih]

/-- The selection holds an element at its place. -/
theorem select_getElem? (h : marks[index]? = some true) :
    (select marks xs)[rank marks index]? = xs[index]? := by
  induction marks generalizing xs index with
  | nil => simp at h
  | cons mark marks ih =>
    cases xs with
    | nil => simp
    | cons x xs =>
      cases index with
      | zero =>
        obtain rfl : mark = true := by simpa using h
        simp [select]
      | succ index =>
        have hmark : marks[index]? = some true := by simpa using h
        cases mark <;> simp [select, ih hmark]

/-- Writing at an index changes the selection only where the index is marked. -/
theorem select_set_of_mark {mark : Bool} (x : α) (h : marks[index]? = some mark) :
    select marks (xs.set index x) =
      if mark then (select marks xs).set (rank marks index) x else select marks xs := by
  induction marks generalizing xs index with
  | nil => simp at h
  | cons first marks ih =>
    cases xs with
    | nil => simp
    | cons y xs =>
      cases index with
      | zero =>
        obtain rfl : first = mark := by simpa using h
        cases first <;> simp [select]
      | succ index =>
        have hmark : marks[index]? = some mark := by simpa using h
        cases first <;> cases mark <;> simp [select, ih hmark]

theorem select_set (x : α) (h : marks[index]? = some true) :
    select marks (xs.set index x) = (select marks xs).set (rank marks index) x := by
  rw [select_set_of_mark x h, if_pos rfl]

theorem select_set_of_false (x : α) (h : marks[index]? = some false) :
    select marks (xs.set index x) = select marks xs := by
  rw [select_set_of_mark x h, if_neg Bool.false_ne_true]

end Spex.Selection
