import Spex.Fallible

/-!
# Batches of computations that can fail

A batch runs a computation on every item of a list. One form gives up the whole
batch when an item fails; another keeps the results that come before the first
failure.
-/
namespace Spex.Batch
open Fallible

universe u v
variable {ε : Type u} {α β γ : Type v} {f : α → Except ε β} {xs : List α} {bs : List β}

theorem mapM_of_forall (h : ∀ x ∈ xs, (f x).isOk = true) : ∃ bs, xs.mapM f = .ok bs := by
  induction xs with
  | nil => exact ⟨[], rfl⟩
  | cons x xs ih =>
    rw [List.forall_mem_cons] at h
    obtain ⟨b, hb⟩ := isOk_iff.mp h.1
    obtain ⟨bs, hbs⟩ := ih h.2
    exact ⟨b :: bs, by rw [List.mapM_cons, hb, ok_bind, hbs, ok_bind]; rfl⟩

theorem mapM_succeeds_iff : (∃ bs, xs.mapM f = .ok bs) ↔ ∀ x ∈ xs, ∃ b, f x = .ok b := by
  constructor
  · intro h x hx
    obtain ⟨bs, hbs⟩ := h
    obtain ⟨b, -, hb⟩ := exists_mem_of_forall₂ (mapM_eq_ok.mp hbs) hx
    exact ⟨b, hb⟩
  · intro h
    exact mapM_of_forall fun x hx => isOk_iff.mpr (h x hx)

theorem mapM_congr {g : α → Except ε β} (h : ∀ x ∈ xs, f x = g x) : xs.mapM f = xs.mapM g := by
  induction xs with
  | nil => rfl
  | cons x xs ih =>
    rw [List.forall_mem_cons] at h
    rw [List.mapM_cons, List.mapM_cons, h.1, ih h.2]

theorem mem_of_mapM (h : xs.mapM f = .ok bs) : ∀ x ∈ xs, ∃ b ∈ bs, f x = .ok b :=
  fun _ hx => exists_mem_of_forall₂ (mapM_eq_ok.mp h) hx

theorem of_mem_mapM (h : xs.mapM f = .ok bs) : ∀ b ∈ bs, ∃ x ∈ xs, f x = .ok b :=
  fun _ hb => exists_mem_of_forall₂ (mapM_eq_ok.mp h).flip hb

theorem mapM_map (g : β → γ) (f : α → Except ε β) (xs : List α) :
    xs.mapM (fun x => (f x).map g) = (xs.mapM f).map (List.map g) := by
  induction xs with
  | nil => rfl
  | cons x xs ih =>
    rw [List.mapM_cons, List.mapM_cons, ih]
    cases f x with
    | error err => rfl
    | ok b => cases xs.mapM f <;> rfl

theorem mapM_comp (g : γ → α) (f : α → Except ε β) (cs : List γ) :
    (cs.map g).mapM f = cs.mapM fun c => f (g c) := by
  induction cs with
  | nil => rfl
  | cons c cs ih => rw [List.map_cons, List.mapM_cons, List.mapM_cons, ih]

/-- Either all items of a batch succeed or none does. -/
def Uniform (f : α → Except ε β) (xs : List α) : Prop :=
  (∀ x ∈ xs, (f x).isOk = true) ∨ ∀ x ∈ xs, (f x).isOk = false

/-- A batch that gives up loses nothing exactly if its items succeed or fail together. -/
theorem uniform_iff : Uniform f xs ↔
    ∀ x ∈ xs, ∀ b, f x = .ok b → ∃ bs, xs.mapM f = .ok bs ∧ b ∈ bs := by
  constructor
  · rintro (hall | hnone) x hx b hb
    · obtain ⟨bs, hbs⟩ := mapM_of_forall hall
      obtain ⟨b', hmem, hb'⟩ := mem_of_mapM hbs x hx
      exact ⟨bs, hbs, Except.ok.inj (hb.symm.trans hb') ▸ hmem⟩
    · have hfails := hnone x hx
      rw [hb] at hfails
      cases hfails
  · intro hkept
    cases hbatch : xs.mapM f with
    | ok bs =>
      refine .inl fun x hx => ?_
      obtain ⟨b, -, hb⟩ := mem_of_mapM hbatch x hx
      exact isOk_iff.mpr ⟨b, hb⟩
    | error err =>
      refine .inr fun x hx => ?_
      rw [← Bool.not_eq_true, isOk_iff]
      rintro ⟨b, hb⟩
      obtain ⟨bs, hbs, -⟩ := hkept x hx b hb
      cases hbatch.symm.trans hbs

/-- What would be returned on its own is among the returned, or it is left. -/
def Kept {γ : Type*} (alone : γ → β → Prop) (staged left : List γ) (returned : List β → Prop) :
    Prop :=
  ∀ c ∈ staged, ∀ b, alone c b → (∃ bs, returned bs ∧ b ∈ bs) ∨ c ∈ left

/-- A batch over the items that can be read, with nothing left behind. -/
theorem kept_iff {γ : Type*} {alone : γ → β → Prop} {staged : List γ} {returned : List β → Prop}
    (read : γ → Option α) (halone : ∀ c b, alone c b ↔ ∃ a, read c = some a ∧ f a = .ok b)
    (hreturned : ∀ bs, returned bs ↔ (staged.filterMap read).mapM f = .ok bs) :
    Kept alone staged [] returned ↔ Uniform f (staged.filterMap read) := by
  rw [uniform_iff]
  constructor
  · intro hkept a ha b hb
    obtain ⟨c, hc, hread⟩ := List.mem_filterMap.mp ha
    rcases hkept c hc b ((halone c b).mpr ⟨a, hread, hb⟩) with ⟨bs, hbs, hmem⟩ | hleft
    · exact ⟨bs, (hreturned bs).mp hbs, hmem⟩
    · simp at hleft
  · intro huniform c hc b hb
    obtain ⟨a, hread, hb⟩ := (halone c b).mp hb
    obtain ⟨bs, hbs, hmem⟩ := huniform a (List.mem_filterMap.mpr ⟨c, hc, hread⟩) b hb
    exact .inl ⟨bs, (hreturned bs).mpr hbs, hmem⟩

/-- The results before the first failure. -/
def untilFailure (f : α → Except ε β) : List α → List β
  | [] => []
  | x :: xs =>
    match f x with
    | .ok b => b :: untilFailure f xs
    | .error _ => []

theorem untilFailure_cons_of_ok {x : α} {b : β} (h : f x = .ok b) :
    untilFailure f (x :: xs) = b :: untilFailure f xs := by rw [untilFailure, h]

theorem untilFailure_cons_of_error {x : α} {err : ε} (h : f x = .error err) :
    untilFailure f (x :: xs) = [] := by rw [untilFailure, h]

/-- The results of a batch, wherever the failures are. -/
def results (f : α → Except ε β) (xs : List α) : List β := xs.filterMap fun x => (f x).toOption

theorem untilFailure_sublist (f : α → Except ε β) (xs : List α) :
    (untilFailure f xs).Sublist (results f xs) := by
  induction xs with
  | nil => exact .slnil
  | cons x xs ih =>
    unfold results at ih ⊢
    cases hx : f x with
    | ok b =>
      rw [untilFailure_cons_of_ok hx, List.filterMap_cons_some (by rw [hx]; rfl)]
      exact ih.cons_cons b
    | error err =>
      rw [untilFailure_cons_of_error hx]
      exact List.nil_sublist _

theorem untilFailure_of_forall (h : ∀ x ∈ xs, (f x).isOk = true) :
    untilFailure f xs = results f xs := by
  induction xs with
  | nil => rfl
  | cons x xs ih =>
    rw [List.forall_mem_cons] at h
    obtain ⟨b, hb⟩ := isOk_iff.mp h.1
    rw [untilFailure_cons_of_ok hb, ih h.2, results, results,
      List.filterMap_cons_some (by rw [hb]; rfl)]

theorem untilFailure_map (g : β → γ) (f : α → Except ε β) (xs : List α) :
    untilFailure (fun x => (f x).map g) xs = (untilFailure f xs).map g := by
  induction xs with
  | nil => rfl
  | cons x xs ih =>
    cases hx : f x with
    | ok b =>
      have hmap : (f x).map g = .ok (g b) := by rw [hx]; rfl
      rw [untilFailure_cons_of_ok hx, untilFailure_cons_of_ok hmap, ih, List.map_cons]
    | error err =>
      have hmap : (f x).map g = .error err := by rw [hx]; rfl
      rw [untilFailure_cons_of_error hx, untilFailure_cons_of_error hmap, List.map_nil]

theorem untilFailure_comp (g : γ → α) (f : α → Except ε β) (cs : List γ) :
    untilFailure f (cs.map g) = untilFailure (fun c => f (g c)) cs := by
  induction cs with
  | nil => rfl
  | cons c cs ih => cases hc : f (g c) <;> simp [untilFailure, hc, ih]

/-- Two stages one after the other have the results of the stages together. -/
theorem results_of_mapM (h : xs.mapM f = .ok bs) (g : β → Except ε γ) :
    results g bs = results (fun x => f x >>= g) xs := by
  rw [mapM_eq_ok] at h
  induction h with
  | nil => rfl
  | cons hb _ ih =>
    unfold results at ih ⊢
    simp only [List.filterMap_cons, ih, hb, ok_bind]

end Spex.Batch
