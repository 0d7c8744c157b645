import Mathlib.Tactic

/-!
# Computations that return an error

Rules for `Except` blocks: how a bind runs when its first part is known, and
what follows about the parts when the whole has succeeded. A call that changes a
state answers with a result and the state it leaves behind.
-/
namespace Spex.Fallible

universe u v
variable {ε : Type u} {α β : Type v} {x : Except ε α} {f : α → Except ε β} {b : β} {a : α}
  {xs : List α} {ys : List β}

/-- How a call can fail: with an error it returns, or by a panic. -/
inductive Fault (ε : Type u) where
  | returned (error : ε)
  | panicked
  deriving DecidableEq, Repr

def Fault.map {ε' : Type u} (f : ε → ε') : Fault ε → Fault ε'
  | .returned error => .returned (f error)
  | .panicked => .panicked

/-- The state a call leaves behind, if it succeeded. -/
def settled {α σ : Type v} (r : Except ε α × σ) : Except ε σ := r.1.map fun _ => r.2

@[simp] theorem ok_bind (a : α) (f : α → Except ε β) : (Except.ok a >>= f) = f a := rfl

@[simp] theorem error_bind (e : ε) (f : α → Except ε β) :
    (Except.error e >>= f) = Except.error e := rfl

/-- A sequence succeeds exactly when both its parts do. -/
theorem bind_eq_ok : (x >>= f) = .ok b ↔ ∃ a, x = .ok a ∧ f a = .ok b := by
  cases x <;> simp

theorem pure_eq_ok {b : α} : (pure a : Except ε α) = .ok b ↔ a = b :=
  Except.ok.injEq a b ▸ Iff.rfl

/-- Every value that a computation returns has a property. -/
def Ensures (P : α → Prop) (x : Except ε α) : Prop := ∀ a, x = .ok a → P a

theorem Ensures.bind {P : β → Prop} (h : ∀ a, x = .ok a → Ensures P (f a)) :
    Ensures P (x >>= f) := by
  intro b hb
  obtain ⟨a, ha, hb⟩ := bind_eq_ok.mp hb
  exact h a ha b hb

theorem Ensures.pure {P : α → Prop} (h : P a) : Ensures P (pure a : Except ε α) :=
  fun _ hb => pure_eq_ok.mp hb ▸ h

theorem toOption_eq_some : x.toOption = some a ↔ x = .ok a := by
  cases x <;> simp [Except.toOption]

theorem isOk_iff : x.isOk = true ↔ ∃ a, x = .ok a := by
  cases x <;> simp [Except.isOk, Except.toBool]

theorem check_bind_eq_ok {x : Except ε PUnit} {y : Except ε β} :
    (x >>= fun _ => y) = .ok b ↔ x = .ok ⟨⟩ ∧ y = .ok b := by
  cases x <;> simp

/-- Go on only if a condition holds. -/
def require (p : Prop) [Decidable p] (error : ε) : Except ε Unit :=
  if p then .ok () else .error error

theorem require_eq_ok {p : Prop} [Decidable p] {error : ε} {u : Unit} :
    require p error = .ok u ↔ p := by
  unfold require
  split_ifs with h <;> simp [h]

/-- Renaming errors does not touch success. -/
theorem mapError_eq_ok {ε' : Type u} {f : ε → ε'} : x.mapError f = .ok a ↔ x = .ok a := by
  cases x <;> simp [Except.mapError]

theorem map_eq_ok {f : α → β} : x.map f = .ok b ↔ ∃ a, x = .ok a ∧ f a = b := by
  cases x <;> simp [Except.map]

section Returns
variable {x : Except (Fault ε) α}

/-- A computation that does not panic. -/
def Returns (x : Except (Fault ε) α) : Prop := x ≠ .error .panicked

theorem Returns.bind {f : α → Except (Fault ε) β} (h : Returns x) (hf : ∀ a, Returns (f a)) :
    Returns (x >>= f) := by
  cases x with
  | ok a => exact hf a
  | error fault => exact fun hpanic => h (congrArg Except.error (Except.error.inj hpanic))

/-- A sequence returns exactly if its first part does and its second part does where it is
reached. -/
theorem returns_bind_iff {f : α → Except (Fault ε) β} :
    Returns (x >>= f) ↔ Returns x ∧ ∀ a, x = .ok a → Returns (f a) := by
  cases x with
  | ok a => simp [Returns]
  | error fault => simp [Returns]

theorem returns_mapError {ε' : Type u} {f : ε' → Fault ε} (hf : ∀ error, f error ≠ .panicked)
    (y : Except ε' α) : Returns (y.mapError f) := by
  cases y with
  | ok a => simp [Returns, Except.mapError]
  | error error => simp [Returns, Except.mapError, hf error]

theorem Returns.mapM {γ : Type v} {f : γ → Except (Fault ε) α} (hf : ∀ c, Returns (f c))
    (xs : List γ) : Returns (xs.mapM f) := by
  induction xs with
  | nil => simp [Returns, pure, Except.pure]
  | cons c xs ih =>
    rw [List.mapM_cons]
    exact (hf c).bind fun a => ih.bind fun as => by simp [Returns, pure, Except.pure]

theorem Returns.error_of_not_ok (h : Returns x) (hfails : ¬ ∃ a, x = .ok a) :
    ∃ error, x = .error (.returned error) := by
  cases x with
  | ok a => exact absurd ⟨a, rfl⟩ hfails
  | error fault =>
    cases fault with
    | returned error => exact ⟨error, rfl⟩
    | panicked => exact absurd rfl h

end Returns

theorem exists_mem_of_forall₂ {R : α → β → Prop} (h : List.Forall₂ R xs ys) {x : α}
    (hx : x ∈ xs) : ∃ y ∈ ys, R x y := by
  induction h with
  | nil => simp at hx
  | @cons a b _ _ hab _ ih =>
    rcases List.mem_cons.mp hx with rfl | hx
    · exact ⟨b, by simp, hab⟩
    · obtain ⟨y, hy, hxy⟩ := ih hx
      exact ⟨y, by simp [hy], hxy⟩

/-- A loop that collects results succeeds exactly when every turn does. -/
theorem mapM_eq_ok : xs.mapM f = .ok ys ↔ List.Forall₂ (fun x y => f x = .ok y) xs ys := by
  induction xs generalizing ys with
  | nil =>
    rw [List.mapM_nil, List.forall₂_nil_left_iff]
    exact ⟨fun h => (Except.ok.inj h).symm, fun h => by rw [h]; rfl⟩
  | cons x xs ih =>
    rw [List.mapM_cons, bind_eq_ok]
    constructor
    · rintro ⟨y, hy, h⟩
      obtain ⟨zs, hzs, h⟩ := bind_eq_ok.mp h
      rw [← Except.ok.inj h]
      exact .cons hy (ih.mp hzs)
    · intro h
      cases h with
      | @cons _ y _ zs hy hzs => exact ⟨y, hy, bind_eq_ok.mpr ⟨zs, ih.mpr hzs, rfl⟩⟩

theorem mapM_map_eq_ok {γ : Type v} {g : β → γ} {zs : List γ} :
    xs.mapM (fun x => (f x).map g) = .ok zs ↔ ∃ ys, xs.mapM f = .ok ys ∧ ys.map g = zs := by
  induction xs generalizing zs with
  | nil => simp [pure_eq_ok]
  | cons x xs ih =>
    simp only [List.mapM_cons, bind_eq_ok, ih, map_eq_ok, pure_eq_ok]
    constructor
    · rintro ⟨_, ⟨y, hy, rfl⟩, _, ⟨ys, hys, rfl⟩, rfl⟩
      exact ⟨y :: ys, ⟨y, hy, ys, hys, rfl⟩, rfl⟩
    · rintro ⟨_, ⟨y, hy, ys, hys, rfl⟩, rfl⟩
      exact ⟨g y, ⟨y, hy, rfl⟩, ys.map g, ⟨ys, hys, rfl⟩, rfl⟩

/-- A loop whose turns can be told apart by their results. -/
theorem mapM_inj (hf : ∀ a a' b, f a = .ok b → f a' = .ok b → a = a') {xs' : List α}
    (h : xs.mapM f = .ok ys) (h' : xs'.mapM f = .ok ys) : xs = xs' := by
  rw [mapM_eq_ok] at h h'
  exact List.left_unique_forall₂' (fun a a' b ha ha' => hf a a' b ha ha') h h'

theorem mapM_replicate_ok (h : f a = .ok b) (n : ℕ) :
    (List.replicate n a).mapM f = .ok (List.replicate n b) := by
  rw [mapM_eq_ok]
  induction n with
  | zero => exact .nil
  | succ n ih => exact .cons h ih

end Spex.Fallible
