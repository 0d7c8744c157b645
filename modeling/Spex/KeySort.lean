import Mathlib.Data.List.Sort
import Mathlib.Tactic

/-!
# Stable sorting by a key

`sortOn` orders a list by a key and leaves entries with equal keys in their
original order. The lemmas say when two lists sort to the same result and how
sorting commutes with a map that preserves keys. `ShortLex` is the order that
compares byte strings by length first and then byte by byte.
-/
namespace Spex.KeySort

variable {α β κ : Type*}

/-- Stable sort of a list by `key`, for a comparison `le` of keys. -/
def sortOn (le : κ → κ → Prop) [DecidableRel le] (key : α → κ) (l : List α) : List α :=
  l.insertionSort (fun a b => le (key a) (key b))

section Stable
variable (le : κ → κ → Prop) [DecidableRel le]

theorem sortOn_perm (key : α → κ) (l : List α) : (sortOn le key l).Perm l :=
  List.perm_insertionSort _ l

@[simp] theorem mem_sortOn (key : α → κ) (l : List α) (x : α) :
    x ∈ sortOn le key l ↔ x ∈ l :=
  (sortOn_perm le key l).mem_iff

@[simp] theorem length_sortOn (key : α → κ) (l : List α) :
    (sortOn le key l).length = l.length := (sortOn_perm le key l).length_eq

/-- Sorting commutes with a map that keeps the key of every entry. -/
theorem map_sortOn (key : α → κ) (key' : β → κ) (f : α → β) (l : List α)
    (h : ∀ a ∈ l, key' (f a) = key a) :
    (sortOn le key l).map f = sortOn le key' (l.map f) := by
  apply List.map_insertionSort
  intro a ha b hb
  rw [h a ha, h b hb]

/-- A list that is already in order is left alone, entries with equal keys
included. -/
theorem sortOn_of_pairwise (key : α → κ) (l : List α)
    (h : l.Pairwise (fun a b => le (key a) (key b))) : sortOn le key l = l :=
  h.insertionSort_eq

/-- The entries of `l` whose key is equivalent to `k`, in their order in `l`. -/
def keyClass (key : α → κ) (k : κ) (l : List α) : List α :=
  l.filter fun a => le (key a) k ∧ le k (key a)

@[simp] theorem mem_keyClass {key : α → κ} {k : κ} {l : List α} {a : α} :
    a ∈ keyClass le key k l ↔ a ∈ l ∧ le (key a) k ∧ le k (key a) := by
  simp [keyClass]

variable [Std.Total le] [IsTrans κ le]

omit [DecidableRel le] [IsTrans κ le] in
/-- The comparison of keys, as one of entries. -/
theorem total_on (key : α → κ) : Std.Total fun a b : α => le (key a) (key b) :=
  ⟨fun a b => Std.Total.total (key a) (key b)⟩

omit [DecidableRel le] [Std.Total le] in
theorem trans_on (key : α → κ) : IsTrans α fun a b => le (key a) (key b) :=
  ⟨fun _ _ _ hab hbc => IsTrans.trans _ _ _ hab hbc⟩

theorem sortOn_pairwise (key : α → κ) (l : List α) :
    (sortOn le key l).Pairwise (fun a b => le (key a) (key b)) := by
  have := total_on le key
  have := trans_on le key
  exact List.pairwise_insertionSort _ l

/-- Sorting a sorted list changes nothing. -/
theorem sortOn_idem (key : α → κ) (l : List α) :
    sortOn le key (sortOn le key l) = sortOn le key l :=
  sortOn_of_pairwise le key _ (sortOn_pairwise le key l)

/-- With pairwise distinct keys the order of the input does not matter. -/
theorem sortOn_eq_of_perm [Std.Antisymm le] (key : α → κ) {l l' : List α}
    (hd : (l.map key).Nodup) (h : l.Perm l') : sortOn le key l = sortOn le key l' := by
  have hp : (sortOn le key l).Perm (sortOn le key l') :=
    (sortOn_perm le key l).trans (h.trans (sortOn_perm le key l').symm)
  refine List.Perm.eq_of_pairwise ?_ (sortOn_pairwise le key l) (sortOn_pairwise le key l') hp
  intro a b ha hb hab hba
  have hk : key a = key b := Std.Antisymm.antisymm _ _ hab hba
  have ha' : a ∈ l := (mem_sortOn le key l a).mp ha
  have hb' : b ∈ l := h.mem_iff.mpr ((mem_sortOn le key l' b).mp hb)
  exact List.inj_on_of_nodup_map hd ha' hb' hk

section Classes
variable {key : α → κ} {l l' : List α}

/-- Sorting keeps the order of the entries of a class. -/
theorem keyClass_sortOn (k : κ) : keyClass le key k (sortOn le key l) = keyClass le key k l := by
  have hclass : (keyClass le key k l).Pairwise fun a b => le (key a) (key b) := by
    refine List.pairwise_of_forall_mem_list fun a ha b hb => ?_
    exact IsTrans.trans _ _ _ ((mem_keyClass le).mp ha).2.1 ((mem_keyClass le).mp hb).2.2
  have := total_on le key
  have := trans_on le key
  have hsub : (keyClass le key k l).Sublist (sortOn le key l) :=
    List.sublist_insertionSort hclass List.filter_sublist
  have hfilter : (keyClass le key k l).Sublist (keyClass le key k (sortOn le key l)) := by
    have h := hsub.filter fun a => le (key a) k ∧ le k (key a)
    simpa [keyClass] using h
  have hlength : (keyClass le key k l).length = (keyClass le key k (sortOn le key l)).length :=
    ((sortOn_perm le key l).filter _).length_eq.symm
  exact (hfilter.eq_of_length hlength).symm

omit [IsTrans κ le] in
theorem mem_of_keyClass (h : ∀ k, keyClass le key k l = keyClass le key k l') {a : α}
    (ha : a ∈ l) : a ∈ l' := by
  have hself : le (key a) (key a) := (Std.Total.total (key a) (key a)).elim id id
  have hclass : a ∈ keyClass le key (key a) l := (mem_keyClass le).mpr ⟨ha, hself, hself⟩
  rw [h] at hclass
  exact ((mem_keyClass le).mp hclass).1

omit [DecidableRel le] [IsTrans κ le] in
theorem head_le {a b : α} (hl : (a :: l).Pairwise fun a b => le (key a) (key b))
    (hb : b ∈ a :: l) : le (key a) (key b) := by
  rcases List.mem_cons.mp hb with rfl | hb
  · exact (Std.Total.total _ _).elim id id
  · exact (List.pairwise_cons.mp hl).1 b hb

omit [IsTrans κ le] in
/-- A sorted list is determined by its classes. -/
theorem eq_of_keyClass (hl : l.Pairwise fun a b => le (key a) (key b))
    (hl' : l'.Pairwise fun a b => le (key a) (key b))
    (h : ∀ k, keyClass le key k l = keyClass le key k l') : l = l' := by
  induction l generalizing l' with
  | nil =>
    cases l' with
    | nil => rfl
    | cons b t =>
      have hb := mem_of_keyClass le (fun k => (h k).symm) (List.mem_cons_self (a := b))
      simp at hb
  | cons a s ih =>
    cases l' with
    | nil =>
      have ha := mem_of_keyClass le h (List.mem_cons_self (a := a))
      simp at ha
    | cons b t =>
      have hab : le (key a) (key b) :=
        head_le le hl (mem_of_keyClass le (fun k => (h k).symm) List.mem_cons_self)
      have hba : le (key b) (key a) := head_le le hl' (mem_of_keyClass le h List.mem_cons_self)
      have haa : le (key a) (key a) := head_le le hl List.mem_cons_self
      have heq : a = b := by
        have hclass := h (key a)
        simp [keyClass, haa, hab, hba] at hclass
        exact hclass.1
      subst heq
      rw [ih (List.pairwise_cons.mp hl).2 (List.pairwise_cons.mp hl').2]
      intro k
      have hk := h k
      simp only [keyClass, List.filter_cons] at hk ⊢
      split at hk
      · exact (List.cons.inj hk).2
      · exact hk

/-- Two lists sort to the same result exactly if entries with equivalent keys stand in
the same order in both. -/
theorem sortOn_eq_iff :
    sortOn le key l = sortOn le key l' ↔ ∀ k, keyClass le key k l = keyClass le key k l' := by
  constructor
  · intro h k
    rw [← keyClass_sortOn, h, keyClass_sortOn]
  · intro h
    refine eq_of_keyClass le (sortOn_pairwise le key l) (sortOn_pairwise le key l') fun k => ?_
    rw [keyClass_sortOn, keyClass_sortOn, h k]

end Classes

end Stable

/-- Shorter strings first, strings of one length byte by byte. -/
def ShortLex (a b : List UInt8) : Prop :=
  a.length < b.length ∨ a.length = b.length ∧ a ≤ b

instance : DecidableRel ShortLex := fun a b =>
  inferInstanceAs (Decidable (a.length < b.length ∨ a.length = b.length ∧ a ≤ b))

instance : Std.Total ShortLex where
  total a b := by
    rcases Nat.lt_trichotomy a.length b.length with h | h | h
    · exact .inl (.inl h)
    · rcases List.le_total a b with hle | hle
      · exact .inl (.inr ⟨h, hle⟩)
      · exact .inr (.inr ⟨h.symm, hle⟩)
    · exact .inr (.inl h)

instance : IsTrans (List UInt8) ShortLex where
  trans a b c hab hbc := by
    rcases hab with h | ⟨h, hle⟩ <;> rcases hbc with h' | ⟨h', hle'⟩
    · exact .inl (by omega)
    · exact .inl (by omega)
    · exact .inl (by omega)
    · exact .inr ⟨by omega, List.le_trans hle hle'⟩

instance : Std.Antisymm ShortLex where
  antisymm a b hab hba := by
    rcases hab with h | ⟨h, hle⟩ <;> rcases hba with h' | ⟨h', hle'⟩
    · omega
    · omega
    · omega
    · exact List.le_antisymm hle hle'

/-- Among sorted keys, repeats are next to each other: a sorted list whose
neighbours differ is strictly increasing. -/
theorem pairwise_strict_of_chain {le : κ → κ → Prop} [IsTrans κ le] [Std.Antisymm le]
    {l : List κ} (hs : l.Pairwise le) (hc : l.IsChain (· ≠ ·)) :
    l.Pairwise (fun a b => le a b ∧ a ≠ b) := by
  induction l with
  | nil => exact .nil
  | cons a l ih =>
    obtain ⟨ha, hl⟩ := List.pairwise_cons.mp hs
    refine .cons ?_ (ih hl (List.IsChain.tail hc))
    intro b hb
    refine ⟨ha b hb, ?_⟩
    rintro rfl
    cases l with
    | nil => simp at hb
    | cons c l =>
      have hac : a ≠ c := (List.isChain_cons_cons.mp hc).1
      rcases List.mem_cons.mp hb with h | h
      · exact hac h
      · have hca : le c a := (List.pairwise_cons.mp hl).1 a h
        exact hac (Std.Antisymm.antisymm _ _ (ha c (by simp)) hca)

end Spex.KeySort
