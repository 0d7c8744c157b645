import Mathlib.Tactic

/-!
# Overlaying one finite map on another

`overlay base upper` inserts every entry of `upper` into `base`, in key order. An
entry of `upper` wins; elsewhere `base` is unchanged.
-/
namespace Spex.Overlay

variable {κ α : Type*} {cmp : κ → κ → Ordering} [Std.TransCmp cmp]

def overlay (base upper : Std.ExtTreeMap κ α cmp) : Std.ExtTreeMap κ α cmp :=
  upper.foldl (fun map key value => map.insert key value) base

variable [Std.LawfulEqCmp cmp]

theorem getElem?_insert_ne {map : Std.ExtTreeMap κ α cmp} {j k : κ} {v : α} (h : j ≠ k) :
    (map.insert j v)[k]? = map[k]? := by
  rw [Std.ExtTreeMap.getElem?_insert, if_neg]
  exact fun he => h (Std.LawfulEqCmp.eq_of_compare he)

lemma foldl_insert_of_notMem (l : List (κ × α)) {k : κ} (h : k ∉ l.map Prod.fst)
    (map : Std.ExtTreeMap κ α cmp) :
    (l.foldl (fun m e => m.insert e.1 e.2) map)[k]? = map[k]? := by
  induction l generalizing map with
  | nil => rfl
  | cons e l ih =>
    rw [List.map_cons, List.mem_cons, not_or] at h
    rw [List.foldl_cons, ih h.2, getElem?_insert_ne (Ne.symm h.1)]

lemma foldl_insert_of_mem {l : List (κ × α)} (hd : (l.map Prod.fst).Nodup) {k : κ} {v : α}
    (h : (k, v) ∈ l) (map : Std.ExtTreeMap κ α cmp) :
    (l.foldl (fun m e => m.insert e.1 e.2) map)[k]? = some v := by
  induction l generalizing map with
  | nil => simp at h
  | cons e l ih =>
    rw [List.map_cons, List.nodup_cons] at hd
    rw [List.foldl_cons]
    rcases List.mem_cons.mp h with rfl | h
    · rw [foldl_insert_of_notMem l hd.1, Std.ExtTreeMap.getElem?_insert_self]
    · exact ih hd.2 h _

theorem keys_nodup (map : Std.ExtTreeMap κ α cmp) : (map.toList.map Prod.fst).Nodup := by
  rw [List.Nodup, List.pairwise_map]
  refine Std.ExtTreeMap.distinct_keys_toList.imp ?_
  intro a b h he
  exact h (he ▸ Std.ReflCmp.compare_self)

/-- An overlaid entry wins, and every other entry is the one below. -/
@[simp] theorem getElem?_overlay (base upper : Std.ExtTreeMap κ α cmp) (k : κ) :
    (overlay base upper)[k]? = upper[k]?.or base[k]? := by
  rw [overlay, Std.ExtTreeMap.foldl_eq_foldl_toList]
  cases hk : upper[k]? with
  | some v =>
    have hmem := Std.ExtTreeMap.mem_toList_iff_getElem?_eq_some.mpr hk
    rw [foldl_insert_of_mem (keys_nodup upper) hmem, Option.some_or]
  | none =>
    rw [Option.none_or]
    apply foldl_insert_of_notMem
    intro h
    obtain ⟨⟨j, v⟩, hmem, rfl⟩ := List.mem_map.mp h
    rw [Std.ExtTreeMap.mem_toList_iff_getElem?_eq_some.mp hmem] at hk
    cases hk

/-- Where there is an entry above, it does not matter what lies below. -/
theorem overlay_congr {base base' upper : Std.ExtTreeMap κ α cmp}
    (h : ∀ k : κ, upper[k]? = none → base[k]? = base'[k]?) :
    overlay base upper = overlay base' upper := by
  apply Std.ExtTreeMap.ext_getElem?
  intro k
  rw [getElem?_overlay, getElem?_overlay]
  cases hk : upper[k]? with
  | some v => rfl
  | none => rw [h k hk]

end Spex.Overlay
