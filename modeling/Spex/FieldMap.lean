import Spex.CborEquiv
import Spex.Overlay

/-!
# Field maps

Every signed structure is encoded through a map from field identifiers to
values, ordered by identifier. Two such maps with equivalent encodings hold
equivalent values under every identifier.
-/
namespace Spex
open Cbor Fallible Overlay

/-- `BTreeMap<u64, Value>`. -/
abbrev FieldMap := Std.ExtTreeMap UInt64 Value compare

namespace FieldMap
variable {j k : UInt64}

def keyToCbor (k : UInt64) : Value := .integer k.toNat

/-- `Value::Map` of the entries in key order. -/
def toValue (map : FieldMap) : Value := .map (map.toList.map fun e => (keyToCbor e.1, e.2))

/-- Inserts a field if it is present. -/
def insertField (map : FieldMap) (field : UInt64 × Option Value) : FieldMap :=
  match field.2 with
  | some value => map.insert field.1 value
  | none => map

/-- Inserts the fields that are present, in order. -/
def ofFields (fields : List (UInt64 × Option Value)) : FieldMap := fields.foldl insertField ∅

theorem keyToCbor_inj (h : keyToCbor j = keyToCbor k) : j = k := by
  rw [keyToCbor, keyToCbor, Value.integer.injEq] at h
  exact UInt64.toNat_inj.mp (by exact_mod_cast h)

theorem eq_of_equiv_key (h : Equivalent (keyToCbor j) (keyToCbor k)) : j = k := by
  rw [keyToCbor, keyToCbor, equivalent_integer_iff] at h
  exact UInt64.toNat_inj.mp (by exact_mod_cast h)

theorem mem_entries {map : FieldMap} {v : Value} :
    (keyToCbor k, v) ∈ (map.toList.map fun e => (keyToCbor e.1, e.2)) ↔ map[k]? = some v := by
  rw [List.mem_map, ← Std.ExtTreeMap.mem_toList_iff_getElem?_eq_some]
  constructor
  · rintro ⟨e, he, heq⟩
    rw [Prod.mk.injEq] at heq
    have hk := keyToCbor_inj heq.1
    have hv := heq.2
    subst hk hv
    exact he
  · exact fun h => ⟨_, h, rfl⟩

/-- Equivalent encodings hold equivalent values under every identifier. -/
theorem rel_of_equiv {M N : FieldMap} (h : Equivalent M.toValue N.toValue) (k : UInt64) :
    Option.Rel Equivalent M[k]? N[k]? := by
  obtain ⟨es, fs, hes, hef, hfs⟩ := (equiv_map_iff _ _).mp h
  have hleft : ∀ v, M[k]? = some v → ∃ w, N[k]? = some w ∧ Equivalent v w := by
    intro v hv
    obtain ⟨f, hf, hk, hvw⟩ := exists_mem_of_forall₂ hef (hes.mem_iff.mp (mem_entries.mpr hv))
    obtain ⟨e, he, rfl⟩ := List.mem_map.mp (hfs.mem_iff.mp hf)
    have hke := eq_of_equiv_key hk
    subst hke
    exact ⟨e.2, Std.ExtTreeMap.mem_toList_iff_getElem?_eq_some.mp he, hvw⟩
  have hright : ∀ w, N[k]? = some w → ∃ v, M[k]? = some v := by
    intro w hw
    have hflip : List.Forall₂ (flip EntryEquiv) fs es := hef.flip
    obtain ⟨f, hf, hk, _⟩ := exists_mem_of_forall₂ hflip (hfs.mem_iff.mpr (mem_entries.mpr hw))
    obtain ⟨e, he, rfl⟩ := List.mem_map.mp (hes.mem_iff.mpr hf)
    have hke := eq_of_equiv_key hk
    subst hke
    exact ⟨e.2, Std.ExtTreeMap.mem_toList_iff_getElem?_eq_some.mp he⟩
  cases hM : M[k]? with
  | some v =>
    obtain ⟨w, hw, hvw⟩ := hleft v hM
    rw [hw]
    exact .some hvw
  | none =>
    cases hN : N[k]? with
    | none => exact .none
    | some w =>
      obtain ⟨v, hv⟩ := hright w hN
      rw [hv] at hM
      cases hM

/-- An identifier that is in neither extension map carries the named field. -/
theorem named_rel {F F' X X' : FieldMap}
    (h : Equivalent (toValue (overlay F X)) (toValue (overlay F' X'))) (hX : X[k]? = none)
    (hX' : X'[k]? = none) : Option.Rel Equivalent F[k]? F'[k]? := by
  have hrel := rel_of_equiv h k
  rwa [getElem?_overlay, getElem?_overlay, hX, hX', Option.none_or, Option.none_or] at hrel

/-- Every value of the map has a property. -/
def All (P : Value → Prop) (M : FieldMap) : Prop := ∀ (k : UInt64) v, M[k]? = some v → P v

variable {P : Value → Prop} {M N : FieldMap}

theorem all_empty : All P ∅ := by
  intro k v h
  rw [Std.ExtTreeMap.getElem?_empty] at h
  cases h

theorem all_insert (hM : M.All P) {v : Value} (hv : P v) : All P (M.insert k v) := by
  intro j w h
  by_cases hk : k = j
  · subst hk
    rw [Std.ExtTreeMap.getElem?_insert_self, Option.some.injEq] at h
    exact h ▸ hv
  · rw [getElem?_insert_ne hk] at h
    exact hM j w h

theorem all_overlay (hM : M.All P) (hN : N.All P) : All P (overlay M N) := by
  intro k v h
  rw [getElem?_overlay, Option.or_eq_some_iff] at h
  rcases h with h | ⟨_, h⟩
  · exact hN k v h
  · exact hM k v h

/-- A map that misses an identifier has fewer than two to the 64 entries. -/
lemma length_toList_lt (hj : M[j]? = none) : M.toList.length < 2 ^ 64 := by
  have hnot : j ∉ M.toList.map Prod.fst := by
    intro h
    obtain ⟨⟨k, v⟩, hmem, rfl⟩ := List.mem_map.mp h
    rw [Std.ExtTreeMap.mem_toList_iff_getElem?_eq_some.mp hmem] at hj
    cases hj
  have hnodup : ((j :: M.toList.map Prod.fst).map UInt64.toFin).Nodup :=
    (List.nodup_cons.mpr ⟨hnot, keys_nodup M⟩).map fun a b h => UInt64.toFin_inj.mp h
  have hcard := hnodup.length_le_card
  rw [Fintype.card_fin, List.length_map, List.length_cons, List.length_map] at hcard
  exact hcard

theorem fits_toValue (h : M.All Value.Fits) (hj : M[j]? = none) : M.toValue.Fits := by
  rw [toValue, Value.fits_map, List.length_map, List.forall_mem_map]
  refine ⟨length_toList_lt hj, fun e he => ⟨?_, ?_⟩⟩
  · have hk := e.1.toNat_lt
    rw [keyToCbor, Value.fits_integer]
    omega
  · exact h _ _ (Std.ExtTreeMap.mem_toList_iff_getElem?_eq_some.mp he)

section Fields
variable {fields fields' : List (UInt64 × Option Value)} {k : UInt64}

theorem getElem?_insertField_ne {field : UInt64 × Option Value} (h : field.1 ≠ k) :
    (insertField M field)[k]? = M[k]? := by
  unfold insertField
  split
  · exact getElem?_insert_ne h
  · rfl

theorem getElem?_insertField_self (k : UInt64) (o : Option Value) (h : M[k]? = none) :
    (insertField M (k, o))[k]? = o := by
  cases o with
  | some v => exact Std.ExtTreeMap.getElem?_insert_self
  | none => exact h

lemma foldl_insertField_of_notMem (h : k ∉ fields.map Prod.fst) (M : FieldMap) :
    (fields.foldl insertField M)[k]? = M[k]? := by
  induction fields generalizing M with
  | nil => rfl
  | cons field fields ih =>
    rw [List.map_cons, List.mem_cons, not_or] at h
    rw [List.foldl_cons, ih h.2, getElem?_insertField_ne (Ne.symm h.1)]

lemma foldl_insertField_of_mem (hd : (fields.map Prod.fst).Nodup) {o : Option Value}
    (h : (k, o) ∈ fields) {M : FieldMap} (hM : M[k]? = none) :
    (fields.foldl insertField M)[k]? = o := by
  induction fields generalizing M with
  | nil => simp at h
  | cons field fields ih =>
    rw [List.map_cons, List.nodup_cons] at hd
    rw [List.foldl_cons]
    rcases List.mem_cons.mp h with rfl | h
    · rw [foldl_insertField_of_notMem hd.1, getElem?_insertField_self k o hM]
    · have hne : field.1 ≠ k := by
        rintro rfl
        exact hd.1 (List.mem_map.mpr ⟨_, h, rfl⟩)
      exact ih hd.2 h (by rw [getElem?_insertField_ne hne, hM])

theorem getElem?_ofFields (hd : (fields.map Prod.fst).Nodup) {o : Option Value}
    (h : (k, o) ∈ fields) : (ofFields fields)[k]? = o :=
  foldl_insertField_of_mem hd h Std.ExtTreeMap.getElem?_empty

theorem getElem?_ofFields_of_notMem (h : k ∉ fields.map Prod.fst) :
    (ofFields fields)[k]? = none :=
  (foldl_insertField_of_notMem h ∅).trans Std.ExtTreeMap.getElem?_empty

theorem forall₂_of_rel (hids : fields.map Prod.fst = fields'.map Prod.fst)
    (hd : (fields.map Prod.fst).Nodup)
    (h : ∀ k ∈ fields.map Prod.fst,
      Option.Rel Equivalent (ofFields fields)[k]? (ofFields fields')[k]?) :
    List.Forall₂ (Option.Rel Equivalent) (fields.map Prod.snd) (fields'.map Prod.snd) := by
  have hread : ∀ {l : List (UInt64 × Option Value)}, (l.map Prod.fst).Nodup →
      l.map Prod.snd = (l.map Prod.fst).map fun k => (ofFields l)[k]? := by
    intro l hl
    rw [List.map_map]
    exact List.map_congr_left fun f hf => (getElem?_ofFields hl hf).symm
  rw [hread hd, hread (hids ▸ hd), ← hids, List.forall₂_map_left_iff, List.forall₂_map_right_iff,
    List.forall₂_same]
  exact h

/-- Records with the same identifiers and equivalent encodings have equivalent
fields, if no extension stands under one of the identifiers. -/
theorem fields_rel {X X' : FieldMap} (hids : fields.map Prod.fst = fields'.map Prod.fst)
    (hd : (fields.map Prod.fst).Nodup) (hX : ∀ k ∈ fields.map Prod.fst, X[k]? = none)
    (hX' : ∀ k ∈ fields.map Prod.fst, X'[k]? = none)
    (h : Equivalent (toValue (overlay (ofFields fields) X))
      (toValue (overlay (ofFields fields') X'))) :
    List.Forall₂ (Option.Rel Equivalent) (fields.map Prod.snd) (fields'.map Prod.snd) :=
  forall₂_of_rel hids hd fun k hk => named_rel h (hX k hk) (hX' k hk)

/-- Records that differ in one field only have the same encoding when an
extension stands under its identifier. -/
theorem toValue_eq_of_clash {X : FieldMap} (hk : X[k]? ≠ none)
    (h : List.Forall₂ (fun a b => a.1 = b.1 ∧ (a.1 ≠ k → a.2 = b.2)) fields fields') :
    toValue (overlay (ofFields fields) X) = toValue (overlay (ofFields fields') X) := by
  have hfold : ∀ {M M' : FieldMap} {j : UInt64}, j ≠ k → M[j]? = M'[j]? →
      (fields.foldl insertField M)[j]? = (fields'.foldl insertField M')[j]? := by
    induction h with
    | nil => exact fun _ hM => hM
    | @cons a b _ _ hab _ ih =>
      intro M M' j hj hM
      rw [List.foldl_cons, List.foldl_cons]
      refine ih hj ?_
      by_cases ha : a.1 = j
      · have hb : a = b := Prod.ext hab.1 (hab.2 (ha ▸ hj))
        subst hb ha
        cases ho : a.2 <;> simp [insertField, ho, hM]
      · rw [getElem?_insertField_ne ha, getElem?_insertField_ne (hab.1 ▸ ha), hM]
  refine congrArg toValue (overlay_congr fun j hj => hfold ?_ rfl)
  rintro rfl
  exact hk hj

theorem all_ofFields (h : ∀ field ∈ fields, ∀ v ∈ field.2, P v) : All P (ofFields fields) := by
  suffices hfold : ∀ M : FieldMap, M.All P → All P (fields.foldl insertField M) from
    hfold ∅ all_empty
  induction fields with
  | nil => exact fun M hM => hM
  | cons field fields ih =>
    intro M hM
    rw [List.foldl_cons]
    refine ih (fun f hf => h f (by simp [hf])) _ ?_
    unfold insertField
    split
    · exact all_insert hM (h field (by simp) _ ‹_›)
    · exact hM

end Fields

end FieldMap
end Spex
