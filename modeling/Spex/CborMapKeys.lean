import Spex.CborCanonical

/-!
# Repeated keys in accepted maps

Comparing with the canonical encoding forces the entries of every map into
order, but not into strict order: two entries with one key stay side by side
and encode to the bytes they came from. Accepted input has increasing keys
exactly when no entry repeats the key of the entry before it.
-/
namespace Spex.Cbor
open KeySort
variable {tagged : UInt64 → Value → Value} {v : Value}

/- A value with the tagged items in it rewritten, innermost first. -/
mutual

def foldTags (tagged : UInt64 → Value → Value) : Value → Value
  | .array xs => .array (foldItems tagged xs)
  | .map es => .map (foldEntries tagged es)
  | .tag t v => tagged t (foldTags tagged v)
  | v => v

def foldItems (tagged : UInt64 → Value → Value) : List Value → List Value
  | [] => []
  | x :: xs => foldTags tagged x :: foldItems tagged xs

def foldEntries (tagged : UInt64 → Value → Value) : List (Value × Value) → List (Value × Value)
  | [] => []
  | (k, v) :: es => (foldTags tagged k, foldTags tagged v) :: foldEntries tagged es

end

/-- The reader returns map entries in wire order. It may keep a tagged item or
put a shorter one in its place, as a reader does that turns big numbers into
integers. -/
structure ReadsInWireOrder (reader : Bytes → Except String Value)
    (tagged : UInt64 → Value → Value) : Prop where
  order : ∀ b u v, readCbor b = some (u, []) → reader b = .ok v → v = foldTags tagged u
  shortens : ∀ t x, tagged t x = .tag t x ∨
    (wire (tagged t x)).length < (wire (.tag t x)).length

section Lengths
variable {α : Type*} {f : α → α} {μ : α → ℕ}

/-- Two parts, each fixed or shortened: both are fixed, or the whole is shorter. -/
lemma both_fixed_or_shorter {p q : Prop} {a a' b b' : ℕ} (hp : p → a' = a) (hq : q → b' = b)
    (ha : p ∨ a' < a) (hb : q ∨ b' < b) : (p ∧ q) ∨ a' + b' < a + b := by
  rcases ha with h | ha <;> rcases hb with h' | hb
  · exact .inl ⟨h, h'⟩
  · exact .inr (by have := hp h; omega)
  · exact .inr (by have := hq h'; omega)
  · exact .inr (by omega)

/-- A map that fixes an item or shortens it fixes the list or shortens it. -/
lemma map_fixed_or_shorter (xs : List α) (h : ∀ x ∈ xs, f x = x ∨ μ (f x) < μ x) :
    xs.map f = xs ∨ ((xs.map f).map μ).sum < (xs.map μ).sum := by
  induction xs with
  | nil => exact .inl rfl
  | cons x xs ih =>
    have hx := h x (by simp)
    have hxs := ih fun y hy => h y (by simp [hy])
    simp only [List.map_cons, List.sum_cons, List.cons.injEq]
    exact both_fixed_or_shorter (fun hx => by rw [hx]) (fun hxs => by rw [hxs]) hx hxs

end Lengths

theorem length_wire_array (xs : List Value) :
    (wire (.array xs)).length =
      (encodeU64 majorArray (UInt64.ofNat xs.length)).length +
        (xs.map fun x => (wire x).length).sum := by
  rw [wire, wireItems_eq, List.length_append, List.length_flatMap]

theorem length_wire_map (es : List (Value × Value)) :
    (wire (.map es)).length =
      (encodeU64 majorMap (UInt64.ofNat es.length)).length +
        (es.map fun e => (wire e.1).length + (wire e.2).length).sum := by
  rw [wire_map, List.length_append, List.length_flatMap]
  simp only [List.length_append]
  congr 1
  exact ((sortOn_perm ShortLex encodedKey es).map _).sum_eq

theorem length_wire_tag (t : UInt64) (v : Value) :
    (wire (.tag t v)).length = (encodeU64 majorTag t).length + (wire v).length := by
  rw [wire, List.length_append]

theorem foldItems_eq (tagged : UInt64 → Value → Value) (xs : List Value) :
    foldItems tagged xs = xs.map (foldTags tagged) := by
  induction xs with
  | nil => rfl
  | cons x xs ih => simp [foldItems, ih]

theorem foldEntries_eq (tagged : UInt64 → Value → Value) (es : List (Value × Value)) :
    foldEntries tagged es = es.map fun e => (foldTags tagged e.1, foldTags tagged e.2) := by
  induction es with
  | nil => rfl
  | cons e es ih => simp [foldEntries, ih]

/-- Folding tags changes nothing or shortens the bytes. -/
theorem foldTags_fixed_or_shorter
    (ht : ∀ t x, tagged t x = .tag t x ∨ (wire (tagged t x)).length < (wire (.tag t x)).length)
    (v : Value) : foldTags tagged v = v ∨ (wire (foldTags tagged v)).length < (wire v).length := by
  induction v with
  | null | bool | integer | bytes | text | float => exact .inl rfl
  | array xs ih =>
    rw [foldTags, foldItems_eq, Value.array.injEq, length_wire_array, length_wire_array,
      List.length_map]
    rcases map_fixed_or_shorter (μ := fun x => (wire x).length) xs ih with h | h
    · exact .inl h
    · exact .inr (by omega)
  | map es ih =>
    rw [foldTags, foldEntries_eq, Value.map.injEq, length_wire_map, length_wire_map,
      List.length_map]
    have hentry : ∀ e ∈ es, (foldTags tagged e.1, foldTags tagged e.2) = e ∨
        (wire (foldTags tagged e.1)).length + (wire (foldTags tagged e.2)).length <
          (wire e.1).length + (wire e.2).length := by
      intro e he
      rw [Prod.ext_iff]
      dsimp only
      exact both_fixed_or_shorter (fun hk => by rw [hk]) (fun hv => by rw [hv])
        (ih e he).1 (ih e he).2
    rcases map_fixed_or_shorter (μ := fun e => (wire e.1).length + (wire e.2).length) es hentry
      with h | h
    · exact .inl h
    · exact .inr (by omega)
  | tag t v ih =>
    rw [foldTags, length_wire_tag]
    have htag := ht t (foldTags tagged v)
    rw [length_wire_tag] at htag
    rcases ih with h | h
    · rw [h] at htag ⊢
      exact htag
    · right
      rcases htag with h' | h'
      · rw [h', length_wire_tag]
        omega
      · omega

/-- Accepted input is read as exactly the value its bytes stand for, and that
value is its own normal form. -/
theorem fromSlice_reads {reader : Bytes → Except String Value} (hr : ReadsInWireOrder reader tagged)
    {b : Bytes} (h : ctap2CanonicalValueFromSlice reader b = .ok v) :
    v.Fits ∧ readCbor b = some (v, []) ∧ normalize v = v := by
  obtain ⟨hread, hfits, rfl⟩ := fromSlice_eq_ok h
  have hwire := readCbor_wire hfits
  have hfold := hr.order _ _ _ hwire hread
  have hfixed : foldTags tagged (normalize v) = normalize v := by
    rcases foldTags_fixed_or_shorter hr.shortens (normalize v) with h' | h'
    · exact h'
    · rw [← hfold, wire_normalize] at h'
      omega
  have hv : normalize v = v := hfixed.symm.trans hfold.symm
  exact ⟨hfits, by rw [hwire, hv], hv⟩

/-- The encoded keys of a map are strictly increasing. -/
def NodeIncreasing : Value → Prop
  | .map es => (es.map encodedKey).Pairwise fun a b => ShortLex a b ∧ a ≠ b
  | _ => True

/-- No entry of a map has the key of the entry before it. -/
def NodeSeparated : Value → Prop
  | .map es => (es.map Prod.fst).IsChain (· ≠ ·)
  | _ => True

/-- The encoded keys of a map do not decrease, and each key is in normal form. -/
def NodeOrdered : Value → Prop
  | .map es => (es.map encodedKey).Pairwise ShortLex ∧ ∀ e ∈ es, e.1.Fits ∧ normalize e.1 = e.1
  | _ => True

theorem normalize_idem (h : v.Fits) : normalize (normalize v) = normalize v := by
  have hread := readCbor_wire (fits_normalize h)
  rw [wire_normalize, readCbor_wire h, Option.some.injEq, Prod.mk.injEq] at hread
  exact hread.1.symm

/-- Every map of a normal form is in order. -/
theorem every_ordered_normalize (h : v.Fits) : (normalize v).Every NodeOrdered := by
  induction v with
  | null | bool | integer | bytes | text | float => trivial
  | array xs ih =>
    rw [Value.fits_array] at h
    rw [normalize_array, Value.every_array, List.forall_mem_map]
    exact ⟨trivial, fun x hx => ih x hx (h.2 x hx)⟩
  | map es ih =>
    rw [Value.fits_map] at h
    have hmem : ∀ e ∈ sortOn ShortLex encodedKey es, e ∈ es := fun e he =>
      (mem_sortOn ShortLex encodedKey es e).mp he
    rw [normalize_map, Value.every_map, NodeOrdered, List.forall_mem_map, List.forall_mem_map]
    refine ⟨⟨?_, fun e he => ?_⟩, fun e he => ?_⟩
    · rw [← sortOn_normalizeEntry, List.pairwise_map]
      exact sortOn_pairwise ShortLex encodedKey _
    · have hk := (h.2 e (hmem e he)).1
      exact ⟨fits_normalize hk, normalize_idem hk⟩
    · have he' := hmem e he
      exact ⟨(ih e he').1 (h.2 e he').1, (ih e he').2 (h.2 e he').2⟩
  | tag t v ih =>
    rw [Value.fits_tag] at h
    rw [normalize, Value.every_tag]
    exact ⟨trivial, ih h⟩

/-- Keys in normal form are determined by their bytes. -/
lemma key_eq_of_encoded_eq {k k' : Value} (hk : k.Fits ∧ normalize k = k)
    (hk' : k'.Fits ∧ normalize k' = k') (h : wire k = wire k') : k = k' := by
  have hread := readCbor_wire hk'.1
  rw [← h, readCbor_wire hk.1, hk.2, hk'.2, Option.some.injEq, Prod.mk.injEq] at hread
  exact hread.1

theorem nodeIncreasing_iff (h : NodeOrdered v) : NodeIncreasing v ↔ NodeSeparated v := by
  cases v with
  | map es =>
    obtain ⟨hsorted, hkeys⟩ := h
    have hchain : (es.map encodedKey).IsChain (· ≠ ·) ↔ (es.map Prod.fst).IsChain (· ≠ ·) := by
      rw [List.isChain_map, List.isChain_map]
      apply List.IsChain.iff_of_mem_imp
      intro e f he hf
      refine not_congr ⟨key_eq_of_encoded_eq (hkeys e he) (hkeys f hf), ?_⟩
      exact congrArg wire
    rw [NodeIncreasing, NodeSeparated, ← hchain]
    exact ⟨fun hinc => (hinc.imp fun hab => hab.2).isChain,
      fun hne => pairwise_strict_of_chain hsorted hne⟩
  | _ => exact Iff.rfl

theorem nodeDistinct_iff (h : NodeOrdered v) : NodeDistinct v ↔ NodeIncreasing v := by
  cases v with
  | map es =>
    obtain ⟨hsorted, hkeys⟩ := h
    have hbytes : (es.map fun e => ctap2CanonicalValueBytes e.1) =
        (es.map encodedKey).map Except.ok := by
      rw [List.map_map]
      exact List.map_congr_left fun e he => encodeValue_of_fits (hkeys e he).1
    have hinj : Function.Injective (Except.ok : Bytes → Except SpexError Bytes) :=
      fun _ _ h => Except.ok.inj h
    rw [NodeDistinct, NodeIncreasing, hbytes, List.nodup_map_iff hinj]
    exact ⟨fun hne => hsorted.and hne, fun hinc => hinc.imp fun hab => hab.2⟩
  | _ => exact Iff.rfl

/-- Accepted input has strictly increasing keys in every map exactly when no map
in it repeats a key in two neighbouring entries. -/
theorem accepted_keys_increasing_iff {reader : Bytes → Except String Value}
    {tagged : UInt64 → Value → Value} (hr : ReadsInWireOrder reader tagged) {b : Bytes} {v : Value}
    (h : ctap2CanonicalValueFromSlice reader b = .ok v) :
    (v.Every NodeIncreasing ∧ DistinctKeys v) ↔
      ∀ u, readCbor b = some (u, []) → u.Every NodeSeparated := by
  obtain ⟨hfits, hread, hnormal⟩ := fromSlice_reads hr h
  have hordered : v.Every NodeOrdered := hnormal ▸ every_ordered_normalize hfits
  have hdistinct : DistinctKeys v ↔ v.Every NodeIncreasing :=
    Value.every_congr (fun _ => nodeDistinct_iff) hordered
  rw [hdistinct, and_self, Value.every_congr (fun _ => nodeIncreasing_iff) hordered]
  constructor
  · intro hsep u hu
    rw [hread, Option.some.injEq, Prod.mk.injEq] at hu
    exact hu.1 ▸ hsep
  · exact fun hsep => hsep v hread

theorem foldTags_tag (v : Value) : foldTags .tag v = v := by
  induction v with
  | null | bool | integer | bytes | text | float => rfl
  | array xs ih => rw [foldTags, foldItems_eq, List.map_congr_left ih, List.map_id']
  | map es ih =>
    have hentries : (es.map fun e => (foldTags .tag e.1, foldTags .tag e.2)) = es :=
      (List.map_congr_left fun e he => Prod.ext (ih e he).1 (ih e he).2).trans (List.map_id' es)
    rw [foldTags, foldEntries_eq, hentries]
  | tag t v ih => rw [foldTags, ih]

theorem readsInWireOrder_rfcReader : ReadsInWireOrder rfcReader .tag where
  order := by
    intro b u v hu hv
    rw [rfcReader, hu] at hv
    rw [foldTags_tag, Except.ok.inj hv]
  shortens := fun _ _ => .inl rfl

theorem accepted_keys_increasing_two :
    ctap2CanonicalValueFromSlice rfcReader [0xa2, 0x00, 0x00, 0x01, 0x01] =
        .ok (.map [(.integer 0, .integer 0), (.integer 1, .integer 1)]) ∧
      (Value.map [(.integer 0, .integer 0), (.integer 1, .integer 1)]).Every NodeIncreasing := by
  have haccept : ctap2CanonicalValueFromSlice rfcReader [0xa2, 0x00, 0x00, 0x01, 0x01] =
      .ok (.map [(.integer 0, .integer 0), (.integer 1, .integer 1)]) := by
    refine fromSlice_of_reader rfl (encodeValue_of_fits ?_)
    simp only [Value.Fits, Value.Every, Value.EveryEntry, Value.NodeFits]
    decide
  refine ⟨haccept, ((accepted_keys_increasing_iff readsInWireOrder_rfcReader haccept).mpr ?_).1⟩
  intro u hu
  have hread : readCbor [0xa2, 0x00, 0x00, 0x01, 0x01] =
      some (.map [(.integer 0, .integer 0), (.integer 1, .integer 1)], []) := rfl
  rw [hread, Option.some.injEq, Prod.mk.injEq] at hu
  rw [← hu.1]
  simp [Value.Every, Value.EveryEntry, NodeSeparated]

/-- Two entries under the key zero pass as canonical. -/
theorem repeated_key_accepted :
    ctap2CanonicalValueFromSlice rfcReader [0xa2, 0x00, 0x00, 0x00, 0x01] =
        .ok (.map [(.integer 0, .integer 0), (.integer 0, .integer 1)]) ∧
      ¬ DistinctKeys (.map [(.integer 0, .integer 0), (.integer 0, .integer 1)]) ∧
      ¬ (Value.map [(.integer 0, .integer 0), (.integer 0, .integer 1)]).Every NodeIncreasing := by
  refine ⟨fromSlice_of_reader rfl (encodeValue_of_fits ?_), ?_, ?_⟩
  · simp only [Value.Fits, Value.Every, Value.EveryEntry, Value.NodeFits]
    decide
  · simp [DistinctKeys, NodeDistinct]
  · intro h
    have hinc := h.here
    simp [NodeIncreasing, encodedKey] at hinc

end Spex.Cbor
