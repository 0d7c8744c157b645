import Spex.CborRead

/-!
# Equality up to the order of map entries

Two values are equivalent when they differ only in the order in which maps list
their entries, at any depth, and in which NaN a float is. For values whose maps
have distinct encoded keys this is exactly what the canonical bytes determine.
-/
namespace Spex.Cbor
open KeySort
variable {v w : Value} {es fs : List (Value × Value)}

inductive Equivalent : Value → Value → Prop
  | null : Equivalent .null .null
  | bool (b : Bool) : Equivalent (.bool b) (.bool b)
  | integer (n : ℤ) : Equivalent (.integer n) (.integer n)
  | bytes (b : Bytes) : Equivalent (.bytes b) (.bytes b)
  | text (s : String) : Equivalent (.text s) (.text s)
  | array {xs ys : List Value} : List.Forall₂ Equivalent xs ys → Equivalent (.array xs) (.array ys)
  | map {es es' fs' fs : List (Value × Value)} : es.Perm es' →
      List.Forall₂ Equivalent (es'.map Prod.fst) (fs'.map Prod.fst) →
      List.Forall₂ Equivalent (es'.map Prod.snd) (fs'.map Prod.snd) →
      fs'.Perm fs → Equivalent (.map es) (.map fs)
  | tag (t : UInt64) {v w : Value} : Equivalent v w → Equivalent (.tag t v) (.tag t w)
  | float {f g : UInt64} : canonicalNan f = canonicalNan g → Equivalent (.float f) (.float g)

/-- Both parts of two entries are equivalent. -/
def EntryEquiv (e f : Value × Value) : Prop := Equivalent e.1 f.1 ∧ Equivalent e.2 f.2

/-- Two maps are equivalent when their entries can be put in an order in which
they agree one by one. -/
theorem equiv_map_iff (es fs : List (Value × Value)) :
    Equivalent (.map es) (.map fs) ↔
      ∃ es' fs', es.Perm es' ∧ List.Forall₂ EntryEquiv es' fs' ∧ fs'.Perm fs := by
  constructor
  · rintro (_ | _ | _ | _ | _ | _ | ⟨hes, hkeys, hvalues, hfs⟩)
    refine ⟨_, _, hes, ?_, hfs⟩
    rw [List.forall₂_map_left_iff, List.forall₂_map_right_iff] at hkeys hvalues
    exact List.Forall₂.mp (fun _ _ hk hv => ⟨hk, hv⟩) hkeys hvalues
  · rintro ⟨es', fs', hes, h, hfs⟩
    refine .map hes ?_ ?_ hfs
    · rw [List.forall₂_map_left_iff, List.forall₂_map_right_iff]
      exact h.imp fun _ _ he => he.1
    · rw [List.forall₂_map_left_iff, List.forall₂_map_right_iff]
      exact h.imp fun _ _ he => he.2

theorem equivalent_bytes_iff {a b : Bytes} : Equivalent (.bytes a) (.bytes b) ↔ a = b :=
  ⟨fun h => by cases h; rfl, fun h => h ▸ .bytes a⟩

theorem equivalent_text_iff {a b : String} : Equivalent (.text a) (.text b) ↔ a = b :=
  ⟨fun h => by cases h; rfl, fun h => h ▸ .text a⟩

theorem equivalent_integer_iff {m n : ℤ} : Equivalent (.integer m) (.integer n) ↔ m = n :=
  ⟨fun h => by cases h; rfl, fun h => h ▸ .integer m⟩

theorem equivalent_bool_iff {a b : Bool} : Equivalent (.bool a) (.bool b) ↔ a = b :=
  ⟨fun h => by cases h; rfl, fun h => h ▸ .bool a⟩

theorem equivalent_array_iff {xs ys : List Value} :
    Equivalent (.array xs) (.array ys) ↔ List.Forall₂ Equivalent xs ys :=
  ⟨fun h => by cases h; assumption, .array⟩

theorem Equivalent.refl (v : Value) : Equivalent v v := by
  induction v with
  | null => exact .null
  | bool b => exact .bool b
  | integer n => exact .integer n
  | bytes b => exact .bytes b
  | text s => exact .text s
  | array xs ih => exact .array (List.forall₂_same.mpr ih)
  | map es ih =>
    rw [equiv_map_iff]
    exact ⟨es, es, .refl es, List.forall₂_same.mpr ih, .refl es⟩
  | tag t v ih => exact .tag t ih
  | float f => exact .float rfl

section Lists
variable {α β γ : Type*} {R : α → β → Prop} {xs : List α} {ys : List β}

/-- Lists with one image are related item by item, if items with one image are. -/
lemma forall₂_of_map_eq {f : α → γ} {g : β → γ} (h : xs.map f = ys.map g)
    (hR : ∀ x ∈ xs, ∀ y, f x = g y → R x y) : List.Forall₂ R xs ys := by
  induction xs generalizing ys with
  | nil =>
    cases ys with
    | nil => exact .nil
    | cons y ys => simp at h
  | cons x xs ih =>
    cases ys with
    | nil => simp at h
    | cons y ys =>
      rw [List.map_cons, List.map_cons, List.cons.injEq] at h
      exact .cons (hR x (by simp) y h.1) (ih h.2 fun z hz => hR z (by simp [hz]))

lemma map_eq_of_forall₂ {f : α → γ} {g : β → γ} (h : List.Forall₂ R xs ys)
    (hR : ∀ x ∈ xs, ∀ y ∈ ys, R x y → f x = g y) : xs.map f = ys.map g := by
  induction h with
  | nil => rfl
  | cons hxy _ ih =>
    rw [List.map_cons, List.map_cons, hR _ (by simp) _ (by simp) hxy,
      ih fun x hx y hy => hR x (by simp [hx]) y (by simp [hy])]

lemma forall_iff_of_forall₂ {P : α → Prop} {Q : β → Prop} (h : List.Forall₂ R xs ys)
    (hR : ∀ x ∈ xs, ∀ y, R x y → (P x ↔ Q y)) : (∀ x ∈ xs, P x) ↔ ∀ y ∈ ys, Q y := by
  induction h with
  | nil => simp
  | cons hxy _ ih =>
    rw [List.forall_mem_cons, List.forall_mem_cons, hR _ (by simp) _ hxy,
      ih fun x hx => hR x (by simp [hx])]

end Lists

/-- Values with one normal form are equivalent. -/
theorem equiv_of_normalize_eq (h : normalize v = normalize w) : Equivalent v w := by
  induction v generalizing w with
  | null =>
    cases w <;> simp [normalize] at h
    exact .null
  | bool b =>
    cases w <;> simp [normalize] at h
    exact h ▸ .bool b
  | integer n =>
    cases w <;> simp [normalize] at h
    exact h ▸ .integer n
  | bytes b =>
    cases w <;> simp [normalize] at h
    exact h ▸ .bytes b
  | text s =>
    cases w <;> simp [normalize] at h
    exact h ▸ .text s
  | array xs ih =>
    cases w <;> simp [normalize, normalizeItems_eq] at h
    exact .array (forall₂_of_map_eq h fun x hx y hxy => ih x hx hxy)
  | map es ih =>
    cases w with
    | map fs =>
      rw [normalize_map, normalize_map, Value.map.injEq] at h
      rw [equiv_map_iff]
      refine ⟨_, _, (sortOn_perm ShortLex encodedKey es).symm, forall₂_of_map_eq h ?_,
        sortOn_perm ShortLex encodedKey fs⟩
      intro e he f hef
      rw [mem_sortOn] at he
      rw [normalizeEntry, normalizeEntry, Prod.mk.injEq] at hef
      exact ⟨(ih e he).1 hef.1, (ih e he).2 hef.2⟩
    | _ => simp [normalize] at h
  | tag t v ih =>
    cases w <;> simp [normalize] at h
    obtain ⟨rfl, h⟩ := h
    exact .tag t (ih h)
  | float f =>
    cases w <;> simp [normalize] at h
    exact .float h

/-- The entries of a map have pairwise distinct encoded keys. -/
def NodeDistinct : Value → Prop
  | .map es => (es.map fun e => ctap2CanonicalValueBytes e.1).Nodup
  | _ => True

/-- Every map of the value, at any depth, has pairwise distinct encoded keys. -/
def DistinctKeys (v : Value) : Prop := v.Every NodeDistinct

theorem distinctKeys_array {xs : List Value} (h : DistinctKeys (.array xs)) :
    ∀ x ∈ xs, DistinctKeys x := ((Value.every_array xs).mp h).2

theorem distinctKeys_map (h : DistinctKeys (.map es)) :
    ∀ e ∈ es, DistinctKeys e.1 ∧ DistinctKeys e.2 := ((Value.every_map es).mp h).2

theorem distinctKeys_tag {t : UInt64} (h : DistinctKeys (.tag t v)) : DistinctKeys v :=
  ((Value.every_tag t v).mp h).2

/-- When the keys can be encoded, their bytes are distinct. -/
theorem encodedKey_nodup (h : DistinctKeys (.map es)) (hfits : ∀ e ∈ es, e.1.Fits) :
    (es.map encodedKey).Nodup := by
  have hnode : (es.map fun e => ctap2CanonicalValueBytes e.1).Nodup := h.here
  have hkeys : (es.map fun e => ctap2CanonicalValueBytes e.1) =
      (es.map encodedKey).map Except.ok := by
    rw [List.map_map]
    exact List.map_congr_left fun e he => encodeValue_of_fits (hfits e he)
  rw [hkeys] at hnode
  exact hnode.of_map

/-- Equivalent values are encoded or refused together. -/
theorem fits_iff_of_equiv (h : Equivalent v w) : v.Fits ↔ w.Fits := by
  induction v generalizing w with
  | array xs ih =>
    cases h with
    | array h =>
      rw [Value.fits_array, Value.fits_array, h.length_eq,
        forall_iff_of_forall₂ h fun x hx y hxy => ih x hx hxy]
  | map es ih =>
    cases w with
    | map fs =>
      obtain ⟨es', fs', hes, hef, hfs⟩ := (equiv_map_iff es fs).mp h
      have hlen : es.length = fs.length := by
        rw [hes.length_eq, hef.length_eq, hfs.length_eq]
      have hall : (∀ e ∈ es', e.1.Fits ∧ e.2.Fits) ↔ ∀ f ∈ fs', f.1.Fits ∧ f.2.Fits := by
        apply forall_iff_of_forall₂ hef
        intro e he f hef'
        have he' := hes.mem_iff.mpr he
        rw [(ih e he').1 hef'.1, (ih e he').2 hef'.2]
      rw [Value.fits_map, Value.fits_map, hlen]
      simpa only [hes.mem_iff, hfs.mem_iff] using and_congr_right fun _ => hall
    | _ => cases h
  | tag t v ih =>
    cases h with
    | tag _ h => rw [Value.fits_tag, Value.fits_tag, ih h]
  | float f =>
    cases h with
    | float => simp
  | null | bool | integer | bytes | text =>
    cases h
    rfl

/-- Equivalent maps are sorted into the same order, for their keys have distinct
encodings. -/
lemma wire_map_eq_of_equiv (h : Equivalent (.map es) (.map fs)) (hkeys : ∀ e ∈ es, e.1.Fits)
    (hd : DistinctKeys (.map es))
    (hentries : ∀ e ∈ es, ∀ f ∈ fs, Equivalent e.1 f.1 ∧ Equivalent e.2 f.2 →
      wire e.1 = wire f.1 ∧ wire e.2 = wire f.2) : wire (.map es) = wire (.map fs) := by
  obtain ⟨es', fs', hes, hef, hfs⟩ := (equiv_map_iff es fs).mp h
  have hlen : es.length = fs.length := by
    rw [hes.length_eq, hef.length_eq, hfs.length_eq]
  have hmap : es'.map wireEntry = fs'.map wireEntry := by
    apply map_eq_of_forall₂ hef
    intro e he f hf hef'
    have hwire := hentries e (hes.mem_iff.mpr he) f (hfs.mem_iff.mp hf) hef'
    exact Prod.ext hwire.1 hwire.2
  have hperm : (wireEntries es).Perm (wireEntries fs) := by
    rw [wireEntries_eq, wireEntries_eq]
    exact (hes.map wireEntry).trans (hmap ▸ hfs.map wireEntry)
  have hnodup : ((wireEntries es).map Prod.fst).Nodup := by
    rw [wireEntries_eq, List.map_map]
    exact encodedKey_nodup hd hkeys
  rw [wire, wire, hlen, sortEncoded, sortEncoded, sortOn_eq_of_perm ShortLex _ hnodup hperm]

/-- Equivalent values with distinct keys are written as the same bytes. -/
theorem wire_eq_of_equiv (h : Equivalent v w) (hv : v.Fits) (dv : DistinctKeys v)
    (dw : DistinctKeys w) : wire v = wire w := by
  induction v generalizing w with
  | array xs ih =>
    cases h with
    | @array _ ys h =>
      rw [Value.fits_array] at hv
      have hmap : xs.map wire = ys.map wire := map_eq_of_forall₂ h fun x hx y hy hxy =>
        ih x hx hxy (hv.2 x hx) (distinctKeys_array dv x hx) (distinctKeys_array dw y hy)
      rw [wire, wire, wireItems_eq, wireItems_eq, h.length_eq, List.flatMap_def, hmap,
        ← List.flatMap_def]
  | map es ih =>
    cases w with
    | map fs =>
      rw [Value.fits_map] at hv
      refine wire_map_eq_of_equiv h (fun e he => (hv.2 e he).1) dv fun e he f hf hef => ?_
      have dk := distinctKeys_map dv e he
      have dk' := distinctKeys_map dw f hf
      exact ⟨(ih e he).1 hef.1 (hv.2 e he).1 dk.1 dk'.1, (ih e he).2 hef.2 (hv.2 e he).2 dk.2 dk'.2⟩
    | _ => cases h
  | tag t v ih =>
    cases h with
    | tag _ h =>
      rw [Value.fits_tag] at hv
      rw [wire, wire, ih h hv (distinctKeys_tag dv) (distinctKeys_tag dw)]
  | float f =>
    cases h with
    | float h =>
      rw [wire, wire, ← encodeFloat_canonicalNan, h, encodeFloat_canonicalNan]
  | null | bool | integer | bytes | text =>
    cases h
    rfl

/-- Values that encode to the same bytes are equivalent, whatever their keys. -/
theorem equiv_of_bytes_eq {b : Bytes} (hv : ctap2CanonicalValueBytes v = .ok b)
    (hw : ctap2CanonicalValueBytes w = .ok b) : Equivalent v w := by
  obtain ⟨fv, rfl⟩ := encodeValue_eq_ok hv
  obtain ⟨fw, hb⟩ := encodeValue_eq_ok hw
  have hread := readCbor_wire fw
  rw [hb, readCbor_wire fv, Option.some.injEq, Prod.mk.injEq] at hread
  exact equiv_of_normalize_eq hread.1

theorem bytes_eq_of_equiv (h : Equivalent v w) (dv : DistinctKeys v) (dw : DistinctKeys w) :
    ctap2CanonicalValueBytes v = ctap2CanonicalValueBytes w := by
  unfold ctap2CanonicalValueBytes
  by_cases hv : v.Fits
  · rw [encodeValue_of_fits hv, encodeValue_of_fits ((fits_iff_of_equiv h).mp hv),
      wire_eq_of_equiv h hv dv dw]
  · rw [(encodes v).2 hv, (encodes w).2 (mt (fits_iff_of_equiv h).mpr hv)]

theorem distinctKeys_of_perm (h : es.Perm fs) (d : DistinctKeys (.map es)) :
    DistinctKeys (.map fs) := by
  rw [DistinctKeys, Value.every_map] at d ⊢
  refine ⟨(h.map _).nodup_iff.mp d.1, fun e he => d.2 e (h.mem_iff.mpr he)⟩

/-- The canonical bytes of a value whose maps have distinct keys determine it up
to the order of map entries, and nothing else enters them. -/
theorem canonicalBytes_eq_iff_equiv {v w : Value} (dv : DistinctKeys v) (dw : DistinctKeys w) :
    ((∃ b, ctap2CanonicalValueBytes v = .ok b) →
      (ctap2CanonicalValueBytes v = ctap2CanonicalValueBytes w ↔ Equivalent v w)) ∧
    (Equivalent v w → ctap2CanonicalValueBytes v = ctap2CanonicalValueBytes w) ∧
    (∀ es fs, v = .map es → es.Perm fs →
      ctap2CanonicalValueBytes (.map fs) = ctap2CanonicalValueBytes v) := by
  refine ⟨?_, fun h => bytes_eq_of_equiv h dv dw, ?_⟩
  · rintro ⟨b, hb⟩
    exact ⟨fun h => equiv_of_bytes_eq hb (h ▸ hb), fun h => bytes_eq_of_equiv h dv dw⟩
  · rintro es fs rfl h
    have hequiv : Equivalent (.map fs) (.map es) :=
      (equiv_map_iff fs es).mpr ⟨es, es, h.symm,
        List.forall₂_same.mpr fun e _ => ⟨.refl e.1, .refl e.2⟩, .refl es⟩
    exact bytes_eq_of_equiv hequiv (distinctKeys_of_perm h dv) dv

theorem canonicalBytes_eq_iff_equiv_nested :
    ctap2CanonicalValueBytes
        (.map [(.integer 1, .map [(.bytes [2], .null), (.text "a", .float 0xfff8000000000000)]),
          (.integer (-1), .float 0x3ff0000000000000)]) =
      ctap2CanonicalValueBytes
        (.map [(.integer (-1), .float 0x3ff0000000000000),
          (.integer 1, .map [(.text "a", .float 0x7ff0000000000001), (.bytes [2], .null)])]) ↔
    Equivalent
      (.map [(.integer 1, .map [(.bytes [2], .null), (.text "a", .float 0xfff8000000000000)]),
        (.integer (-1), .float 0x3ff0000000000000)])
      (.map [(.integer (-1), .float 0x3ff0000000000000),
        (.integer 1, .map [(.text "a", .float 0x7ff0000000000001), (.bytes [2], .null)])]) := by
  apply (canonicalBytes_eq_iff_equiv ?_ ?_).1 ⟨_, encodeValue_of_fits ?_⟩
  · simp only [DistinctKeys, Value.Every, Value.EveryEntry, NodeDistinct]
    decide
  · simp only [DistinctKeys, Value.Every, Value.EveryEntry, NodeDistinct]
    decide
  · simp only [Value.Fits, Value.Every, Value.EveryEntry, Value.NodeFits]
    decide

end Spex.Cbor
