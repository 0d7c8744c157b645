import Spex.CborFloat

/-!
# Normal form of a CBOR value

The value that the canonical bytes stand for: map entries at every depth in the
order of their encoded keys, entries with one encoded key in their original
order, and one NaN. Normalising does not change the bytes.
-/
namespace Spex.Cbor
open KeySort

/-- The encoded key by which the encoder sorts an entry. -/
def encodedKey (e : Value × Value) : Bytes := wire e.1

/-- The bytes of a map, its entries in the order they are written. -/
theorem wire_map (es : List (Value × Value)) :
    wire (.map es) = encodeU64 majorMap (UInt64.ofNat es.length) ++
      (sortOn ShortLex encodedKey es).flatMap (fun e => wire e.1 ++ wire e.2) := by
  rw [wire, sortEncoded_wireEntries, List.flatMap_map]
  rfl

mutual

def normalize : Value → Value
  | .array xs => .array (normalizeItems xs)
  | .map es => .map (sortOn ShortLex encodedKey (normalizeEntries es))
  | .tag t v => .tag t (normalize v)
  | .float f => .float (canonicalNan f)
  | v => v

def normalizeItems : List Value → List Value
  | [] => []
  | x :: xs => normalize x :: normalizeItems xs

def normalizeEntries : List (Value × Value) → List (Value × Value)
  | [] => []
  | (k, v) :: es => (normalize k, normalize v) :: normalizeEntries es

end

/-- Both parts of an entry, normalised. -/
def normalizeEntry (e : Value × Value) : Value × Value := (normalize e.1, normalize e.2)

theorem normalizeItems_eq (xs : List Value) : normalizeItems xs = xs.map normalize := by
  induction xs with
  | nil => rfl
  | cons x xs ih => simp [normalizeItems, ih]

theorem normalizeEntries_eq (es : List (Value × Value)) :
    normalizeEntries es = es.map normalizeEntry := by
  induction es with
  | nil => rfl
  | cons e es ih => simp [normalizeEntries, normalizeEntry, ih]

/-- The encoder writes the same bytes for a value and for its normal form. -/
theorem wire_normalize (v : Value) : wire (normalize v) = wire v := by
  induction v with
  | null | bool | integer | bytes | text => rfl
  | array xs ih =>
    have hitems : (xs.map normalize).flatMap wire = xs.flatMap wire := by
      rw [List.flatMap_map]
      exact List.flatMap_congr ih
    rw [normalize, wire, wire, wireItems_eq, wireItems_eq, normalizeItems_eq, hitems,
      List.length_map]
  | map es ih =>
    have hentries : (es.map normalizeEntry).map wireEntry = es.map wireEntry := by
      rw [List.map_map]
      apply List.map_congr_left
      intro e he
      exact Prod.ext (ih e he).1 (ih e he).2
    have hsorted : sortEncoded (wireEntries (sortOn ShortLex encodedKey (normalizeEntries es))) =
        sortEncoded (wireEntries es) := by
      rw [sortEncoded_wireEntries]
      unfold encodedKey
      rw [sortOn_idem, ← sortEncoded_wireEntries, wireEntries_eq, wireEntries_eq,
        normalizeEntries_eq, hentries]
    rw [normalize, wire, wire, hsorted, length_sortOn, normalizeEntries_eq, List.length_map]
  | tag t v ih => rw [normalize, wire, wire, ih]
  | float f => exact encodeFloat_canonicalNan f

/-- Sorting by encoded key commutes with normalising the entries. -/
theorem sortOn_normalizeEntry (es : List (Value × Value)) :
    sortOn ShortLex encodedKey (es.map normalizeEntry) =
      (sortOn ShortLex encodedKey es).map normalizeEntry := by
  rw [map_sortOn ShortLex encodedKey encodedKey normalizeEntry]
  intro e _
  exact wire_normalize e.1

theorem normalize_map (es : List (Value × Value)) :
    normalize (.map es) = .map ((sortOn ShortLex encodedKey es).map normalizeEntry) := by
  rw [normalize, normalizeEntries_eq, sortOn_normalizeEntry]

theorem normalize_array (xs : List Value) : normalize (.array xs) = .array (xs.map normalize) := by
  rw [normalize, normalizeItems_eq]

/-- A value is within the lengths and the integer range exactly if its normal form is. -/
theorem fits_normalize_iff (v : Value) : (normalize v).Fits ↔ v.Fits := by
  induction v with
  | null | bool | integer | bytes | text => exact Iff.rfl
  | array xs ih =>
    rw [normalize_array, Value.fits_array, Value.fits_array, List.length_map, List.forall_mem_map]
    exact and_congr_right fun _ => forall₂_congr ih
  | map es ih =>
    rw [normalize_map, Value.fits_map, Value.fits_map, List.length_map, length_sortOn,
      List.forall_mem_map]
    simp only [mem_sortOn]
    exact and_congr_right fun _ => forall₂_congr fun e he => and_congr (ih e he).1 (ih e he).2
  | tag t v ih =>
    rw [normalize, Value.fits_tag, Value.fits_tag]
    exact ih
  | float f => exact iff_of_true (Value.fits_float _) (Value.fits_float _)

theorem fits_normalize {v : Value} (h : v.Fits) : (normalize v).Fits :=
  (fits_normalize_iff v).mpr h

end Spex.Cbor
