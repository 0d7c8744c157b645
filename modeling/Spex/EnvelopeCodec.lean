import Spex.CborMapKeys
import Spex.EnvelopeDecode

/-!
# Reading an envelope back

`from_ctap2_canonical_slice` accepts canonical bytes as a value, writes the value
with the CBOR library and reads it again as an envelope. The library is a
parameter. An envelope without extensions comes back from its canonical bytes.
-/
namespace Spex
open Cbor KeySort Fallible

/-- A CBOR map with integer keys. -/
def integerMap (entries : List (ℤ × Value)) : Value :=
  .map (entries.map fun entry => (.integer entry.1, entry.2))

/-- Every value is an integer or a byte string. -/
def FlatEntries (entries : List (ℤ × Value)) : Prop :=
  ∀ entry ∈ entries, (∃ n, entry.2 = .integer n) ∨ ∃ bytes, entry.2 = .bytes bytes

/-- The functions of the CBOR library, with their errors already rendered:
`from_reader` for a value, `into_writer`, and `from_reader` for a map, which hands
its entries to a visitor. -/
structure Ciborium where
  fromReader : Bytes → Except String Value
  intoWriter : Value → Except String Bytes
  readMap : Bytes → Except String (List (ℤ × Value))

/-- On flat maps the library decodes as RFC 8949 says, and what it has written it
reads back. -/
structure Ciborium.Faithful (library : Ciborium) : Prop where
  reads : ∀ entries bytes, FlatEntries entries → readCbor bytes = some (integerMap entries, []) →
    library.fromReader bytes = .ok (integerMap entries)
  writes : ∀ entries, FlatEntries entries → (integerMap entries).Fits →
    ∃ bytes, library.intoWriter (integerMap entries) = .ok bytes ∧
      library.readMap bytes = .ok entries

def fromCtap2CanonicalSlice (library : Ciborium) (bytes : Bytes) : Except SpexError Envelope := do
  let value ← ctap2CanonicalValueFromSlice library.fromReader bytes
  let buf ← (library.intoWriter value).mapError .cbor
  let entries ← (library.readMap buf).mapError .cbor
  (EnvelopeVisitor.visitMap entries).mapError .cbor

section RoundTrip

/-- The entries of an envelope without extensions. -/
def Envelope.namedEntries (self : Envelope) : List (ℤ × Value) :=
  [(0, .bytes self.threadId), (1, .integer self.epoch.toNat), (2, .integer self.seq.toNat),
    (3, .bytes self.senderUserId), (4, .bytes self.ciphertext)] ++
    (self.signature.map fun signature => (5, Value.bytes signature)).toList

variable {envelope : Envelope}

theorem toCborValue_envelope (hextensions : envelope.extensions = ∅) :
    toCborValue envelope = integerMap envelope.namedEntries := by
  obtain ⟨threadId, epoch, seq, senderUserId, ciphertext, signature, extensions⟩ := envelope
  obtain rfl : extensions = ∅ := hextensions
  cases signature with
  | none => rfl
  | some signature => rfl

theorem flat_namedEntries : FlatEntries envelope.namedEntries := by
  intro entry hentry
  cases hsignature : envelope.signature <;>
    simp only [Envelope.namedEntries, hsignature, Option.map_some, Option.map_none,
      Option.toList_some, Option.toList_none, List.cons_append, List.nil_append, List.mem_cons,
      List.not_mem_nil, or_false] at hentry
  · rcases hentry with rfl | rfl | rfl | rfl | rfl <;> simp
  · rcases hentry with rfl | rfl | rfl | rfl | rfl | rfl <;> simp

theorem normalizeEntry_flat {entries : List (ℤ × Value)} (hflat : FlatEntries entries) :
    (entries.map fun entry => (Value.integer entry.1, entry.2)).map normalizeEntry =
      entries.map fun entry => (Value.integer entry.1, entry.2) := by
  rw [List.map_map]
  refine List.map_congr_left fun entry hentry => ?_
  rcases hflat entry hentry with ⟨n, hn⟩ | ⟨bytes, hbytes⟩
  · simp [normalizeEntry, hn, Cbor.normalize]
  · simp [normalizeEntry, hbytes, Cbor.normalize]

/-- The named entries stand in the order in which the encoder writes them. -/
theorem normalize_namedEntries :
    Cbor.normalize (integerMap envelope.namedEntries) = integerMap envelope.namedEntries := by
  have hsorted : ((envelope.namedEntries.map fun entry => (Value.integer entry.1, entry.2)).map
      encodedKey).Pairwise ShortLex := by
    rw [List.map_map]
    cases hsignature : envelope.signature <;>
      simp only [Envelope.namedEntries, hsignature, List.map_append, List.map_cons, List.map_nil,
        Option.map_some, Option.map_none, Option.toList_some, Option.toList_none,
        Function.comp_apply, encodedKey]
    · decide
    · decide
  rw [integerMap, normalize_map, sortOn_of_pairwise _ _ _ (List.pairwise_map.mp hsorted),
    normalizeEntry_flat flat_namedEntries]

theorem visitMap_namedEntries (hextensions : envelope.extensions = ∅) :
    EnvelopeVisitor.visitMap envelope.namedEntries = .ok envelope := by
  have hepoch := EnvelopeVisitor.valueAsU32_toNat envelope.epoch "epoch"
  have hseq := EnvelopeVisitor.valueAsU64_toNat envelope.seq "seq"
  obtain ⟨threadId, epoch, seq, senderUserId, ciphertext, signature, extensions⟩ := envelope
  obtain rfl : extensions = ∅ := hextensions
  cases signature <;>
    simp [EnvelopeVisitor.visitMap, Envelope.namedEntries, EnvelopeVisitor.visitEntry, hepoch, hseq,
      EnvelopeVisitor.valueAsBytes, EnvelopeVisitor.new, EnvelopeVisitor.finish,
      EnvelopeVisitor.require]

/-- The canonical bytes of an envelope without extensions read back as the envelope. -/
theorem fromCtap2CanonicalSlice_envelope {library : Ciborium} (hlibrary : library.Faithful)
    {payload : Bytes} (hextensions : envelope.extensions = ∅)
    (hpayload : toCtap2CanonicalBytes envelope = .ok payload) :
    fromCtap2CanonicalSlice library payload = .ok envelope := by
  rw [toCtap2CanonicalBytes, toCborValue_envelope hextensions] at hpayload
  obtain ⟨hfits, rfl⟩ := encodeValue_eq_ok hpayload
  have hcbor := readCbor_wire hfits
  rw [normalize_namedEntries] at hcbor
  have hread := hlibrary.reads _ _ flat_namedEntries hcbor
  obtain ⟨buf, hwrite, hentries⟩ := hlibrary.writes _ flat_namedEntries hfits
  refine bind_eq_ok.mpr ⟨_, fromSlice_of_reader hread hpayload, ?_⟩
  refine bind_eq_ok.mpr ⟨_, mapError_eq_ok.mpr hwrite, ?_⟩
  refine bind_eq_ok.mpr ⟨_, mapError_eq_ok.mpr hentries, ?_⟩
  exact mapError_eq_ok.mpr (visitMap_namedEntries hextensions)

theorem length_encodeU64_le (major : UInt8) (n : UInt64) : (encodeU64 major n).length ≤ 9 := by
  unfold encodeU64
  split_ifs <;> simp [u16Be, u32Be, u64Be, BigEndian.length_write]

theorem length_wire_integer_le (n : ℤ) : (wire (.integer n)).length ≤ 9 := by
  unfold wire
  split_ifs
  · exact length_encodeU64_le _ _
  · exact length_encodeU64_le _ _

theorem length_wire_bytes_le (bytes : Bytes) : (wire (.bytes bytes)).length ≤ bytes.length + 9 := by
  have hhead := length_encodeU64_le majorBytes (UInt64.ofNat bytes.length)
  rw [wire, List.length_append]
  omega

/-- The bytes of an envelope are little longer than what it carries. -/
theorem length_envelope_le {payload : Bytes} (hextensions : envelope.extensions = ∅)
    (hpayload : toCtap2CanonicalBytes envelope = .ok payload) :
    payload.length ≤ envelope.threadId.length + envelope.senderUserId.length +
      envelope.ciphertext.length + (envelope.signature.getD []).length + 117 := by
  rw [toCtap2CanonicalBytes, toCborValue_envelope hextensions] at hpayload
  obtain ⟨-, rfl⟩ := encodeValue_eq_ok hpayload
  have hhead := length_encodeU64_le majorMap (UInt64.ofNat envelope.namedEntries.length)
  have hkeys := fun n : ℤ => length_wire_integer_le n
  have hthread := length_wire_bytes_le envelope.threadId
  have hepoch := length_wire_integer_le envelope.epoch.toNat
  have hseq := length_wire_integer_le envelope.seq.toNat
  have hsender := length_wire_bytes_le envelope.senderUserId
  have hciphertext := length_wire_bytes_le envelope.ciphertext
  have hsignature := length_wire_bytes_le (envelope.signature.getD [])
  rw [integerMap, length_wire_map, List.length_map, List.map_map]
  cases hsigned : envelope.signature <;>
    simp only [Envelope.namedEntries, hsigned, Option.map_some, Option.map_none, Option.toList_some,
      Option.toList_none, List.cons_append, List.nil_append, List.map_cons, List.map_nil,
      Function.comp_apply, List.sum_cons, List.sum_nil, Option.getD_some, Option.getD_none]
      at hhead hsignature ⊢
  · linarith [hkeys 0, hkeys 1, hkeys 2, hkeys 3, hkeys 4]
  · linarith [hkeys 0, hkeys 1, hkeys 2, hkeys 3, hkeys 4, hkeys 5]

end RoundTrip

section Rfc

/-- A map written in the order of its entries. -/
def writeInOrder : Value → Bytes
  | .map entries => encodeU64 majorMap (UInt64.ofNat entries.length) ++
      entries.flatMap fun entry => wire entry.1 ++ wire entry.2
  | value => wire value

def integerKey : Value × Value → Except String (ℤ × Value)
  | (.integer n, value) => .ok (n, value)
  | _ => .error "invalid type: expected i128"

/-- A library that reads and writes definite-length items. -/
def rfcLibrary : Ciborium where
  fromReader := rfcReader
  intoWriter value := .ok (writeInOrder value)
  readMap bytes := match readCbor bytes with
    | some (.map entries, []) => entries.mapM integerKey
    | _ => .error "not one definite-length map"

theorem readCbor_writeInOrder {entries : List (Value × Value)} (hfits : (Value.map entries).Fits) :
    readCbor (writeInOrder (.map entries)) = some (.map (entries.map normalizeEntry), []) := by
  rw [Value.fits_map] at hfits
  have hread : ∀ entry ∈ entries, ReadsBack entry.1 ∧ ReadsBack entry.2 := fun entry hentry =>
    ⟨readsBack (hfits.2 entry hentry).1, readsBack (hfits.2 entry hentry).2⟩
  have hhead := List.length_pos_of_ne_nil
    (encodeU64_ne_nil majorMap (UInt64.ofNat entries.length))
  rw [readCbor, writeInOrder, List.length_append]
  obtain ⟨fuel, hfuel⟩ := Nat.exists_eq_succ_of_ne_zero
    (by omega : 2 * ((encodeU64 majorMap (UInt64.ofNat entries.length)).length +
      (entries.flatMap fun entry => wire entry.1 ++ wire entry.2).length) ≠ 0)
  have hentries := readItem_entries hfits.1 hread [] (by omega : _ < fuel)
  rw [List.append_nil] at hentries
  rw [hfuel, hentries]

theorem faithful_rfcLibrary : rfcLibrary.Faithful where
  reads entries bytes _ hcbor := decodesRfc8949_rfcReader bytes _ hcbor
  writes entries hflat hfits := by
    refine ⟨_, rfl, ?_⟩
    have hcbor := readCbor_writeInOrder hfits
    rw [normalizeEntry_flat hflat] at hcbor
    change (match readCbor (writeInOrder (integerMap entries)) with
      | some (.map entries, []) => entries.mapM integerKey
      | _ => .error "not one definite-length map") = _
    rw [integerMap, hcbor]
    rw [mapM_eq_ok, List.forall₂_map_left_iff, List.forall₂_same]
    exact fun entry _ => rfl

end Rfc
end Spex
