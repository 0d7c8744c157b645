import Spex.EnvelopeWire

/-!
# Decoding by field names

`decode_ctap2` of a grant and of a contact card uses the decoder that is derived
from the structure. It finds the fields of a structure by their names, while the
encoder writes them under integers. So no encoded grant and no encoded card is ever
decoded.
-/
namespace Spex
open Cbor KeySort Fallible

/-- An item without the tags around it. -/
def Value.untagged : Value → Value
  | .tag _ value => value.untagged
  | value => value

/-- A key that stands for a name: the text, or its bytes. -/
def Value.Spells (key : Value) (name : String) : Prop :=
  key.untagged = .text name ∨ key.untagged = .bytes (Value.utf8 name)

/-- `from_ctap2_canonical_slice` for a type with a decoder. -/
def fromCtap2CanonicalSliceAs {α : Type} (library : Ciborium)
    (deserialize : Bytes → Except String α) (bytes : Bytes) : Except SpexError α := do
  let value ← ctap2CanonicalValueFromSlice library.fromReader bytes
  let buf ← (library.intoWriter value).mapError .cbor
  (deserialize buf).mapError .cbor

/-- Envelopes have a decoder of their own, a visitor of integer keys. -/
theorem fromCtap2CanonicalSlice_eq (library : Ciborium) (bytes : Bytes) :
    fromCtap2CanonicalSlice library bytes = fromCtap2CanonicalSliceAs library
      (fun buf => library.readMap buf >>= EnvelopeVisitor.visitMap) bytes := by
  have hmap : ∀ buf, ((library.readMap buf).mapError SpexError.cbor >>= fun entries =>
      (EnvelopeVisitor.visitMap entries).mapError .cbor) =
      (library.readMap buf >>= EnvelopeVisitor.visitMap).mapError .cbor := by
    intro buf
    cases library.readMap buf <;> rfl
  simp only [fromCtap2CanonicalSlice, fromCtap2CanonicalSliceAs, hmap]

/-- A derived decoder matches the entries of a map to fields by their names, and wants
an entry for every required field. -/
def MatchesByName {α : Type} (library : Ciborium) (deserialize : Bytes → Except String α)
    (required : List String) : Prop :=
  ∀ (value : Value) (buf : Bytes) (a : α), value.Fits → library.intoWriter value = .ok buf →
    deserialize buf = .ok a → ∃ entries, value.untagged = .map entries ∧
      ∀ name ∈ required, ∃ entry ∈ entries, entry.1.Spells name

/-- The fields of a grant that are not optional. -/
def GrantToken.requiredFields : List String := ["user_id", "role", "extensions"]

/-- The fields of a card that are not optional. -/
def ContactCard.requiredFields : List String :=
  ["user_id", "verifying_key", "device_id", "device_nonce", "issued_at", "extensions"]

def GrantToken.decodeCtap2 (library : Ciborium) (deserialize : Bytes → Except String GrantToken)
    (bytes : Bytes) : Except SpexError GrantToken :=
  fromCtap2CanonicalSliceAs library deserialize bytes

def ContactCard.decodeCtap2 (library : Ciborium) (deserialize : Bytes → Except String ContactCard)
    (bytes : Bytes) : Except SpexError ContactCard :=
  fromCtap2CanonicalSliceAs library deserialize bytes

/-- The canonical bytes of a structure decode to the structure. -/
def DecodesBack {α : Type} [Ctap2Cbor α] (decode : Bytes → Except SpexError α) (a : α) : Prop :=
  ∃ bytes, toCtap2CanonicalBytes a = .ok bytes ∧ decode bytes = .ok a

section Keys
variable {library : Ciborium}

theorem normalize_eq_integer {key : Value} {n : ℤ} (h : Cbor.normalize key = .integer n) :
    key = .integer n := by
  cases key with
  | integer m => exact h
  | _ => simp [Cbor.normalize] at h

/-- A value with the canonical bytes of a field map is a map with integer keys. -/
theorem integerKeys_of_wire {M : FieldMap} {value : Value} (hfits : M.toValue.Fits)
    (hvalue : value.Fits) (hwire : wire value = wire M.toValue) :
    ∃ entries, value = .map entries ∧ ∀ entry ∈ entries, ∃ n, entry.1 = .integer n := by
  have hread := readCbor_wire hvalue
  rw [hwire, readCbor_wire hfits, Option.some.injEq, Prod.mk.injEq, FieldMap.toValue_eq_integerMap,
    normalize_integerMap, integerMap] at hread
  have hnormal := hread.1
  cases value with
  | map entries =>
    refine ⟨entries, rfl, fun entry hentry => ?_⟩
    rw [normalize_map, Value.map.injEq] at hnormal
    have hmem : normalizeEntry entry ∈ (sortOn ShortLex encodedKey entries).map normalizeEntry :=
      List.mem_map_of_mem ((mem_sortOn _ _ _ _).mpr hentry)
    rw [← hnormal] at hmem
    obtain ⟨field, -, hfield⟩ := List.mem_map.mp hmem
    exact ⟨field.1, normalize_eq_integer (congrArg Prod.fst hfield).symm⟩
  | _ => simp [Cbor.normalize] at hnormal

theorem not_spells_integer (n : ℤ) (name : String) : ¬ (Value.integer n).Spells name := by
  simp [Value.Spells, Value.untagged]

/-- What is encoded as a field map has no entry with a name. -/
theorem not_decodesBack {α : Type} [Ctap2Cbor α] {deserialize : Bytes → Except String α}
    {required : List String} {name : String} (hmatch : MatchesByName library deserialize required)
    (hname : name ∈ required) {a : α} {M : FieldMap} (ha : toCborValue a = M.toValue) :
    ¬ DecodesBack (fromCtap2CanonicalSliceAs library deserialize) a := by
  rintro ⟨bytes, hbytes, hdecode⟩
  rw [toCtap2CanonicalBytes, ha] at hbytes
  obtain ⟨hfits, rfl⟩ := encodeValue_eq_ok hbytes
  obtain ⟨value, hvalue, hdecode⟩ := bind_eq_ok.mp hdecode
  obtain ⟨buf, hbuf, htyped⟩ := bind_eq_ok.mp hdecode
  obtain ⟨-, hvalueFits, hwire⟩ := fromSlice_eq_ok hvalue
  obtain ⟨entries, rfl, hkeys⟩ := integerKeys_of_wire hfits hvalueFits hwire
  obtain ⟨entries', hentries, hnames⟩ := hmatch _ _ _ hvalueFits (mapError_eq_ok.mp hbuf)
    (mapError_eq_ok.mp htyped)
  obtain rfl : entries = entries' := Value.map.inj hentries
  obtain ⟨entry, hentry, hspells⟩ := hnames name hname
  obtain ⟨n, hn⟩ := hkeys entry hentry
  rw [hn] at hspells
  exact not_spells_integer n name hspells

/-- No grant and no card comes back from its canonical bytes. -/
theorem typed_decode_never {grantDecoder : Bytes → Except String GrantToken}
    {cardDecoder : Bytes → Except String ContactCard}
    (hgrant : MatchesByName library grantDecoder GrantToken.requiredFields)
    (hcard : MatchesByName library cardDecoder ContactCard.requiredFields) :
    (∀ grant, ¬ DecodesBack (GrantToken.decodeCtap2 library grantDecoder) grant) ∧
      ∀ card, ¬ DecodesBack (ContactCard.decodeCtap2 library cardDecoder) card :=
  ⟨fun _ => not_decodesBack hgrant (List.mem_cons_self : "user_id" ∈ _) rfl,
    fun _ => not_decodesBack hcard (List.mem_cons_self : "user_id" ∈ _) rfl⟩

end Keys

section Sample
variable {fields : List (String × Value)}

def fieldName : Value × Value → Except String (String × Value)
  | (.text name, value) => .ok (name, value)
  | _ => .error "invalid type: expected str or bytes"

/-- The named fields of a map. -/
def readStruct (bytes : Bytes) : Except String (List (String × Value)) :=
  match readCbor bytes with
  | some (.map entries, []) => entries.mapM fieldName
  | _ => .error "not one definite-length map"

def requireField {α : Type} (fields : List (String × Value)) (name : String)
    (read : Value → Option α) : Except String α :=
  match fields.lookup name with
  | some value => (read value).elim (.error "invalid type") .ok
  | none => .error (EnvelopeVisitor.missingField name)

def optionalField {α : Type} (fields : List (String × Value)) (name : String)
    (read : Value → Option α) : Except String (Option α) :=
  match fields.lookup name with
  | some value => (read value).elim (.error "invalid type") fun a => .ok (some a)
  | none => .ok none

def readBytes : Value → Option Bytes
  | .bytes bytes => some bytes
  | _ => none

def readU64 : Value → Option UInt64
  | .integer n => if 0 ≤ n ∧ n < 2 ^ 64 then some (UInt64.ofNat n.toNat) else none
  | _ => none

/-- Only the empty map. -/
def readExtensions : Value → Option FieldMap
  | .map [] => some ∅
  | _ => none

/-- A decoder as it is derived for a grant. -/
def grantByName (bytes : Bytes) : Except String GrantToken := do
  let fields ← readStruct bytes
  let userId ← requireField fields "user_id" readBytes
  let role ← requireField fields "role" readU64
  let flags ← optionalField fields "flags" readU64
  let expiresAt ← optionalField fields "expires_at" readU64
  let extensions ← requireField fields "extensions" readExtensions
  return ⟨userId, role, flags, expiresAt, extensions⟩

/-- A decoder as it is derived for a card, which reads no invite. -/
def cardByName (bytes : Bytes) : Except String ContactCard := do
  let fields ← readStruct bytes
  let userId ← requireField fields "user_id" readBytes
  let verifyingKey ← requireField fields "verifying_key" readBytes
  let deviceId ← requireField fields "device_id" readBytes
  let deviceNonce ← requireField fields "device_nonce" readBytes
  let issuedAt ← requireField fields "issued_at" readU64
  let invite ← optionalField fields "invite" fun _ => none
  let signature ← optionalField fields "signature" readBytes
  let extensions ← requireField fields "extensions" readExtensions
  return ⟨userId, verifyingKey, deviceId, deviceNonce, issuedAt, invite, signature, extensions⟩

theorem mem_of_requireField {α : Type} {name : String} {read : Value → Option α} {a : α}
    (h : requireField fields name read = .ok a) : ∃ value, (name, value) ∈ fields := by
  rw [requireField] at h
  split at h
  · rename_i value hlookup
    obtain ⟨before, after, rfl, -⟩ := List.lookup_eq_some_iff.mp hlookup
    exact ⟨value, by simp⟩
  · cases h

theorem normalize_eq_text {key : Value} {name : String} (h : Cbor.normalize key = .text name) :
    key = .text name := by
  cases key with
  | text s => exact h
  | _ => simp [Cbor.normalize] at h

/-- The fields that are read from a written value are entries of it. -/
theorem readStruct_writeInOrder {value : Value} (hfits : value.Fits)
    (h : readStruct (writeInOrder value) = .ok fields) :
    ∃ entries, value.untagged = .map entries ∧
      ∀ name, (∃ content, (name, content) ∈ fields) →
        ∃ entry ∈ entries, entry.1.Spells name := by
  rw [readStruct] at h
  cases value with
  | map entries =>
    rw [readCbor_writeInOrder hfits] at h
    refine ⟨entries, rfl, fun name ⟨content, hfield⟩ => ?_⟩
    obtain ⟨entry, hentry, hname⟩ := exists_mem_of_forall₂ (mapM_eq_ok.mp h).flip hfield
    obtain ⟨entry', hentry', rfl⟩ := List.mem_map.mp hentry
    refine ⟨entry', hentry', .inl ?_⟩
    generalize hkey : normalizeEntry entry' = normal at hname
    obtain ⟨key, content'⟩ := normal
    cases key with
    | text s =>
      obtain ⟨rfl, -⟩ := Prod.mk.inj (Except.ok.inj hname)
      rw [normalize_eq_text (congrArg Prod.fst hkey)]
      rfl
    | _ => cases hname
  | _ =>
    simp only [writeInOrder, readCbor_wire hfits, Cbor.normalize] at h
    cases h

theorem grantByName_matches : MatchesByName rfcLibrary grantByName GrantToken.requiredFields := by
  intro value buf grant hfits hwrite h
  obtain rfl := Except.ok.inj hwrite
  obtain ⟨fields, hfields, h⟩ := bind_eq_ok.mp h
  obtain ⟨_, huser, h⟩ := bind_eq_ok.mp h
  obtain ⟨_, hrole, h⟩ := bind_eq_ok.mp h
  obtain ⟨_, -, h⟩ := bind_eq_ok.mp h
  obtain ⟨_, -, h⟩ := bind_eq_ok.mp h
  obtain ⟨_, hextensions, -⟩ := bind_eq_ok.mp h
  obtain ⟨entries, hentries, hnames⟩ := readStruct_writeInOrder hfits hfields
  refine ⟨entries, hentries, ?_⟩
  simp only [GrantToken.requiredFields, List.forall_mem_cons]
  exact ⟨hnames _ (mem_of_requireField huser), hnames _ (mem_of_requireField hrole),
    hnames _ (mem_of_requireField hextensions), by simp⟩

theorem cardByName_matches : MatchesByName rfcLibrary cardByName ContactCard.requiredFields := by
  intro value buf card hfits hwrite h
  obtain rfl := Except.ok.inj hwrite
  obtain ⟨fields, hfields, h⟩ := bind_eq_ok.mp h
  obtain ⟨_, huser, h⟩ := bind_eq_ok.mp h
  obtain ⟨_, hkey, h⟩ := bind_eq_ok.mp h
  obtain ⟨_, hdevice, h⟩ := bind_eq_ok.mp h
  obtain ⟨_, hnonce, h⟩ := bind_eq_ok.mp h
  obtain ⟨_, hissued, h⟩ := bind_eq_ok.mp h
  obtain ⟨_, -, h⟩ := bind_eq_ok.mp h
  obtain ⟨_, -, h⟩ := bind_eq_ok.mp h
  obtain ⟨_, hextensions, -⟩ := bind_eq_ok.mp h
  obtain ⟨entries, hentries, hnames⟩ := readStruct_writeInOrder hfits hfields
  refine ⟨entries, hentries, ?_⟩
  simp only [ContactCard.requiredFields, List.forall_mem_cons]
  exact ⟨hnames _ (mem_of_requireField huser), hnames _ (mem_of_requireField hkey),
    hnames _ (mem_of_requireField hdevice), hnames _ (mem_of_requireField hnonce),
    hnames _ (mem_of_requireField hissued), hnames _ (mem_of_requireField hextensions), by simp⟩

theorem typed_decode_never_sample :
    ¬ DecodesBack (GrantToken.decodeCtap2 rfcLibrary grantByName) sampleGrant ∧
      ¬ DecodesBack (ContactCard.decodeCtap2 rfcLibrary cardByName)
        ⟨[1], [2], [3], [4], 5, none, none, ∅⟩ :=
  ⟨(typed_decode_never grantByName_matches cardByName_matches).1 _,
    (typed_decode_never grantByName_matches cardByName_matches).2 _⟩

/-- The bytes of the sample grant are canonical, and the first key is refused as a
name. -/
theorem encoded_grant_refused : toCtap2CanonicalBytes sampleGrant = .ok sampleBytes ∧
    GrantToken.decodeCtap2 rfcLibrary grantByName sampleBytes =
      .error (.cbor "invalid type: expected str or bytes") := by
  have hread : rfcReader sampleBytes =
      .ok (.map [(.integer 0, .bytes [1, 2, 3]), (.integer 1, .integer 1)]) := rfl
  have hwrite : ctap2CanonicalValueBytes
      (.map [(.integer 0, .bytes [1, 2, 3]), (.integer 1, .integer 1)]) = .ok sampleBytes := by
    decide
  refine ⟨sampleGrant_bytes, ?_⟩
  rw [GrantToken.decodeCtap2, fromCtap2CanonicalSliceAs, rfcLibrary,
    fromSlice_of_reader hread hwrite]
  rfl

end Sample
end Spex
