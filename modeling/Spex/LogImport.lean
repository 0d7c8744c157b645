import Spex.CheckpointLog
import Spex.TypedDecode

/-!
# What an imported log may be written as

A log is exported through a generic value whose maps are sorted, and imported straight
into the struct. The import reads the first item of its input, matches fields by name and
skips what it does not know, so many inputs give one log. The input is the export of the
log it gives exactly if it is canonical and holds nothing but the fields of a log.
-/
namespace Spex
open Cbor KeySort Fallible

section Serialized

/-- A byte vector is serialized as a sequence of integers. -/
def byteArray (bytes : Bytes) : Value := .array (bytes.map fun byte => .integer byte.toNat)

def nullable {α : Type} (write : α → Value) : Option α → Value
  | none => .null
  | some a => write a

/-- A struct is serialized as a map with the names of its fields. -/
def structValue (fields : List (String × Value)) : Value :=
  .map (fields.map fun field => (.text field.1, field.2))

/-- The variant of an entry and its fields, in the order of their declaration. -/
def CheckpointEntry.variant : CheckpointEntry → String × List (String × Value)
  | .key entry => ("Key",
      [("user_id", byteArray entry.userId), ("verifying_key", byteArray entry.verifyingKey),
        ("device_id", byteArray entry.deviceId), ("issued_at", .integer entry.issuedAt.toNat)])
  | .recovery entry => ("Recovery",
      [("user_id", byteArray entry.userId), ("recovery_key", byteArray entry.recoveryKey),
        ("issued_at", .integer entry.issuedAt.toNat)])
  | .revocation entry => ("Revocation",
      [("user_id", byteArray entry.userId), ("revoked_key_hash", byteArray entry.revokedKeyHash),
        ("revoked_at", .integer entry.revokedAt.toNat),
        ("recovery_key_hash", nullable byteArray entry.recoveryKeyHash),
        ("reason", nullable .text entry.reason)])

def CheckpointEntry.serialized (entry : CheckpointEntry) : Value :=
  structValue [(entry.variant.1, structValue entry.variant.2)]

/-- The value of a log with these entries; the Merkle state is skipped. -/
def serializedLog (entries : List CheckpointEntry) : Value :=
  structValue [("entries", .array (entries.map CheckpointEntry.serialized))]

end Serialized

/-- The CBOR library on logs, with its errors already rendered: `into_writer` for a log,
and `from_reader` for a value and for a log. -/
structure LogLibrary where
  intoWriter : List CheckpointEntry → Except String Bytes
  fromReader : Bytes → Except String Value
  readLog : Bytes → Except String (List CheckpointEntry)

/-- `to_ctap2_canonical_bytes` and `from_reader`. -/
def LogLibrary.codec (library : LogLibrary) : LogCodec where
  encode entries := do
    let buf ← (library.intoWriter entries).mapError .cbor
    let value ← (library.fromReader buf).mapError .cbor
    ctap2CanonicalValueBytes value
  decode := library.readLog
  base64Error _ := "Invalid padding"

/-- The library writes a log so that it is read as the log's value, up to the order of
maps. It reads the canonical bytes of a log, as a value in wire order and as a log in any
order of the fields, and returns nothing that is too long for a 64-bit length. -/
structure LogLibrary.Faithful (library : LogLibrary) : Prop where
  writes : ∀ entries, (serializedLog entries).Fits → ∃ buf value,
    library.intoWriter entries = .ok buf ∧ library.fromReader buf = .ok value ∧ value.Fits ∧
      Cbor.normalize value = Cbor.normalize (serializedLog entries)
  reads : ∀ entries, (serializedLog entries).Fits →
    library.fromReader (wire (serializedLog entries)) =
      .ok (Cbor.normalize (serializedLog entries))
  readsBack : ∀ entries, (serializedLog entries).Fits →
    library.readLog (wire (serializedLog entries)) = .ok entries
  fits : ∀ bytes entries, library.readLog bytes = .ok entries → (serializedLog entries).Fits

section Shapes

def IsByteArray (value : Value) : Prop :=
  ∃ items, value = .array items ∧ ∀ item ∈ items, ∃ n : ℤ, item = .integer n ∧ 0 ≤ n ∧ n < 256

def IsU64 (value : Value) : Prop := ∃ n : ℤ, value = .integer n ∧ 0 ≤ n ∧ n < 2 ^ 64

def IsText (value : Value) : Prop := ∃ text, value = .text text

/-- The fields have these names, in this order, and contents of these kinds. -/
def FieldsShaped (fields : List (String × Value)) (shape : List (String × (Value → Prop))) : Prop :=
  List.Forall₂ (fun field expected => field.1 = expected.1 ∧ expected.2 field.2) fields shape

/-- A map with exactly these fields. -/
def Shaped (shape : List (String × (Value → Prop))) (value : Value) : Prop :=
  ∃ fields, value = structValue fields ∧ FieldsShaped fields shape

/-- The fields of a checkpoint in the canonical order, which is by length first. -/
def keyShape : List (String × (Value → Prop)) :=
  [("user_id", IsByteArray), ("device_id", IsByteArray), ("issued_at", IsU64),
    ("verifying_key", IsByteArray)]

def recoveryShape : List (String × (Value → Prop)) :=
  [("user_id", IsByteArray), ("issued_at", IsU64), ("recovery_key", IsByteArray)]

def revocationShape : List (String × (Value → Prop)) :=
  [("reason", fun value => value = .null ∨ IsText value), ("user_id", IsByteArray),
    ("revoked_at", IsU64), ("revoked_key_hash", IsByteArray),
    ("recovery_key_hash", fun value => value = .null ∨ IsByteArray value)]

def EntryShaped (value : Value) : Prop :=
  Shaped [("Key", Shaped keyShape)] value ∨ Shaped [("Recovery", Shaped recoveryShape)] value ∨
    Shaped [("Revocation", Shaped revocationShape)] value

/-- The value has the fields of a log and nothing else. -/
def LogShaped (value : Value) : Prop :=
  Shaped [("entries", fun value => ∃ items, value = .array items ∧
    ∀ item ∈ items, EntryShaped item)] value

end Shapes

section Canonical

/-- The fields of an entry in the canonical order. -/
def CheckpointEntry.canonicalFields : CheckpointEntry → List (String × Value)
  | .key entry =>
    [("user_id", byteArray entry.userId), ("device_id", byteArray entry.deviceId),
      ("issued_at", .integer entry.issuedAt.toNat),
      ("verifying_key", byteArray entry.verifyingKey)]
  | .recovery entry =>
    [("user_id", byteArray entry.userId), ("issued_at", .integer entry.issuedAt.toNat),
      ("recovery_key", byteArray entry.recoveryKey)]
  | .revocation entry =>
    [("reason", nullable .text entry.reason), ("user_id", byteArray entry.userId),
      ("revoked_at", .integer entry.revokedAt.toNat),
      ("revoked_key_hash", byteArray entry.revokedKeyHash),
      ("recovery_key_hash", nullable byteArray entry.recoveryKeyHash)]

def CheckpointEntry.canonical (entry : CheckpointEntry) : Value :=
  structValue [(entry.variant.1, structValue entry.canonicalFields)]

def canonicalLog (entries : List CheckpointEntry) : Value :=
  structValue [("entries", .array (entries.map CheckpointEntry.canonical))]

/-- The canonical order of these names, none of them twice. -/
def InKeyOrder (names : List String) : Prop :=
  (names.map fun name => wire (.text name)).Pairwise fun a b => ShortLex a b ∧ a ≠ b

instance (names : List String) : Decidable (InKeyOrder names) :=
  inferInstanceAs (Decidable (List.Pairwise _ _))

/-- A struct is normalized by bringing its fields into order, if they are normal. -/
theorem normalize_structValue {fields sorted : List (String × Value)}
    (hperm : sorted.Perm fields) (horder : InKeyOrder (sorted.map Prod.fst))
    (hnormal : ∀ field ∈ fields, Cbor.normalize field.2 = field.2) :
    Cbor.normalize (structValue fields) = structValue sorted := by
  let entry : String × Value → Value × Value := fun field => (.text field.1, field.2)
  have hkeys : (sorted.map entry).Pairwise
      fun a b => ShortLex (encodedKey a) (encodedKey b) ∧ encodedKey a ≠ encodedKey b := by
    rw [InKeyOrder, List.map_map, List.pairwise_map] at horder
    exact List.pairwise_map.mpr horder
  have hnodup : ((sorted.map entry).map encodedKey).Nodup :=
    List.pairwise_map.mpr (hkeys.imp And.right)
  have hsort : sortOn ShortLex encodedKey (fields.map entry) = sorted.map entry := by
    rw [← sortOn_eq_of_perm ShortLex encodedKey hnodup (hperm.map entry)]
    exact sortOn_of_pairwise _ _ _ (hkeys.imp And.left)
  have hfixed : (sorted.map entry).map normalizeEntry = sorted.map entry := by
    rw [List.map_map]
    apply List.map_congr_left
    intro field hfield
    exact Prod.ext rfl (hnormal field (hperm.mem_iff.mp hfield))
  rw [structValue, normalize_map, hsort, hfixed, structValue]

theorem normalize_byteArray (bytes : Bytes) :
    Cbor.normalize (byteArray bytes) = byteArray bytes := by
  rw [byteArray, normalize_array, List.map_map]
  rfl

theorem normalize_nullable {α : Type} {write : α → Value}
    (hwrite : ∀ a, Cbor.normalize (write a) = write a) (content : Option α) :
    Cbor.normalize (nullable write content) = nullable write content := by
  cases content with
  | none => rfl
  | some a => exact hwrite a

/-- The declared fields of an entry, brought into the canonical order. -/
theorem normalize_fields (entry : CheckpointEntry) :
    Cbor.normalize (structValue entry.variant.2) = structValue entry.canonicalFields := by
  have htext : ∀ reason : Option String,
      Cbor.normalize (nullable .text reason) = nullable .text reason :=
    normalize_nullable fun _ => rfl
  have hhash : ∀ hash : Option Bytes,
      Cbor.normalize (nullable byteArray hash) = nullable byteArray hash :=
    normalize_nullable normalize_byteArray
  cases entry with
  | key entry =>
    apply normalize_structValue
    · exact .cons _ (List.perm_append_singleton _ [_, _])
    · show InKeyOrder ["user_id", "device_id", "issued_at", "verifying_key"]
      decide
    · simp [CheckpointEntry.variant, normalize_byteArray, Cbor.normalize]
  | recovery entry =>
    apply normalize_structValue
    · exact .cons _ (.swap _ _ _)
    · show InKeyOrder ["user_id", "issued_at", "recovery_key"]
      decide
    · simp [CheckpointEntry.variant, normalize_byteArray, Cbor.normalize]
  | revocation entry =>
    apply normalize_structValue
    · refine ((List.perm_append_singleton _ [_, _, _, _]).trans ?_).symm
      exact .cons _ (.cons _ (.swap _ _ _))
    · show InKeyOrder ["reason", "user_id", "revoked_at", "revoked_key_hash", "recovery_key_hash"]
      decide
    · simp [CheckpointEntry.variant, normalize_byteArray, htext, hhash, Cbor.normalize]

/-- A struct with one field keeps it, in normal form. -/
theorem normalize_single (name : String) (value : Value) :
    Cbor.normalize (structValue [(name, value)]) = structValue [(name, Cbor.normalize value)] := by
  rw [structValue, normalize_map]
  rfl

theorem normalize_serialized (entry : CheckpointEntry) :
    Cbor.normalize entry.serialized = entry.canonical := by
  rw [CheckpointEntry.serialized, normalize_single, normalize_fields, CheckpointEntry.canonical]

theorem normalize_serializedLog (entries : List CheckpointEntry) :
    Cbor.normalize (serializedLog entries) = canonicalLog entries := by
  rw [serializedLog, normalize_single, normalize_array, List.map_map, canonicalLog]
  have hitems : Cbor.normalize ∘ CheckpointEntry.serialized = CheckpointEntry.canonical :=
    funext normalize_serialized
  rw [hitems]

end Canonical

section Image
variable {value : Value} {p : Value → Prop} {fields : List (String × Value)}

theorem isByteArray_iff : IsByteArray value ↔ ∃ bytes, value = byteArray bytes := by
  constructor
  · rintro ⟨items, rfl, hitems⟩
    have hrange : items ∈ Set.range (List.map fun byte : UInt8 => Value.integer byte.toNat) := by
      rw [Set.range_list_map]
      intro item hitem
      obtain ⟨n, rfl, hn, hlt⟩ := hitems item hitem
      have hbyte : (UInt8.ofNat n.toNat).toNat = n.toNat := UInt8.toNat_ofNat_of_lt' (by
        have hsize : UInt8.size = 256 := rfl
        omega)
      exact ⟨UInt8.ofNat n.toNat, by simp only [hbyte, Int.toNat_of_nonneg hn]⟩
    obtain ⟨bytes, rfl⟩ := hrange
    exact ⟨bytes, rfl⟩
  · rintro ⟨bytes, rfl⟩
    refine ⟨_, rfl, ?_⟩
    rw [List.forall_mem_map]
    intro byte _
    have hbyte := byte.toNat_lt
    exact ⟨byte.toNat, rfl, by omega, by omega⟩

theorem isU64_iff : IsU64 value ↔ ∃ n : UInt64, value = .integer n.toNat := by
  constructor
  · rintro ⟨n, rfl, hn, hlt⟩
    have hword : (UInt64.ofNat n.toNat).toNat = n.toNat := UInt64.toNat_ofNat_of_lt' (by
      have hsize : UInt64.size = 2 ^ 64 := rfl
      omega)
    exact ⟨UInt64.ofNat n.toNat, by rw [hword, Int.toNat_of_nonneg hn]⟩
  · rintro ⟨n, rfl⟩
    have hword := n.toNat_lt
    exact ⟨n.toNat, rfl, by omega, by omega⟩

theorem nullable_iff {α : Type} {write : α → Value}
    (hp : ∀ {value}, p value ↔ ∃ a, value = write a) :
    (value = .null ∨ p value) ↔ ∃ content, value = nullable write content := by
  rw [hp, Option.exists]
  rfl

/-- The first field has the first name and the rest has the rest of the shape. -/
theorem fields_cons {name : String} {shape : List (String × (Value → Prop))} :
    FieldsShaped fields ((name, p) :: shape) ↔ ∃ content, p content ∧
      ∃ rest, FieldsShaped rest shape ∧ fields = (name, content) :: rest := by
  constructor
  · intro h
    obtain ⟨⟨_, content⟩, rest, ⟨rfl, hp⟩, hrest, rfl⟩ := List.forall₂_cons_right_iff.mp h
    exact ⟨content, hp, rest, hrest, rfl⟩
  · rintro ⟨content, hp, rest, hrest, rfl⟩
    exact .cons ⟨rfl, hp⟩ hrest

theorem fields_nil : FieldsShaped fields [] ↔ fields = [] :=
  List.forall₂_nil_right_iff

theorem shaped_single {name : String} :
    Shaped [(name, p)] value ↔ ∃ content, value = structValue [(name, content)] ∧ p content := by
  simp [Shaped, fields_cons, fields_nil]

theorem keyShaped_iff : Shaped keyShape value ↔
    ∃ entry, value = structValue (CheckpointEntry.key entry).canonicalFields := by
  simp only [Shaped, keyShape, fields_cons, fields_nil, isByteArray_iff, isU64_iff]
  constructor
  · rintro ⟨_, rfl, _, ⟨userId, rfl⟩, _, ⟨_, ⟨deviceId, rfl⟩, _, ⟨_, ⟨issuedAt, rfl⟩, _,
      ⟨_, ⟨verifyingKey, rfl⟩, _, rfl, rfl⟩, rfl⟩, rfl⟩, rfl⟩
    exact ⟨⟨userId, verifyingKey, deviceId, issuedAt⟩, rfl⟩
  · rintro ⟨entry, rfl⟩
    exact ⟨_, rfl, _, ⟨_, rfl⟩, _, ⟨_, ⟨_, rfl⟩, _, ⟨_, ⟨_, rfl⟩, _, ⟨_, ⟨_, rfl⟩, _, rfl, rfl⟩,
      rfl⟩, rfl⟩, rfl⟩

theorem recoveryShaped_iff : Shaped recoveryShape value ↔
    ∃ entry, value = structValue (CheckpointEntry.recovery entry).canonicalFields := by
  simp only [Shaped, recoveryShape, fields_cons, fields_nil, isByteArray_iff, isU64_iff]
  constructor
  · rintro ⟨_, rfl, _, ⟨userId, rfl⟩, _, ⟨_, ⟨issuedAt, rfl⟩, _, ⟨_, ⟨recoveryKey, rfl⟩, _, rfl,
      rfl⟩, rfl⟩, rfl⟩
    exact ⟨⟨userId, recoveryKey, issuedAt⟩, rfl⟩
  · rintro ⟨entry, rfl⟩
    exact ⟨_, rfl, _, ⟨_, rfl⟩, _, ⟨_, ⟨_, rfl⟩, _, ⟨_, ⟨_, rfl⟩, _, rfl, rfl⟩, rfl⟩, rfl⟩

theorem revocationShaped_iff : Shaped revocationShape value ↔
    ∃ entry, value = structValue (CheckpointEntry.revocation entry).canonicalFields := by
  have hreason : ∀ {value}, (value = .null ∨ IsText value) ↔
      ∃ reason, value = nullable .text reason := nullable_iff Iff.rfl
  have hhash : ∀ {value}, (value = .null ∨ IsByteArray value) ↔
      ∃ hash, value = nullable byteArray hash := nullable_iff isByteArray_iff
  simp only [Shaped, revocationShape, fields_cons, fields_nil, hreason, hhash]
  simp only [isByteArray_iff, isU64_iff]
  constructor
  · rintro ⟨_, rfl, _, ⟨reason, rfl⟩, _, ⟨_, ⟨userId, rfl⟩, _, ⟨_, ⟨revokedAt, rfl⟩, _,
      ⟨_, ⟨revokedKeyHash, rfl⟩, _, ⟨_, ⟨recoveryKeyHash, rfl⟩, _, rfl, rfl⟩, rfl⟩, rfl⟩, rfl⟩,
      rfl⟩
    exact ⟨⟨userId, revokedKeyHash, revokedAt, recoveryKeyHash, reason⟩, rfl⟩
  · rintro ⟨entry, rfl⟩
    exact ⟨_, rfl, _, ⟨_, rfl⟩, _, ⟨_, ⟨_, rfl⟩, _, ⟨_, ⟨_, rfl⟩, _, ⟨_, ⟨_, rfl⟩, _,
      ⟨_, ⟨_, rfl⟩, _, rfl, rfl⟩, rfl⟩, rfl⟩, rfl⟩, rfl⟩

theorem entryShaped_iff :
    EntryShaped value ↔ ∃ entry : CheckpointEntry, value = entry.canonical := by
  simp only [EntryShaped, shaped_single, keyShaped_iff, recoveryShaped_iff, revocationShaped_iff]
  constructor
  · rintro (⟨_, rfl, entry, rfl⟩ | ⟨_, rfl, entry, rfl⟩ | ⟨_, rfl, entry, rfl⟩)
    · exact ⟨.key entry, rfl⟩
    · exact ⟨.recovery entry, rfl⟩
    · exact ⟨.revocation entry, rfl⟩
  · rintro ⟨entry, rfl⟩
    cases entry with
    | key entry => exact .inl ⟨_, rfl, entry, rfl⟩
    | recovery entry => exact .inr (.inl ⟨_, rfl, entry, rfl⟩)
    | revocation entry => exact .inr (.inr ⟨_, rfl, entry, rfl⟩)

/-- The values with the shape of a log are the normal forms of serialized logs. -/
theorem logShaped_iff :
    LogShaped value ↔ ∃ entries, value = Cbor.normalize (serializedLog entries) := by
  simp only [LogShaped, shaped_single, entryShaped_iff, normalize_serializedLog]
  constructor
  · rintro ⟨_, rfl, items, rfl, hitems⟩
    have hrange : items ∈ Set.range (List.map CheckpointEntry.canonical) := by
      rw [Set.range_list_map]
      intro item hitem
      obtain ⟨entry, rfl⟩ := hitems item hitem
      exact ⟨entry, rfl⟩
    obtain ⟨entries, rfl⟩ := hrange
    exact ⟨entries, rfl⟩
  · rintro ⟨entries, rfl⟩
    refine ⟨_, rfl, _, rfl, ?_⟩
    rw [List.forall_mem_map]
    exact fun entry _ => ⟨entry, rfl⟩

end Image

section Import
variable {library : LogLibrary} {sha256 : Bytes → Bytes} {bytes : Bytes} {log : CheckpointLog}

theorem decode_of_fromCborBytes {codec : LogCodec}
    (h : CheckpointLog.fromCborBytes sha256 codec bytes = .ok log) :
    codec.decode bytes = .ok log.entries := by
  obtain ⟨entries, hentries, h⟩ := bind_eq_ok.mp h
  unfold settled CheckpointLog.rebuildMerkleState at h
  split at h
  · rw [← Except.ok.inj h]
    exact mapError_eq_ok.mp hentries
  · exact absurd h (by simp [Except.map])

/-- The export of a log that fits is the wire form of its value. -/
theorem encode_codec (hlibrary : library.Faithful) {entries : List CheckpointEntry}
    (hfits : (serializedLog entries).Fits) :
    library.codec.encode entries = .ok (wire (serializedLog entries)) := by
  obtain ⟨buf, value, hwrite, hread, hvalue, hnormal⟩ := hlibrary.writes entries hfits
  have hwire : wire value = wire (serializedLog entries) := by
    rw [← wire_normalize value, hnormal, wire_normalize]
  simp only [LogLibrary.codec, hwrite, hread, Except.mapError, ok_bind, ctap2CanonicalValueBytes,
    encodeValue_of_fits hvalue, hwire]

/-- An imported input is the export of its log exactly if it is canonical and its value has
the fields of a log and no others. -/
theorem imported_bytes_canonical_iff (hlibrary : library.Faithful)
    (himport : CheckpointLog.fromCborBytes sha256 library.codec bytes = .ok log) :
    log.toCborBytes library.codec = .ok bytes ↔
      ∃ value, ctap2CanonicalValueFromSlice library.fromReader bytes = .ok value ∧
        LogShaped value := by
  have hdecode : library.readLog bytes = .ok log.entries := decode_of_fromCborBytes himport
  have hfits := hlibrary.fits _ _ hdecode
  rw [CheckpointLog.toCborBytes, encode_codec hlibrary hfits]
  constructor
  · intro h
    obtain rfl := Except.ok.inj h
    refine ⟨Cbor.normalize (serializedLog log.entries), ?_, logShaped_iff.mpr ⟨_, rfl⟩⟩
    apply fromSlice_of_reader (hlibrary.reads _ hfits)
    rw [← wire_normalize]
    exact encodeValue_of_fits (fits_normalize hfits)
  · rintro ⟨value, hslice, hshape⟩
    obtain ⟨entries, rfl⟩ := logShaped_iff.mp hshape
    obtain ⟨-, hvalue, hwire⟩ := fromSlice_eq_ok hslice
    rw [wire_normalize] at hwire
    have hagain := hlibrary.readsBack entries ((fits_normalize_iff _).mp hvalue)
    rw [hwire, hdecode] at hagain
    rw [Except.ok.inj hagain, hwire]

end Import

section Sample
variable {entries : List CheckpointEntry}

def readU8 : Value → Option UInt8
  | .integer n => if 0 ≤ n ∧ n < 256 then some (UInt8.ofNat n.toNat) else none
  | _ => none

def readArray : Value → Option (List Value)
  | .array items => some items
  | _ => none

def readString : Value → Option String
  | .text text => some text
  | _ => none

def readByteArray (value : Value) : Option Bytes := readArray value >>= List.mapM readU8

def readNullable {α : Type} (read : Value → Option α) : Value → Option (Option α)
  | .null => some none
  | value => (read value).map some

def fieldsOf : Value → Except String (List (String × Value))
  | .map entries => entries.mapM fieldName
  | _ => .error "invalid type: expected map"

def readKey (fields : List (String × Value)) : Except String CheckpointEntry := do
  let userId ← requireField fields "user_id" readByteArray
  let verifyingKey ← requireField fields "verifying_key" readByteArray
  let deviceId ← requireField fields "device_id" readByteArray
  let issuedAt ← requireField fields "issued_at" readU64
  return .key ⟨userId, verifyingKey, deviceId, issuedAt⟩

def readRecovery (fields : List (String × Value)) : Except String CheckpointEntry := do
  let userId ← requireField fields "user_id" readByteArray
  let recoveryKey ← requireField fields "recovery_key" readByteArray
  let issuedAt ← requireField fields "issued_at" readU64
  return .recovery ⟨userId, recoveryKey, issuedAt⟩

def readRevocation (fields : List (String × Value)) : Except String CheckpointEntry := do
  let userId ← requireField fields "user_id" readByteArray
  let revokedKeyHash ← requireField fields "revoked_key_hash" readByteArray
  let revokedAt ← requireField fields "revoked_at" readU64
  let recoveryKeyHash ← requireField fields "recovery_key_hash" (readNullable readByteArray)
  let reason ← requireField fields "reason" (readNullable readString)
  return .revocation ⟨userId, revokedKeyHash, revokedAt, recoveryKeyHash, reason⟩

def readEntry (value : Value) : Except String CheckpointEntry := do
  match ← fieldsOf value with
  | [("Key", content)] => fieldsOf content >>= readKey
  | [("Recovery", content)] => fieldsOf content >>= readRecovery
  | [("Revocation", content)] => fieldsOf content >>= readRevocation
  | _ => .error "unknown variant"

/-- The entries of a log, among the fields of a map. -/
def readFields (value : Value) : Except String (List CheckpointEntry) := do
  let fields ← fieldsOf value
  let items ← requireField fields "entries" readArray
  items.mapM readEntry

/-- A decoder as it is derived for a log. It reads one item and leaves what follows. -/
def readFirst (bytes : Bytes) : Except String (List CheckpointEntry) := do
  let value ← ((readCbor bytes).map Prod.fst).elim (.error "unexpected end") .ok
  let entries ← readFields value
  let _ ← (ctap2CanonicalValueBytes (serializedLog entries)).mapError SpexError.message
  return entries

def readerLibrary : LogLibrary where
  intoWriter entries := (ctap2CanonicalValueBytes (serializedLog entries)).mapError
    SpexError.message
  fromReader := rfcReader
  readLog := readFirst

theorem readByteArray_byteArray (bytes : Bytes) : readByteArray (byteArray bytes) = some bytes := by
  have hbyte : ∀ byte : UInt8, readU8 (.integer byte.toNat) = some byte := by
    intro byte
    have hlt := byte.toNat_lt
    rw [readU8, if_pos (by omega)]
    simp
  induction bytes with
  | nil => rfl
  | cons byte bytes ih =>
    simp only [readByteArray, byteArray, readArray, List.map_cons, List.mapM_cons,
      Option.bind_eq_bind, Option.bind_some] at ih ⊢
    simp [hbyte, ih]

theorem readU64_toNat (n : UInt64) : readU64 (.integer n.toNat) = some n := by
  have hlt := n.toNat_lt
  rw [readU64, if_pos (by omega)]
  simp

theorem readNullable_nullable {α : Type} {read : Value → Option α} {write : α → Value}
    (hread : ∀ a, read (write a) = some a) (hnull : ∀ a, write a ≠ .null) (content : Option α) :
    readNullable read (nullable write content) = some content := by
  cases content with
  | none => rfl
  | some a => simp [nullable, readNullable, hread, hnull]

@[simp] theorem fieldsOf_structValue (fields : List (String × Value)) :
    fieldsOf (structValue fields) = .ok fields := by
  induction fields with
  | nil => rfl
  | cons field fields ih =>
    simp only [fieldsOf, structValue, List.map_cons, List.mapM_cons, fieldName] at ih ⊢
    simp [ih]

theorem readEntry_canonical (entry : CheckpointEntry) : readEntry entry.canonical = .ok entry := by
  have hbytes := readByteArray_byteArray
  have hhash := readNullable_nullable hbytes (by simp [byteArray])
  have htext : ∀ reason, readNullable readString (nullable .text reason) = some reason :=
    readNullable_nullable (fun _ => rfl) (by simp)
  cases entry with
  | key entry =>
    simp [CheckpointEntry.canonical, CheckpointEntry.variant, CheckpointEntry.canonicalFields,
      readEntry, readKey, requireField, List.lookup_cons, hbytes, readU64_toNat]
  | recovery entry =>
    simp [CheckpointEntry.canonical, CheckpointEntry.variant, CheckpointEntry.canonicalFields,
      readEntry, readRecovery, requireField, List.lookup_cons, hbytes, readU64_toNat]
  | revocation entry =>
    simp [CheckpointEntry.canonical, CheckpointEntry.variant, CheckpointEntry.canonicalFields,
      readEntry, readRevocation, requireField, List.lookup_cons, hbytes, hhash, htext,
      readU64_toNat]

theorem readFields_serializedLog (entries : List CheckpointEntry) :
    readFields (Cbor.normalize (serializedLog entries)) = .ok entries := by
  have hitems : (entries.map CheckpointEntry.canonical).mapM readEntry = .ok entries := by
    induction entries with
    | nil => rfl
    | cons entry entries ih => simp [List.mapM_cons, readEntry_canonical, ih]
  simp [normalize_serializedLog, canonicalLog, readFields, requireField, readArray, hitems]

/-- The canonical bytes of a log are read as the log, whatever follows them. -/
theorem readFirst_append (hfits : (serializedLog entries).Fits) (rest : Bytes) :
    readFirst (wire (serializedLog entries) ++ rest) = .ok entries := by
  have hbytes : ctap2CanonicalValueBytes (serializedLog entries) =
      .ok (wire (serializedLog entries)) := encodeValue_of_fits hfits
  rw [readFirst, readCbor_append hfits, Option.map_some, Option.elim_some, ok_bind,
    readFields_serializedLog, ok_bind, hbytes]
  rfl

theorem intoWriter_eq_ok {buf : Bytes} :
    readerLibrary.intoWriter entries = .ok buf ↔
      ctap2CanonicalValueBytes (serializedLog entries) = .ok buf := by
  rw [readerLibrary, mapError_eq_ok]

theorem faithful_readerLibrary : readerLibrary.Faithful where
  writes entries hfits := by
    refine ⟨_, Cbor.normalize (serializedLog entries),
      intoWriter_eq_ok.mpr (encodeValue_of_fits hfits), ?_, fits_normalize hfits,
      normalize_idem hfits⟩
    exact decodesRfc8949_rfcReader _ _ (readCbor_wire hfits)
  reads entries hfits := decodesRfc8949_rfcReader _ _ (readCbor_wire hfits)
  readsBack entries hfits := by
    rw [← List.append_nil (wire (serializedLog entries))]
    exact readFirst_append hfits []
  fits bytes entries h := by
    obtain ⟨value, -, h⟩ := bind_eq_ok.mp h
    obtain ⟨entries', -, h⟩ := bind_eq_ok.mp h
    obtain ⟨encoded, hencoded, h⟩ := bind_eq_ok.mp h
    obtain rfl := Except.ok.inj h
    exact (encodeValue_eq_ok (mapError_eq_ok.mp hencoded)).1

theorem roundTrips_readerLibrary : readerLibrary.codec.RoundTrips := by
  intro entries bytes h
  obtain ⟨buf, hwrite, -⟩ := bind_eq_ok.mp h
  have hfits := (encodeValue_eq_ok (intoWriter_eq_ok.mp (mapError_eq_ok.mp hwrite))).1
  rw [encode_codec faithful_readerLibrary hfits] at h
  rw [← Except.ok.inj h]
  exact faithful_readerLibrary.readsBack entries hfits

theorem nonempty_readerLibrary (entries : List CheckpointEntry) (bytes : Bytes)
    (h : readerLibrary.codec.encode entries = .ok bytes) : bytes ≠ [] := by
  rintro rfl
  cases roundTrips_readerLibrary entries [] h

/-- A log is imported from its canonical bytes, whatever follows them. -/
theorem fromCborBytes_append {sha256 : Bytes → Bytes} {log : CheckpointLog}
    (hlog : log.Synced sha256) (hfits : (serializedLog log.entries).Fits) (rest : Bytes) :
    CheckpointLog.fromCborBytes sha256 readerLibrary.codec
      (wire (serializedLog log.entries) ++ rest) = .ok log := by
  have hdecode : readerLibrary.codec.decode (wire (serializedLog log.entries) ++ rest) =
      .ok log.entries := readFirst_append hfits rest
  simp [CheckpointLog.fromCborBytes, hdecode, Except.mapError,
    CheckpointLog.rebuildMerkleState_eq hlog, settled, Except.map]

theorem fits_of_isOk {value : Value} (h : (ctap2CanonicalValueBytes value).isOk = true) :
    value.Fits := by
  obtain ⟨bytes, hbytes⟩ := isOk_iff.mp h
  exact (encodeValue_eq_ok hbytes).1

theorem fits_twoEntries : (serializedLog CheckpointLog.twoEntries.entries).Fits :=
  fits_of_isOk (by decide +kernel)

theorem imported_bytes_canonical_two :
    CheckpointLog.fromCborBytes CheckpointLog.twoHash readerLibrary.codec
        (wire (serializedLog CheckpointLog.twoEntries.entries)) =
      .ok CheckpointLog.twoEntries ∧
    (CheckpointLog.twoEntries.toCborBytes readerLibrary.codec =
        .ok (wire (serializedLog CheckpointLog.twoEntries.entries)) ↔
      ∃ value, ctap2CanonicalValueFromSlice readerLibrary.fromReader
        (wire (serializedLog CheckpointLog.twoEntries.entries)) = .ok value ∧
          LogShaped value) := by
  have himport := fromCborBytes_append
    (CheckpointLog.synced_of_reached (CheckpointLog.reached_twoEntries readerLibrary.codec))
    fits_twoEntries []
  rw [List.append_nil] at himport
  exact ⟨himport, imported_bytes_canonical_iff faithful_readerLibrary himport⟩

/-- A byte after the empty log is ignored, so the input is not what is exported again. -/
theorem trailing_byte_imported :
    CheckpointLog.fromCborBytes CheckpointLog.twoHash readerLibrary.codec
        [0xa1, 0x67, 0x65, 0x6e, 0x74, 0x72, 0x69, 0x65, 0x73, 0x80, 0x00] =
      .ok CheckpointLog.new ∧
    CheckpointLog.new.toCborBytes readerLibrary.codec =
      .ok [0xa1, 0x67, 0x65, 0x6e, 0x74, 0x72, 0x69, 0x65, 0x73, 0x80] := by
  have hwire : wire (serializedLog []) =
      [0xa1, 0x67, 0x65, 0x6e, 0x74, 0x72, 0x69, 0x65, 0x73, 0x80] := by decide
  have hfits : (serializedLog []).Fits := fits_of_isOk (by decide +kernel)
  refine ⟨?_, ?_⟩
  · have hsynced : CheckpointLog.new.Synced CheckpointLog.twoHash := rfl
    have himport := fromCborBytes_append hsynced hfits [0]
    rwa [CheckpointLog.new, hwire] at himport
  · rw [CheckpointLog.toCborBytes, CheckpointLog.new, encode_codec faithful_readerLibrary hfits,
      hwire]

end Sample
end Spex
