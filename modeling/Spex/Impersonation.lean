import Spex.EnvelopeWire
import Spex.InboxBatches

/-!
# Speaking in the name of another member

A bignum is a key of an envelope, and the decoder narrows it to an identifier of a
signed field. The fields that were signed can therefore be carried beside the fields
that are read, and the signature still verifies. Whoever can encrypt for a thread and
holds one signed envelope of another member can make any message in that member's
name, at any epoch and position.
-/
namespace Spex
open Cbor Fallible KeySort Overlay

section Keys

/-- A key as an integer, or as a bignum if it does not fit 64 bits. -/
def bignumKey (n : ℕ) : Value :=
  if n < 2 ^ 64 then .integer n else .tag 2 (.bytes (BigEndian.write 9 n))

def bignumMap (entries : List (ℕ × Value)) : Value :=
  .map (entries.map fun entry => (bignumKey entry.1, entry.2))

/-- The entries as a visitor gets them. -/
def integerEntries (entries : List (ℕ × Value)) : List (ℤ × Value) :=
  entries.map fun entry => ((entry.1 : ℤ), entry.2)

/-- The library keeps tags as tags, and hands a bignum among the keys of a map to the
visitor as the integer it stands for. -/
structure Ciborium.ReadsBignums (library : Ciborium) : Prop where
  reads : DecodesRfc8949 library.fromReader
  writes : ∀ entries, FlatEntries (integerEntries entries) → (∀ entry ∈ entries, entry.1 < 2 ^ 72) →
    (bignumMap entries).Fits → ∃ bytes, library.intoWriter (bignumMap entries) = .ok bytes ∧
      library.readMap bytes = .ok (integerEntries entries)

theorem fits_bignumKey (n : ℕ) : (bignumKey n).Fits := by
  unfold bignumKey
  split_ifs with h
  · rw [Value.fits_integer]
    omega
  · rw [Value.fits_tag, Value.fits_bytes, BigEndian.length_write]
    decide

theorem normalize_bignumKey (n : ℕ) : Cbor.normalize (bignumKey n) = bignumKey n := by
  unfold bignumKey
  split_ifs <;> simp [Cbor.normalize]

theorem normalizeEntry_bignum {entries : List (ℕ × Value)}
    (hflat : FlatEntries (integerEntries entries)) :
    (entries.map fun entry => (bignumKey entry.1, entry.2)).map normalizeEntry =
      entries.map fun entry => (bignumKey entry.1, entry.2) := by
  rw [List.map_map]
  refine List.map_congr_left fun entry hentry => ?_
  have hvalue : Cbor.normalize entry.2 = entry.2 := by
    rcases hflat _ (List.mem_map_of_mem hentry) with ⟨n, hn⟩ | ⟨bytes, hbytes⟩
    · simp only at hn
      simp [hn, Cbor.normalize]
    · simp only at hbytes
      simp [hbytes, Cbor.normalize]
  exact Prod.ext (normalize_bignumKey entry.1) hvalue

end Keys

section Forging
variable {target signed : Envelope} {signature : Bytes}

/-- The fields of one envelope, the signature and the signed fields of another. -/
def forgedEntries (target signed : Envelope) (signature : Bytes) : List (ℕ × Value) :=
  [(0, .bytes target.threadId), (1, .integer target.epoch.toNat), (2, .integer target.seq.toNat),
    (3, .bytes target.senderUserId), (4, .bytes target.ciphertext), (5, .bytes signature),
    (2 ^ 64, .bytes signed.threadId), (2 ^ 64 + 1, .integer signed.epoch.toNat),
    (2 ^ 64 + 2, .integer signed.seq.toNat), (2 ^ 64 + 3, .bytes signed.senderUserId),
    (2 ^ 64 + 4, .bytes signed.ciphertext)]

/-- The envelope that these entries are read as. -/
def forgedEnvelope (target signed : Envelope) (signature : Bytes) : Envelope :=
  { target with
    signature := some signature
    extensions := FieldMap.ofFields (signed.fields.take 5) }

theorem flat_forgedEntries :
    FlatEntries (integerEntries (forgedEntries target signed signature)) := by
  intro entry hentry
  simp only [integerEntries, forgedEntries, List.map_cons, List.map_nil, List.mem_cons,
    List.not_mem_nil, or_false] at hentry
  rcases hentry with rfl | rfl | rfl | rfl | rfl | rfl | rfl | rfl | rfl | rfl | rfl <;> simp

/-- A key past the 64-bit range is stored under what is left of it. -/
theorem visitEntry_carried (self : EnvelopeVisitor) (n : UInt64) (value : Value) :
    self.visitEntry ((2 ^ 64 + n.toNat : ℕ), value) =
      .ok { self with extensions := self.extensions.insert n value } := by
  have hnarrow : EnvelopeVisitor.narrowKey ((2 ^ 64 + n.toNat : ℕ) : ℤ) = n := by
    rw [EnvelopeVisitor.narrowKey, Int.toNat_natCast, ← UInt64.toNat_inj, UInt64.toNat_ofNat',
      Nat.add_mod_left, Nat.mod_eq_of_lt n.toNat_lt]
  have hkey : ((2 ^ 64 + n.toNat : ℕ) : ℤ) ≠ 0 ∧ ((2 ^ 64 + n.toNat : ℕ) : ℤ) ≠ 1 ∧
      ((2 ^ 64 + n.toNat : ℕ) : ℤ) ≠ 2 ∧ ((2 ^ 64 + n.toNat : ℕ) : ℤ) ≠ 3 ∧
      ((2 ^ 64 + n.toNat : ℕ) : ℤ) ≠ 4 ∧ ((2 ^ 64 + n.toNat : ℕ) : ℤ) ≠ 5 ∧
      0 ≤ ((2 ^ 64 + n.toNat : ℕ) : ℤ) := by omega
  obtain ⟨h0, h1, h2, h3, h4, h5, hpos⟩ := hkey
  simp only [EnvelopeVisitor.visitEntry, if_neg h0, if_neg h1, if_neg h2, if_neg h3, if_neg h4,
    if_neg h5, if_pos hpos, hnarrow]

theorem visitMap_forgedEntries :
    EnvelopeVisitor.visitMap (integerEntries (forgedEntries target signed signature)) =
      .ok (forgedEnvelope target signed signature) := by
  have hepoch := EnvelopeVisitor.valueAsU32_toNat target.epoch "epoch"
  have hseq := EnvelopeVisitor.valueAsU64_toNat target.seq "seq"
  have hcarried : ∀ self : EnvelopeVisitor, ((integerEntries (forgedEntries target signed
      signature)).drop 6).foldlM EnvelopeVisitor.visitEntry self = .ok { self with
        extensions := (signed.fields.take 5).foldl FieldMap.insertField self.extensions } := by
    intro self
    change [(((2 ^ 64 + (0 : UInt64).toNat : ℕ) : ℤ), Value.bytes signed.threadId),
      (((2 ^ 64 + (1 : UInt64).toNat : ℕ) : ℤ), .integer signed.epoch.toNat),
      (((2 ^ 64 + (2 : UInt64).toNat : ℕ) : ℤ), .integer signed.seq.toNat),
      (((2 ^ 64 + (3 : UInt64).toNat : ℕ) : ℤ), .bytes signed.senderUserId),
      (((2 ^ 64 + (4 : UInt64).toNat : ℕ) : ℤ), .bytes signed.ciphertext)].foldlM
        EnvelopeVisitor.visitEntry self = _
    simp only [List.foldlM_cons, visitEntry_carried, ok_bind, List.foldlM_nil]
    rfl
  have hread : ((integerEntries (forgedEntries target signed signature)).take 6).foldlM
      EnvelopeVisitor.visitEntry .new = .ok ⟨target.threadId, target.epoch, target.seq,
        target.senderUserId, target.ciphertext, signature, ∅⟩ := by
    simp [integerEntries, forgedEntries, EnvelopeVisitor.visitEntry, hepoch, hseq,
      EnvelopeVisitor.valueAsBytes, EnvelopeVisitor.new]
  rw [EnvelopeVisitor.visitMap, ← List.take_append_drop 6 (integerEntries _), List.foldlM_append,
    hread, ok_bind, hcarried, ok_bind]
  rfl

theorem getElem?_signedFields (envelope : Envelope) (k : UInt64) :
    (FieldMap.ofFields envelope.unsigned.fields)[k]? =
      (FieldMap.ofFields (envelope.fields.take 5))[k]? := by
  have hfields : envelope.unsigned.fields = envelope.fields.take 5 ++ [(5, none)] := rfl
  rw [hfields, FieldMap.ofFields, List.foldl_append]
  rfl

/-- The carried fields take the place of those that are read. -/
theorem toCborValue_forged (hextensions : signed.extensions = ∅) :
    toCborValue (forgedEnvelope target signed signature).unsigned =
      toCborValue signed.unsigned := by
  refine congrArg FieldMap.toValue (Std.ExtTreeMap.ext_getElem? fun k => ?_)
  have hplain : signed.unsigned.extensions = ∅ := hextensions
  have hcarried : (forgedEnvelope target signed signature).unsigned.extensions =
    FieldMap.ofFields (signed.fields.take 5) := rfl
  rw [getElem?_overlay, getElem?_overlay, hplain, hcarried, Std.ExtTreeMap.getElem?_empty,
    Option.none_or, getElem?_signedFields, getElem?_signedFields]
  by_cases hk : k ∈ ([0, 1, 2, 3, 4] : List UInt64)
  · have hsome : ∃ v, (k, some v) ∈ signed.fields.take 5 := by
      simp only [List.mem_cons, List.not_mem_nil, or_false] at hk
      rcases hk with rfl | rfl | rfl | rfl | rfl <;> simp [Envelope.fields]
    obtain ⟨v, hv⟩ := hsome
    have hids : (signed.fields.take 5).map Prod.fst = [0, 1, 2, 3, 4] := rfl
    rw [FieldMap.getElem?_ofFields (hids ▸ by decide) hv, Option.some_or]
  · have hids : ∀ e : Envelope, k ∉ (e.fields.take 5).map Prod.fst := fun e => hk
    rw [FieldMap.getElem?_ofFields_of_notMem (hids signed),
      FieldMap.getElem?_ofFields_of_notMem (hids _), Option.none_or]

theorem normalize_forgedEntries :
    Cbor.normalize (bignumMap (forgedEntries target signed signature)) =
      bignumMap (forgedEntries target signed signature) := by
  have hsorted : (((forgedEntries target signed signature).map
      fun entry => (bignumKey entry.1, entry.2)).map encodedKey).Pairwise ShortLex := by
    rw [List.map_map]
    simp only [forgedEntries, List.map_cons, List.map_nil, Function.comp_apply, encodedKey]
    decide
  rw [bignumMap, normalize_map, sortOn_of_pairwise _ _ _ (List.pairwise_map.mp hsorted),
    normalizeEntry_bignum flat_forgedEntries]

/-- The bytes of the entries, in which no key of anyone has a part. -/
def forgedPayload (target signed : Envelope) (signature : Bytes) : Bytes :=
  wire (bignumMap (forgedEntries target signed signature))

/-- Byte strings of at most 64-bit length. -/
def Envelope.Sized (self : Envelope) : Prop :=
  self.threadId.length < 2 ^ 64 ∧ self.senderUserId.length < 2 ^ 64 ∧
    self.ciphertext.length < 2 ^ 64

theorem sized_of_bytes {envelope : Envelope} (hextensions : envelope.extensions = ∅) {bytes : Bytes}
    (hbytes : toCtap2CanonicalBytes envelope = .ok bytes) : envelope.Sized := by
  rw [toCtap2CanonicalBytes, toCborValue_envelope hextensions] at hbytes
  obtain ⟨hfits, -⟩ := encodeValue_eq_ok hbytes
  have hentries := (fits_integerMap.mp hfits).2
  refine ⟨?_, ?_, ?_⟩
  · exact (Value.fits_bytes _).mp (hentries (0, .bytes envelope.threadId)
      (by simp [Envelope.namedEntries])).2
  · exact (Value.fits_bytes _).mp (hentries (3, .bytes envelope.senderUserId)
      (by simp [Envelope.namedEntries])).2
  · exact (Value.fits_bytes _).mp (hentries (4, .bytes envelope.ciphertext)
      (by simp [Envelope.namedEntries])).2

theorem fits_forgedEntries (htarget : target.Sized) (hsigned : signed.Sized)
    (hsignature : signature.length < 2 ^ 64) :
    (bignumMap (forgedEntries target signed signature)).Fits := by
  obtain ⟨hthread, hsender, hciphertext⟩ := htarget
  obtain ⟨hthread', hsender', hciphertext'⟩ := hsigned
  have hepoch : ∀ n : UInt32, (Value.integer n.toNat).Fits := by
    intro n
    have hlt := n.toNat_lt
    rw [Value.fits_integer]
    omega
  have hseq : ∀ n : UInt64, (Value.integer n.toNat).Fits := by
    intro n
    have hlt := n.toNat_lt
    rw [Value.fits_integer]
    omega
  rw [bignumMap, Value.fits_map, List.forall_mem_map, List.length_map]
  refine ⟨by simp [forgedEntries], ?_⟩
  intro entry hentry
  refine ⟨fits_bignumKey entry.1, ?_⟩
  simp only [forgedEntries, List.mem_cons, List.not_mem_nil, or_false] at hentry
  rcases hentry with rfl | rfl | rfl | rfl | rfl | rfl | rfl | rfl | rfl | rfl | rfl <;>
    simp only [Value.fits_bytes, hepoch, hseq] <;> assumption

/-- The bytes are canonical, and they are read as the forged envelope. -/
theorem parse_forgedPayload {library : Ciborium} (hlibrary : library.ReadsBignums)
    (htarget : target.Sized) (hsigned : signed.Sized) (hsignature : signature.length < 2 ^ 64) :
    parseEnvelopePayload library (forgedPayload target signed signature) =
      .ok (forgedEnvelope target signed signature) := by
  have hfits := fits_forgedEntries htarget hsigned hsignature
  have hcbor := readCbor_wire hfits
  rw [normalize_forgedEntries] at hcbor
  have hread := hlibrary.reads _ _ hcbor
  have hkeys : ∀ entry ∈ forgedEntries target signed signature, entry.1 < 2 ^ 72 := by
    simp [forgedEntries]
  obtain ⟨buf, hwrite, hentries⟩ := hlibrary.writes _ flat_forgedEntries hkeys hfits
  refine mapError_eq_ok.mpr (bind_eq_ok.mpr ⟨_, fromSlice_of_reader hread
    (encodeValue_of_fits hfits), ?_⟩)
  refine bind_eq_ok.mpr ⟨_, mapError_eq_ok.mpr hwrite, ?_⟩
  refine bind_eq_ok.mpr ⟨_, mapError_eq_ok.mpr hentries, ?_⟩
  exact mapError_eq_ok.mpr visitMap_forgedEntries

/-- The signature of the carried envelope verifies for the forged one. -/
theorem verify_forged (crypto : MessageCrypto) (hextensions : signed.extensions = ∅)
    (hsignature : signed.signature = some signature) (verifyingKey : Bytes) :
    verifyEnvelopeSignature crypto (forgedEnvelope target signed signature) verifyingKey =
      verifyEnvelopeSignature crypto signed verifyingKey := by
  have hhash : hashCtap2CborValue crypto.sha256 .sha256
      (forgedEnvelope target signed signature).unsigned =
        hashCtap2CborValue crypto.sha256 .sha256 signed.unsigned := by
    rw [hashCtap2CborValue, toCtap2CanonicalBytes, toCborValue_forged hextensions]
    rfl
  have hsame : (forgedEnvelope target signed signature).signature = some signature := rfl
  simp only [verifyEnvelopeSignature, hsame, hsignature, hhash]

end Forging

section Receiving
variable {crypto : MessageCrypto} {library : Ciborium} {client : LocalState} {signed : Envelope}
  {threadState : ThreadState} {group : Group} {verifyingKey threadId senderId signature : Bytes}

theorem length_threadId {envelope : Envelope} {ad : Bytes}
    (hid : threadState.threadIdHex = Hex.encode threadId)
    (had : envelopeAd crypto threadState envelope = .ok ad) : threadId.length = 32 := by
  obtain ⟨bytes, hdecode, had⟩ := bind_eq_ok.mp had
  obtain ⟨fixed, hfixed, -⟩ := bind_eq_ok.mp had
  rw [hexDecode_eq_ok, hid, Hex.decode_encode] at hdecode
  obtain rfl := Option.some.inj hdecode
  have hfixed := mapError_eq_ok.mp hfixed
  unfold toFixed at hfixed
  split_ifs at hfixed with hlength
  exact not_not.mp hlength

/-- An envelope whose signature has been verified has been encoded. -/
theorem sized_of_verified (hsignature : signed.signature = some signature)
    (hextensions : signed.extensions = ∅)
    (hverify : verifyEnvelopeSignature crypto signed verifyingKey = .ok ()) :
    signed.Sized ∧ signature.length < 2 ^ 64 := by
  rw [verifyEnvelopeSignature, hsignature] at hverify
  obtain ⟨_, hlength, hverify⟩ := bind_eq_ok.mp hverify
  obtain ⟨_, -, hverify⟩ := bind_eq_ok.mp hverify
  obtain ⟨hash, hhash, -⟩ := bind_eq_ok.mp hverify
  obtain ⟨bytes, hbytes, -⟩ := bind_eq_ok.mp (mapError_eq_ok.mp hhash)
  have hunsigned : signed.unsigned.extensions = ∅ := hextensions
  have hsized : signed.unsigned.Sized := sized_of_bytes hunsigned hbytes
  refine ⟨hsized, ?_⟩
  rw [require_eq_ok.mp hlength]
  norm_num

/-- From any envelope that a member has signed, for whatever thread, and for any epoch,
position and text that someone seals for a thread of the recipient with that member, a
payload is made that the recipient receives as that text from that member. -/
theorem member_impersonated (hlibrary : library.ReadsBignums)
    (hcipher : ∀ key nonce plaintext ad body, crypto.encrypt key nonce plaintext ad = some body →
      crypto.decrypt key nonce body ad = some plaintext)
    (hthread : client.threads (Hex.encode threadId) = some threadState)
    (hid : threadState.threadIdHex = Hex.encode threadId)
    (hgroup : rebuildThreadGroup crypto.sha256 threadState = .ok group)
    (hmember : Hex.encode senderId ∈ threadState.members)
    (hkey : resolveSenderVerifyingKey client (Hex.encode senderId) = .ok verifyingKey)
    (hverify : verifyEnvelopeSignature crypto signed verifyingKey = .ok ())
    (hsignature : signed.signature = some signature) (hextensions : signed.extensions = ∅) :
    ∀ epoch seq plaintext nonce ad ciphertext, nonce.length = 12 →
      envelopeAd crypto threadState ⟨threadId, epoch, seq, senderId, ciphertext, none, ∅⟩ =
        .ok ad →
      encryptPayloadWithAead crypto.toCrypto group.secrets.groupSecret plaintext ad nonce =
        .ok ciphertext →
      senderId.length < 2 ^ 64 → ciphertext.length < 2 ^ 64 →
      receivePayload crypto library client (forgedPayload
        ⟨threadId, epoch, seq, senderId, ciphertext, none, ∅⟩ signed signature) =
          .ok ⟨Hex.encode threadId, Hex.encode senderId, plaintext⟩ := by
  intro epoch seq plaintext nonce ad ciphertext hnonce had hseal hsender hsize
  have htarget : Envelope.Sized ⟨threadId, epoch, seq, senderId, ciphertext, none, ∅⟩ :=
    ⟨by rw [length_threadId hid had]; norm_num, hsender, hsize⟩
  obtain ⟨hsigned, hshort⟩ := sized_of_verified hsignature hextensions hverify
  have hparse := parse_forgedPayload hlibrary htarget hsigned hshort
  obtain ⟨hlength, body, rfl, hbody⟩ := encryptPayload_parts hseal
  have hdecrypt := decryptPayload_eq hlength hnonce (hcipher _ _ _ _ _ hbody)
  refine bind_eq_ok.mpr ⟨_, hparse, bind_eq_ok.mpr ⟨threadState, ?_, ?_⟩⟩
  · change (client.threads (Hex.encode threadId)).elim _ _ = _
    rw [hthread]
    rfl
  · have hopened : decryptThreadEnvelope crypto client threadState (forgedEnvelope
        ⟨threadId, epoch, seq, senderId, nonce ++ body, none, ∅⟩ signed signature) =
        .ok plaintext := by
      refine decryptThreadEnvelope_ok hid hmember hkey ?_ hgroup had hdecrypt
      rw [verify_forged crypto hextensions hsignature, hverify]
    exact bind_eq_ok.mpr ⟨plaintext, hopened, rfl⟩

end Receiving

section Sample

def bignumIntegerKey : Value × Value → Except String (ℤ × Value)
  | (.integer n, value) => .ok (n, value)
  | (.tag 2 (.bytes bytes), value) => .ok (BigEndian.value bytes, value)
  | _ => .error "invalid type: expected i128"

/-- A library that reads and writes definite-length items, with bignums for keys. -/
def bignumLibrary : Ciborium where
  fromReader := rfcReader
  intoWriter value := .ok (writeInOrder value)
  readMap bytes := match readCbor bytes with
    | some (.map entries, []) => entries.mapM bignumIntegerKey
    | _ => .error "not one definite-length map"

theorem readsBignums_bignumLibrary : bignumLibrary.ReadsBignums where
  reads := decodesRfc8949_rfcReader
  writes entries hflat hsmall hfits := by
    refine ⟨_, rfl, ?_⟩
    have hcbor := readCbor_writeInOrder hfits
    rw [normalizeEntry_bignum hflat] at hcbor
    simp only [bignumLibrary, bignumMap, hcbor]
    rw [mapM_eq_ok, integerEntries, List.forall₂_map_left_iff, List.forall₂_map_right_iff,
      List.forall₂_same]
    intro entry hentry
    unfold bignumKey
    split_ifs with hlt
    · rfl
    · have hvalue : BigEndian.value (BigEndian.write 9 entry.1) = entry.1 := by
        have hlt := hsmall entry hentry
        rw [BigEndian.value_write, Nat.mod_eq_of_lt (by omega)]
      simp [bignumIntegerKey, hvalue]

/-- The sample sender has said `hi`, and is heard to say `no` at another position. -/
theorem sender_impersonated : ∃ payload,
    receivePayload deliveryCrypto bignumLibrary (deliveryRecipient "aa") payload =
      .ok ⟨Hex.encode sampleThreadId, Hex.encode [0xaa], Value.utf8 "no"⟩ := by
  obtain ⟨group, hgroup⟩ : ∃ group, rebuildThreadGroup deliveryCrypto.sha256
      (deliveryThread "aa") = .ok group := isOk_iff.mp (by decide +kernel)
  have hlength : (deliveryCrypto.sha256 group.secrets.groupSecret).length = 32 := by
    have hall : ((rebuildThreadGroup deliveryCrypto.sha256 (deliveryThread "aa")).toOption.map
        fun group => (deliveryCrypto.sha256 group.secrets.groupSecret).length) = some 32 := by
      decide +kernel
    rw [hgroup] at hall
    exact Option.some.inj hall
  obtain ⟨ad, had⟩ : ∃ ad, envelopeAd deliveryCrypto (deliveryThread "aa")
      ⟨sampleThreadId, 2, 7, [0xaa], [], none, ∅⟩ = .ok ad := isOk_iff.mp (by decide +kernel)
  obtain ⟨body, hbody⟩ : ∃ body, deliveryCrypto.encrypt (deliveryCrypto.sha256
      group.secrets.groupSecret) (List.replicate 12 0) (Value.utf8 "no") ad = some body := ⟨_, rfl⟩
  have hseal : encryptPayloadWithAead deliveryCrypto.toCrypto group.secrets.groupSecret
      (Value.utf8 "no") ad (List.replicate 12 0) = .ok (List.replicate 12 0 ++ body) := by
    rw [encryptPayloadWithAead, hashBytes_eq, if_neg (not_not.mpr hlength), hbody]
  have hkey : resolveSenderVerifyingKey (deliveryRecipient "aa") (Hex.encode [0xaa]) =
      .ok requestVerifyingKey := by decide
  have hverify : verifyEnvelopeSignature deliveryCrypto deliveredEnvelope requestVerifyingKey =
      .ok () := by decide +kernel
  have hthread : (deliveryRecipient "aa").threads (Hex.encode sampleThreadId) =
      some (deliveryThread "aa") := by simp [deliveryRecipient]
  refine ⟨_, member_impersonated readsBignums_bignumLibrary
    (fun _ _ _ _ _ h => decrypt_encrypt h) hthread rfl hgroup (by decide) hkey hverify rfl rfl
    2 7 (Value.utf8 "no") (List.replicate 12 0) ad (List.replicate 12 0 ++ body) (by decide) had
    hseal (by decide) ?_⟩
  rw [List.length_append, length_sampleEncrypt (by decide) hbody]
  decide

end Sample

end Spex
