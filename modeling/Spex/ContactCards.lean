import Spex.EnvelopeCodec
import Spex.SignedGrants

/-!
# Contact cards

An identity signs the canonical bytes of its contact card, and whoever redeems the
card reads the fields out of the map one by one, encodes them again without the
signature and verifies. The reader of a card knows neither invites nor extensions,
so it encodes something else when the card has one.
-/
namespace Spex
open Fallible Cbor KeySort

def signContactCard (crypto : RequestCrypto) (identity : IdentityState) (card : ContactCard) :
    ClientResult Bytes := do
  let signingKey ← signingKeyFromHex identity.signingKeyHex
  let payload ← (toCtap2CanonicalBytes card).mapError coreFault
  return crypto.sign signingKey (hashBytes crypto.sha256 .sha256 payload)

def verifyContactCardSignature (crypto : Bridge.BridgeCrypto) (card : ContactCard)
    (signature : Bytes) : ClientResult Unit := do
  require (card.verifyingKey.length = 32) (.returned .signatureInvalid)
  require (crypto.validKey card.verifyingKey) (.returned .signatureInvalid)
  let unsignedCard := { card with signature := none }
  let payload ← (toCtap2CanonicalBytes unsignedCard).mapError coreFault
  let digest := hashBytes crypto.sha256 .sha256 payload
  require (signature.length = 64) (.returned .signatureInvalid)
  (ed25519VerifyHash crypto.verifyStrict card.verifyingKey digest signature).mapError
    fun _ => .returned .signatureInvalid

def expectBytes (value : Value) : ClientResult Bytes :=
  match value with
  | .bytes bytes => .ok bytes
  | _ => .error (.returned .invalidCard)

def expectU64 (value : Value) : ClientResult UInt64 :=
  match value with
  | .integer n =>
    if 0 ≤ n ∧ n < 2 ^ 64 then .ok (UInt64.ofNat n.toNat) else .error (.returned .invalidCard)
  | _ => .error (.returned .invalidCard)

/-- `ContactCard::default`. -/
def ContactCard.default : ContactCard := ⟨[], [], [], [], 0, none, none, ∅⟩

/-- One turn of the loop of `parse_contact_card`. -/
def parseCardEntry (card : ContactCard) (entry : Value × Value) : ClientResult ContactCard :=
  match entry.1 with
  | .integer key =>
    if key = 0 then do return { card with userId := ← expectBytes entry.2 }
    else if key = 1 then do return { card with verifyingKey := ← expectBytes entry.2 }
    else if key = 2 then do return { card with deviceId := ← expectBytes entry.2 }
    else if key = 3 then do return { card with deviceNonce := ← expectBytes entry.2 }
    else if key = 4 then do return { card with issuedAt := ← expectU64 entry.2 }
    else if key = 6 then do return { card with signature := some (← expectBytes entry.2) }
    else .ok card
  | _ => .ok card

section Redeeming
variable (reader : Bytes → Except String Value)

def parseContactCard (bytes : Bytes) : ClientResult ContactCard := do
  let value ← (reader bytes).mapError fun _ => .returned .cbor
  match value with
  | .map entries =>
    let card ← entries.foldlM parseCardEntry ContactCard.default
    require (card.userId ≠ [] ∧ card.verifyingKey ≠ []) (.returned .invalidCard)
    return card
  | _ => .error (.returned .invalidCard)

def redeemContactCardPayload (crypto : Bridge.BridgeCrypto) (payload : String) :
    ClientResult ContactCard := do
  let cardBytes ← decodeField (.returned .invalidCard) payload
  let card ← parseContactCard reader cardBytes
  if let some signature := card.signature then verifyContactCardSignature crypto card signature
  return card

end Redeeming

/-- The card with a signature of the card without one is redeemed as it is. -/
def RedeemsToItself (reader : Bytes → Except String Value) (crypto : Bridge.BridgeCrypto)
    (identity : IdentityState) (card : ContactCard) : Prop :=
  ∃ signature bytes,
    signContactCard crypto.toRequestCrypto identity { card with signature := none } =
      .ok signature ∧
    toCtap2CanonicalBytes { card with signature := some signature } = .ok bytes ∧
    redeemContactCardPayload reader crypto (Base64.encode bytes) =
      .ok { card with signature := some signature }

section Parsing
variable {reader : Bytes → Except String Value} {crypto : Bridge.BridgeCrypto}
  {card card' : ContactCard}

/-- What a reader of cards knows nothing of. -/
def ContactCard.Bare (card : ContactCard) : Prop := card.invite = none ∧ card.extensions = ∅

lemma bare_of_stored {α : Type} {x : ClientResult α} {f : α → ContactCard}
    (h : (do return f (← x)) = (.ok card' : ClientResult ContactCard))
    (hf : ∀ a, (f a).Bare) : card'.Bare := by
  obtain ⟨a, -, h⟩ := bind_eq_ok.mp h
  exact pure_eq_ok.mp h ▸ hf a

theorem parseCardEntry_bare {entry : Value × Value} (hbare : card.Bare)
    (h : parseCardEntry card entry = .ok card') : card'.Bare := by
  unfold parseCardEntry at h
  split at h
  · split_ifs at h
    iterate 6 exact bare_of_stored h fun _ => hbare
    exact Except.ok.inj h ▸ hbare
  · exact Except.ok.inj h ▸ hbare

theorem foldlM_parseCardEntry_bare {entries : List (Value × Value)} (hbare : card.Bare)
    (h : entries.foldlM parseCardEntry card = .ok card') : card'.Bare := by
  induction entries generalizing card with
  | nil => exact pure_eq_ok.mp h ▸ hbare
  | cons entry entries ih =>
    rw [List.foldlM_cons] at h
    obtain ⟨next, hnext, h⟩ := bind_eq_ok.mp h
    exact ih (parseCardEntry_bare hbare hnext) h

theorem parseContactCard_bare {bytes : Bytes} (h : parseContactCard reader bytes = .ok card) :
    card.Bare := by
  obtain ⟨value, -, h⟩ := bind_eq_ok.mp h
  cases value with
  | map entries =>
    obtain ⟨_, hfold, h⟩ := bind_eq_ok.mp h
    obtain ⟨_, -, h⟩ := bind_eq_ok.mp h
    rw [← pure_eq_ok.mp h]
    exact foldlM_parseCardEntry_bare ⟨rfl, rfl⟩ hfold
  | _ => cases h

/-- Redeeming bytes that parse to a card with a signature. -/
theorem redeem_of_parse {bytes signature : Bytes}
    (hparse : parseContactCard reader bytes = .ok card)
    (hsignature : card.signature = some signature) :
    redeemContactCardPayload reader crypto (Base64.encode bytes) =
      (verifyContactCardSignature crypto card signature).map fun _ => card := by
  rw [redeemContactCardPayload, decodeField_eq_ok.mpr (Base64.decode_encode bytes), ok_bind, hparse,
    ok_bind]
  simp only [hsignature]
  cases verifyContactCardSignature crypto card signature <;> rfl

theorem redeemed_bare {payload : String}
    (h : redeemContactCardPayload reader crypto payload = .ok card) : card.Bare := by
  obtain ⟨bytes, -, h⟩ := bind_eq_ok.mp h
  obtain ⟨parsed, hparsed, h⟩ := bind_eq_ok.mp h
  have hcard : parsed = card := by
    cases hsignature : parsed.signature with
    | none => simpa [hsignature, pure_eq_ok] using h
    | some signature =>
      simp only [hsignature] at h
      obtain ⟨_, -, h⟩ := bind_eq_ok.mp h
      exact pure_eq_ok.mp h
  exact hcard ▸ parseContactCard_bare hparsed

end Parsing

section Signed
variable {reader : Bytes → Except String Value} {crypto : Bridge.BridgeCrypto}
  {identity : IdentityState} {card : ContactCard} {signingKey signature : Bytes}

/-- The entries of a card that has a signature, no invite and no extension. -/
def ContactCard.signedEntries (card : ContactCard) (signature : Bytes) : List (ℤ × Value) :=
  [(0, .bytes card.userId), (1, .bytes card.verifyingKey), (2, .bytes card.deviceId),
    (3, .bytes card.deviceNonce), (4, .integer card.issuedAt.toNat), (6, .bytes signature)]

theorem toCborValue_signed (hbare : card.Bare) (signature : Bytes) :
    toCborValue { card with signature := some signature } =
      integerMap (card.signedEntries signature) := by
  obtain ⟨userId, verifyingKey, deviceId, deviceNonce, issuedAt, invite, old, extensions⟩ := card
  obtain ⟨rfl, rfl⟩ := hbare
  rfl

theorem normalize_signedEntries (signature : Bytes) :
    Cbor.normalize (integerMap (card.signedEntries signature)) =
      integerMap (card.signedEntries signature) := by
  have hsorted : (((card.signedEntries signature).map fun entry =>
      (Value.integer entry.1, entry.2)).map encodedKey).Pairwise ShortLex := by
    simp only [ContactCard.signedEntries, List.map_cons, List.map_nil, encodedKey]
    decide
  have hflat : FlatEntries (card.signedEntries signature) := by
    simp [FlatEntries, ContactCard.signedEntries]
  rw [integerMap, normalize_map, sortOn_of_pairwise _ _ _ (List.pairwise_map.mp hsorted),
    normalizeEntry_flat hflat]

theorem expectU64_toNat (n : UInt64) : expectU64 (.integer n.toNat) = .ok n := by
  have hlt := n.toNat_lt
  rw [expectU64, if_pos (by omega), Int.toNat_natCast, UInt64.ofNat_toNat]

/-- The loop gathers the fields of a card without an invite or extensions. -/
theorem foldlM_signedEntries (hbare : card.Bare) (signature : Bytes) :
    ((card.signedEntries signature).map fun entry => (Value.integer entry.1, entry.2)).foldlM
      parseCardEntry ContactCard.default = .ok { card with signature := some signature } := by
  obtain ⟨userId, verifyingKey, deviceId, deviceNonce, issuedAt, invite, old, extensions⟩ := card
  obtain ⟨rfl, rfl⟩ := hbare
  simp [ContactCard.signedEntries, parseCardEntry, expectBytes, expectU64_toNat,
    ContactCard.default]

theorem parse_signed (hreader : DecodesRfc8949 reader) (hbare : card.Bare)
    (huser : card.userId ≠ []) (hkey : card.verifyingKey ≠ []) {bytes : Bytes}
    (hbytes : toCtap2CanonicalBytes { card with signature := some signature } = .ok bytes) :
    parseContactCard reader bytes = .ok { card with signature := some signature } := by
  rw [toCtap2CanonicalBytes, toCborValue_signed hbare] at hbytes
  obtain ⟨hfits, rfl⟩ := encodeValue_eq_ok hbytes
  have hread := hreader _ _ (readCbor_wire hfits)
  rw [normalize_signedEntries] at hread
  refine bind_eq_ok.mpr ⟨_, mapError_eq_ok.mpr hread, ?_⟩
  refine bind_eq_ok.mpr ⟨_, foldlM_signedEntries hbare signature, ?_⟩
  exact bind_eq_ok.mpr ⟨(), require_eq_ok.mpr ⟨huser, hkey⟩, rfl⟩

/-- The lengths of byte strings in memory. -/
structure ContactCard.Sized (card : ContactCard) : Prop where
  userId : card.userId.length < 2 ^ 64
  deviceId : card.deviceId.length < 2 ^ 64
  deviceNonce : card.deviceNonce.length < 2 ^ 64

theorem encodes_bare (hbare : card.Bare) (hsized : card.Sized)
    (hkey : card.verifyingKey.length = 32) (signature : Option Bytes)
    (hsignature : ∀ bytes ∈ signature, bytes.length = 64) :
    ∃ bytes, toCtap2CanonicalBytes { card with signature := signature } = .ok bytes := by
  obtain ⟨userId, verifyingKey, deviceId, deviceNonce, issuedAt, invite, old, extensions⟩ := card
  obtain ⟨rfl, rfl⟩ := hbare
  refine ⟨_, encodeValue_of_fits ?_⟩
  refine fits_bare (by simp [ContactCard.fields]) fun field hfield value hvalue => ?_
  simp only [ContactCard.fields, List.mem_cons, List.not_mem_nil, or_false] at hfield
  rcases hfield with rfl | rfl | rfl | rfl | rfl | rfl | rfl
  · cases hvalue
    exact (Value.fits_bytes _).mpr hsized.userId
  · cases hvalue
    have hlength : verifyingKey.length = 32 := hkey
    exact (Value.fits_bytes _).mpr (by omega)
  · cases hvalue
    exact (Value.fits_bytes _).mpr hsized.deviceId
  · cases hvalue
    exact (Value.fits_bytes _).mpr hsized.deviceNonce
  · cases hvalue
    exact fits_u64 issuedAt
  · cases hvalue
  · obtain ⟨bytes, hbytes, rfl⟩ := Option.mem_map.mp hvalue
    have hlength := hsignature bytes hbytes
    exact (Value.fits_bytes _).mpr (by omega)

theorem signContactCard_eq_ok
    (hkey : signingKeyFromHex identity.signingKeyHex = .ok signingKey) :
    signContactCard crypto.toRequestCrypto identity card = .ok signature ↔
      ∃ payload, toCtap2CanonicalBytes card = .ok payload ∧
        crypto.sign signingKey (crypto.sha256 payload) = signature := by
  simp only [signContactCard, hkey, ok_bind, bind_eq_ok, mapError_eq_ok, pure_eq_ok]
  rfl

theorem verify_signed (hscheme : crypto.SignsCorrectly) (hlength : signingKey.length = 32)
    (hkey : card.verifyingKey = crypto.verifyKey signingKey) {payload : Bytes}
    (hpayload : toCtap2CanonicalBytes { card with signature := none } = .ok payload) :
    verifyContactCardSignature crypto card (crypto.sign signingKey (crypto.sha256 payload)) =
      .ok () := by
  have hvalid := hscheme.keyValid signingKey hlength
  have hverifies := hscheme.verifies signingKey (crypto.sha256 payload) hlength
  rw [← hkey] at hvalid hverifies
  have hkeyLength : card.verifyingKey.length = 32 := hkey ▸ hscheme.keyLength signingKey hlength
  refine bind_eq_ok.mpr ⟨(), require_eq_ok.mpr hkeyLength, ?_⟩
  refine bind_eq_ok.mpr ⟨(), require_eq_ok.mpr hvalid, ?_⟩
  refine bind_eq_ok.mpr ⟨_, mapError_eq_ok.mpr hpayload, ?_⟩
  refine bind_eq_ok.mpr ⟨(), require_eq_ok.mpr (hscheme.signatureLength _ _ hlength), ?_⟩
  refine mapError_eq_ok.mpr ?_
  rw [ed25519VerifyHash]
  exact if_pos hverifies

/-- A signed card is redeemed as it is exactly if it has neither an invite nor
extensions. -/
theorem card_redeemed_iff (hreader : DecodesRfc8949 reader) (hscheme : crypto.SignsCorrectly)
    (hkey : signingKeyFromHex identity.signingKeyHex = .ok signingKey)
    (hverifying : card.verifyingKey = crypto.verifyKey signingKey) (huser : card.userId ≠ [])
    (hsized : card.Sized) :
    RedeemsToItself reader crypto identity card ↔ card.invite = none ∧ card.extensions = ∅ := by
  constructor
  · rintro ⟨signature, bytes, -, -, hredeem⟩
    have hbare : ContactCard.Bare { card with signature := some signature } :=
      redeemed_bare hredeem
    exact hbare
  · intro hbare
    have hlength := length_signingKey hkey
    have hkeyLength : card.verifyingKey.length = 32 :=
      hverifying ▸ hscheme.keyLength signingKey hlength
    have hkeyNonempty : card.verifyingKey ≠ [] := by
      intro hempty
      rw [hempty] at hkeyLength
      cases hkeyLength
    obtain ⟨payload, hpayload⟩ := encodes_bare hbare hsized hkeyLength none (by simp)
    have hsignature := hscheme.signatureLength signingKey (crypto.sha256 payload) hlength
    obtain ⟨bytes, hbytes⟩ := encodes_bare hbare hsized hkeyLength
      (some (crypto.sign signingKey (crypto.sha256 payload))) (by simpa using hsignature)
    refine ⟨_, bytes, (signContactCard_eq_ok hkey).mpr ⟨payload, hpayload, rfl⟩, hbytes, ?_⟩
    rw [redeem_of_parse (parse_signed hreader hbare huser hkeyNonempty hbytes) rfl, map_eq_ok]
    exact ⟨(), verify_signed hscheme hlength hverifying hpayload, rfl⟩

end Signed

section Sample
open Bridge (sampleBridgeCrypto)

def sampleCard (invite : Option InviteToken) (signature : Option Bytes) : ContactCard :=
  ⟨requesterId, requestVerifyingKey, [4], [5], requestTime, invite, signature, ∅⟩

theorem card_redeemed_plain :
    RedeemsToItself rfcReader sampleBridgeCrypto requestReceiver (sampleCard none none) :=
  (card_redeemed_iff decodesRfc8949_rfcReader signsCorrectly_sampleBridgeCrypto
    signingKey_requestReceiver rfl (by decide) ⟨by decide, by decide, by decide⟩).mpr ⟨rfl, rfl⟩

def sampleInvite : InviteToken := ⟨1, 0, true, ∅⟩

/-- The card with the invite and the signature. -/
def invitedBytes : Bytes :=
  0xa7 :: invitedCard.bytes.drop 1 ++ [0x06, 0x58, 0x40] ++ invitedCard.signature

/-- A signed card with an invite is refused: the invite is left out of the bytes that
are verified. -/
theorem invited_card_refused :
    signContactCard sampleBridgeCrypto.toRequestCrypto requestReceiver
      (sampleCard sampleInvite none) = .ok invitedCard.signature ∧
    toCtap2CanonicalBytes (sampleCard sampleInvite invitedCard.signature) = .ok invitedBytes ∧
    redeemContactCardPayload rfcReader sampleBridgeCrypto (Base64.encode invitedBytes) =
      .error (.returned .signatureInvalid) := by
  have hpayload : toCtap2CanonicalBytes (sampleCard sampleInvite none) =
      .ok invitedCard.bytes := by
    decide
  have hbytes : toCtap2CanonicalBytes (sampleCard sampleInvite invitedCard.signature) =
      .ok invitedBytes := by
    decide +kernel
  have hparse : parseContactCard rfcReader invitedBytes =
      .ok (sampleCard none invitedCard.signature) := by
    obtain ⟨hfits, hwire⟩ := encodeValue_eq_ok hbytes
    rw [← hwire, parseContactCard, decodesRfc8949_rfcReader _ _ (readCbor_wire hfits)]
    rfl
  have hverify : verifyContactCardSignature sampleBridgeCrypto
      (sampleCard none invitedCard.signature) invitedCard.signature =
        .error (.returned .signatureInvalid) := by
    decide
  refine ⟨?_, hbytes, ?_⟩
  · refine (signContactCard_eq_ok signingKey_requestReceiver).mpr ⟨_, hpayload, ?_⟩
    decide
  · rw [redeem_of_parse hparse rfl, hverify]
    rfl

end Sample
end Spex
