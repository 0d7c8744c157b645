import Spex.Bridge

/-!
# Portable grants at the trust boundaries

A signed grant travels as text: its identifiers, key and signature in Base64 and
its role, flags and expiry as numbers. The peer-to-peer ingestion, the bridge and
the client each read this text and check the grant on their own, and each reports
failures in its own errors. The extensions of a grant are signed, but they have no
place in the text.
-/
namespace Spex
open Fallible Cbor

section Fields
variable {ε : Type} {error : ε} {value : String} {bytes : Bytes}

/-- A field in Base64. -/
def decodeField (error : ε) (value : String) : Except ε Bytes :=
  (Base64.decode value).elim (.error error) .ok

/-- A field in Base64 of a fixed number of bytes. -/
def decodeFixedField (error lengthError : ε) (length : ℕ) (value : String) : Except ε Bytes := do
  let bytes ← decodeField error value
  require (bytes.length = length) lengthError
  return bytes

/-- A key in Base64. -/
def decodeKeyField (validKey : Bytes → Bool) (error lengthError keyError : ε) (value : String) :
    Except ε Bytes := do
  let bytes ← decodeFixedField error lengthError 32 value
  require (validKey bytes) keyError
  return bytes

theorem decodeField_eq_ok :
    decodeField error value = .ok bytes ↔ Base64.decode value = some bytes := by
  rw [decodeField]
  cases Base64.decode value <;> simp

theorem decodeFixedField_eq_ok {lengthError : ε} {length : ℕ} :
    decodeFixedField error lengthError length value = .ok bytes ↔
      Base64.decode value = some bytes ∧ bytes.length = length := by
  simp only [decodeFixedField, bind_eq_ok, decodeField_eq_ok, require_eq_ok, pure_eq_ok]
  constructor
  · rintro ⟨_, hdecode, _, hlength, rfl⟩
    exact ⟨hdecode, hlength⟩
  · rintro ⟨hdecode, hlength⟩
    exact ⟨bytes, hdecode, (), hlength, rfl⟩

theorem decodeKeyField_eq_ok {validKey : Bytes → Bool} {lengthError keyError : ε} :
    decodeKeyField validKey error lengthError keyError value = .ok bytes ↔
      Base64.decode value = some bytes ∧ bytes.length = 32 ∧ validKey bytes = true := by
  simp only [decodeKeyField, bind_eq_ok, decodeFixedField_eq_ok, require_eq_ok, pure_eq_ok]
  constructor
  · rintro ⟨_, ⟨hdecode, hlength⟩, _, hvalid, rfl⟩
    exact ⟨hdecode, hlength, hvalid⟩
  · rintro ⟨hdecode, hlength, hvalid⟩
    exact ⟨bytes, ⟨hdecode, hlength⟩, (), hvalid, rfl⟩

end Fields

namespace Ingest

structure P2pGrantPayload where
  userId : String
  role : UInt64
  flags : Option UInt64
  expiresAt : Option UInt64
  verifyingKey : String
  signature : String
  deriving DecidableEq, Repr

structure P2pPuzzlePayload where
  recipientKey : String
  puzzleInput : String
  puzzleOutput : String
  params : Option PowParamsPayload
  deriving DecidableEq, Repr

def mapValidationError : GrantPowValidationError → TransportError
  | .grantExpired => .grantExpired
  | .grantInvalid => .grantInvalid
  | .powTooWeak => .powTooWeak
  | .powInvalid => .powInvalid
  | .core err => .cborDecode err

def decodeBase64 (value : String) : Except TransportError Bytes :=
  decodeField (.invalidPayload none) value

def decodeFixedBytes (length : ℕ) (value : String) : Except TransportError Bytes :=
  decodeFixedField (.invalidPayload none) (.invalidPayload (some "invalid length")) length value

def decodeSignature (value : String) : Except TransportError Bytes := decodeFixedBytes 64 value

def decodeVerifyingKey (validKey : Bytes → Bool) (value : String) : Except TransportError Bytes :=
  decodeKeyField validKey (.invalidPayload none) (.invalidPayload (some "invalid length"))
    (.invalidPayload none) value

section Validation
variable (crypto : Bridge.BridgeCrypto)

/-- The check of a grant among peers. -/
def validateP2pGrantPayload (now : UInt64) (payload : P2pGrantPayload) :
    Except TransportError Unit := do
  let userId ← decodeBase64 payload.userId
  let verifyingKey ← decodeVerifyingKey crypto.validKey payload.verifyingKey
  let signature ← decodeSignature payload.signature
  let grant : GrantToken := ⟨userId, payload.role, payload.flags, payload.expiresAt, ∅⟩
  (validateGrantToken crypto.sha256 crypto.verifyStrict now grant verifyingKey signature).mapError
    mapValidationError

/-- The check of a puzzle among peers. -/
def validateP2pPuzzlePayload (payload : P2pPuzzlePayload) : Except TransportError Unit := do
  let recipientKey ← decodeBase64 payload.recipientKey
  let puzzleInput ← decodeBase64 payload.puzzleInput
  let puzzleOutput ← decodeBase64 payload.puzzleOutput
  let params := (payload.params.getD .minimum).toCore
  (validatePowPuzzle crypto.toRequestCrypto recipientKey puzzleInput puzzleOutput params
    .minimum).mapError mapValidationError

end Validation
end Ingest

def decodeBase64Field (value : String) : ClientResult Bytes :=
  decodeField (.returned .grantInvalid) value

def decodeFixedBase64 (length : ℕ) (value : String) : ClientResult Bytes :=
  decodeFixedField (.returned .grantInvalid) (.returned .grantInvalid) length value

def signedGrantError : GrantPowValidationError → ClientError
  | .grantInvalid => .grantInvalid
  | .grantExpired => .grantExpired
  | err => .crypto err.message

/-- The check of a grant by a client. -/
def validateSignedGrant (crypto : Bridge.BridgeCrypto) (grant : SignedGrantToken) (now : UInt64) :
    ClientResult GrantToken := do
  let userId ← decodeBase64Field grant.userId
  let verifyingKeyBytes ← decodeFixedBase64 32 grant.verifyingKey
  let signatureBytes ← decodeFixedBase64 64 grant.signature
  require (crypto.validKey verifyingKeyBytes) (.returned .grantInvalid)
  let token : GrantToken := ⟨userId, grant.role, grant.flags, grant.expiresAt, ∅⟩
  (validateGrantToken crypto.sha256 crypto.verifyStrict now token verifyingKeyBytes
    signatureBytes).mapError fun err => .returned (signedGrantError err)
  return token

section Boundaries
variable {crypto : Bridge.BridgeCrypto} {now : UInt64} {grant : SignedGrantToken}
  {token : GrantToken} {verifyingKey signature : Bytes}

/-- What the text of a grant says. -/
structure Opens (crypto : Bridge.BridgeCrypto) (grant : SignedGrantToken) (token : GrantToken)
    (verifyingKey signature : Bytes) : Prop where
  user : Base64.decode grant.userId = some token.userId
  key : Base64.decode grant.verifyingKey = some verifyingKey
  keyLength : verifyingKey.length = 32
  keyValid : crypto.validKey verifyingKey = true
  signed : Base64.decode grant.signature = some signature
  signedLength : signature.length = 64
  fields : token = ⟨token.userId, grant.role, grant.flags, grant.expiresAt, ∅⟩

/-- The text says a grant that has not expired, and its signature holds. -/
def Accepted (crypto : Bridge.BridgeCrypto) (now : UInt64) (grant : SignedGrantToken)
    (token : GrantToken) : Prop :=
  ∃ verifyingKey signature, Opens crypto grant token verifyingKey signature ∧
    validateGrantToken crypto.sha256 crypto.verifyStrict now token verifyingKey signature = .ok ()

theorem validateSignedGrant_of_opens (h : Opens crypto grant token verifyingKey signature)
    (now : UInt64) : validateSignedGrant crypto grant now =
      ((validateGrantToken crypto.sha256 crypto.verifyStrict now token verifyingKey
        signature).mapError fun err => .returned (signedGrantError err)).map fun _ => token := by
  have huser : decodeBase64Field grant.userId = .ok token.userId := decodeField_eq_ok.mpr h.user
  have hkey : decodeFixedBase64 32 grant.verifyingKey = .ok verifyingKey :=
    decodeFixedField_eq_ok.mpr ⟨h.key, h.keyLength⟩
  have hsignature : decodeFixedBase64 64 grant.signature = .ok signature :=
    decodeFixedField_eq_ok.mpr ⟨h.signed, h.signedLength⟩
  rw [validateSignedGrant, huser, ok_bind, hkey, ok_bind, hsignature, ok_bind, require,
    if_pos h.keyValid, ok_bind]
  simp only [← h.fields]
  cases validateGrantToken crypto.sha256 crypto.verifyStrict now token verifyingKey signature <;>
    rfl

theorem validateSignedGrant_eq_ok :
    validateSignedGrant crypto grant now = .ok token ↔ Accepted crypto now grant token := by
  constructor
  · intro h
    obtain ⟨userId, huser, h⟩ := bind_eq_ok.mp h
    obtain ⟨verifyingKey, hkey, h⟩ := bind_eq_ok.mp h
    obtain ⟨signature, hsignature, h⟩ := bind_eq_ok.mp h
    obtain ⟨_, hvalid, h⟩ := bind_eq_ok.mp h
    obtain ⟨_, hgrant, h⟩ := bind_eq_ok.mp h
    obtain rfl := pure_eq_ok.mp h
    obtain ⟨hkey, hkeyLength⟩ := decodeFixedField_eq_ok.mp hkey
    obtain ⟨hsignature, hsignatureLength⟩ := decodeFixedField_eq_ok.mp hsignature
    exact ⟨verifyingKey, signature, ⟨decodeField_eq_ok.mp huser, hkey, hkeyLength,
      require_eq_ok.mp hvalid, hsignature, hsignatureLength, rfl⟩, mapError_eq_ok.mp hgrant⟩
  · rintro ⟨verifyingKey, signature, hopens, hgrant⟩
    rw [validateSignedGrant_of_opens hopens, hgrant]
    rfl

/-- Reading and checking a grant, up to the errors. -/
def readGrant {ε : Type} (crypto : Bridge.BridgeCrypto) (error lengthError keyError : ε)
    (f : GrantPowValidationError → ε) (now : UInt64) (grant : SignedGrantToken) :
    Except ε Unit := do
  let userId ← decodeField error grant.userId
  let verifyingKey ← decodeKeyField crypto.validKey error lengthError keyError grant.verifyingKey
  let signature ← decodeFixedField error lengthError 64 grant.signature
  (validateGrantToken crypto.sha256 crypto.verifyStrict now
    ⟨userId, grant.role, grant.flags, grant.expiresAt, ∅⟩ verifyingKey signature).mapError f

theorem readGrant_eq_ok {ε : Type} {error lengthError keyError : ε}
    {f : GrantPowValidationError → ε} :
    readGrant crypto error lengthError keyError f now grant = .ok () ↔
      ∃ token, Accepted crypto now grant token := by
  simp only [readGrant, bind_eq_ok, decodeField_eq_ok, decodeKeyField_eq_ok,
    decodeFixedField_eq_ok, mapError_eq_ok]
  constructor
  · rintro ⟨userId, huser, verifyingKey, ⟨hkey, hkeyLength, hvalid⟩, signature,
      ⟨hsigned, hsignedLength⟩, hgrant⟩
    exact ⟨_, verifyingKey, signature,
      ⟨huser, hkey, hkeyLength, hvalid, hsigned, hsignedLength, rfl⟩, hgrant⟩
  · rintro ⟨token, verifyingKey, signature, hopens, hgrant⟩
    rw [hopens.fields] at hgrant
    exact ⟨token.userId, hopens.user, verifyingKey,
      ⟨hopens.key, hopens.keyLength, hopens.keyValid⟩, signature,
      ⟨hopens.signed, hopens.signedLength⟩, hgrant⟩

/-- Reading and checking a puzzle, up to the errors. -/
def readPuzzle {ε : Type} (crypto : Bridge.BridgeCrypto) (error : ε)
    (f : GrantPowValidationError → ε) (recipientKey puzzleInput puzzleOutput : String)
    (params minimum : PowParams) : Except ε Unit := do
  let recipientKey ← decodeField error recipientKey
  let puzzleInput ← decodeField error puzzleInput
  let puzzleOutput ← decodeField error puzzleOutput
  (validatePowPuzzle crypto.toRequestCrypto recipientKey puzzleInput puzzleOutput params
    minimum).mapError f

theorem readPuzzle_eq_ok {ε : Type} {error : ε} {f : GrantPowValidationError → ε}
    {recipientKey puzzleInput puzzleOutput : String} {params minimum : PowParams} :
    readPuzzle crypto error f recipientKey puzzleInput puzzleOutput params minimum = .ok () ↔
      ∃ recipient input output, Base64.decode recipientKey = some recipient ∧
        Base64.decode puzzleInput = some input ∧ Base64.decode puzzleOutput = some output ∧
        validatePowPuzzle crypto.toRequestCrypto recipient input output params minimum =
          .ok () := by
  simp only [readPuzzle, bind_eq_ok, decodeField_eq_ok, mapError_eq_ok]
  constructor
  · rintro ⟨recipient, hrecipient, input, hinput, output, houtput, hvalid⟩
    exact ⟨recipient, input, output, hrecipient, hinput, houtput, hvalid⟩
  · rintro ⟨recipient, input, output, hrecipient, hinput, houtput, hvalid⟩
    exact ⟨recipient, hrecipient, input, hinput, output, houtput, hvalid⟩

theorem validateP2pGrantPayload_eq (payload : Ingest.P2pGrantPayload) :
    Ingest.validateP2pGrantPayload crypto now payload =
      readGrant crypto (.invalidPayload none) (.invalidPayload (some "invalid length"))
        (.invalidPayload none) Ingest.mapValidationError now
        ⟨payload.userId, payload.role, payload.flags, payload.expiresAt, payload.verifyingKey,
          payload.signature⟩ := rfl

theorem validateGrant_eq (grant : Bridge.GrantTokenPayload) :
    Bridge.validateGrant crypto now grant =
      readGrant crypto (.invalidRequest none) (.invalidRequest (some "invalid length"))
        (.invalidRequest none) Bridge.grantError now
        ⟨grant.userId, grant.role, grant.flags, grant.expiresAt, grant.verifyingKey,
          grant.signature⟩ := rfl

/-- Both sides fall back to the minimum where a payload has no parameters. -/
theorem validateP2pPuzzlePayload_eq (payload : Ingest.P2pPuzzlePayload) :
    Ingest.validateP2pPuzzlePayload crypto payload =
      readPuzzle crypto (.invalidPayload none) Ingest.mapValidationError payload.recipientKey
        payload.puzzleInput payload.puzzleOutput
        (payload.params.elim .minimum PowParamsPayload.toCore) .minimum := by
  have hparams : (payload.params.getD .minimum).toCore =
      payload.params.elim .minimum PowParamsPayload.toCore := by
    cases payload.params <;> rfl
  rw [← hparams]
  rfl

theorem validatePuzzle_eq (payload : Bridge.PuzzlePayload) (minimum : PowParams) :
    Bridge.validatePuzzle crypto payload minimum =
      readPuzzle crypto (.invalidRequest none) Bridge.puzzleError payload.recipientKey
        payload.puzzleInput payload.puzzleOutput
        (payload.params.elim .minimum PowParamsPayload.toCore) minimum := rfl

/-- The peer-to-peer ingestion, the bridge and the client accept the same grants,
and the ingestion and the bridge the same puzzles. -/
theorem boundaries_agree (crypto : Bridge.BridgeCrypto) (now : UInt64)
    (userId verifyingKey signature : String) (role : UInt64) (flags expiresAt : Option UInt64)
    (recipientKey puzzleInput puzzleOutput : String) (params : Option PowParamsPayload) :
    (Ingest.validateP2pGrantPayload crypto now
        ⟨userId, role, flags, expiresAt, verifyingKey, signature⟩ = .ok () ↔
      Bridge.validateGrant crypto now
        ⟨userId, role, flags, expiresAt, verifyingKey, signature⟩ = .ok ()) ∧
    ((∃ token, validateSignedGrant crypto
        ⟨userId, role, flags, expiresAt, verifyingKey, signature⟩ now = .ok token) ↔
      Bridge.validateGrant crypto now
        ⟨userId, role, flags, expiresAt, verifyingKey, signature⟩ = .ok ()) ∧
    (Ingest.validateP2pPuzzlePayload crypto
        ⟨recipientKey, puzzleInput, puzzleOutput, params⟩ = .ok () ↔
      Bridge.validatePuzzle crypto
        ⟨recipientKey, puzzleInput, puzzleOutput, params⟩ .minimum = .ok ()) := by
  rw [validateP2pGrantPayload_eq, validateGrant_eq, validateP2pPuzzlePayload_eq,
    validatePuzzle_eq, readGrant_eq_ok, readGrant_eq_ok, readPuzzle_eq_ok, readPuzzle_eq_ok]
  exact ⟨Iff.rfl, exists_congr fun token => validateSignedGrant_eq_ok, Iff.rfl⟩

end Boundaries

/-- What the model assumes of Ed25519: 32 bytes are a signing key, its public key is
a valid key of 32 bytes, and its signatures have 64 bytes and verify. -/
structure Bridge.BridgeCrypto.SignsCorrectly (crypto : Bridge.BridgeCrypto) : Prop where
  keyLength : ∀ key : Bytes, key.length = 32 → (crypto.verifyKey key).length = 32
  keyValid : ∀ key : Bytes, key.length = 32 → crypto.validKey (crypto.verifyKey key) = true
  signatureLength : ∀ key hash : Bytes, key.length = 32 → (crypto.sign key hash).length = 64
  verifies : ∀ key hash : Bytes, key.length = 32 →
    crypto.verifyStrict (crypto.verifyKey key) hash (crypto.sign key hash) = true

def GrantToken.expired (self : GrantToken) (now : UInt64) : Bool := self.expiresAt.any (· ≤ now)

/-- A signed grant comes back from its text as it was, until it expires. -/
def Honoured (crypto : Bridge.BridgeCrypto) (identity : IdentityState) (grant : GrantToken)
    (now : UInt64) : Prop :=
  ∃ signed, signGrant crypto.toRequestCrypto identity grant = .ok signed ∧
    validateSignedGrant crypto signed now =
      if grant.expired now then .error (.returned .grantExpired) else .ok grant

section Signing
variable {crypto : Bridge.BridgeCrypto} {identity : IdentityState} {grant : GrantToken}
  {now : UInt64} {signingKey : Bytes}

theorem length_signingKey (h : signingKeyFromHex identity.signingKeyHex = .ok signingKey) :
    signingKey.length = 32 := by
  obtain ⟨bytes, -, h⟩ := bind_eq_ok.mp h
  split_ifs at h with hlength
  rw [← Except.ok.inj h]
  exact hlength

/-- The text of a grant that was signed. -/
def signedText (crypto : Bridge.BridgeCrypto) (signingKey : Bytes) (grant : GrantToken)
    (bytes : Bytes) : SignedGrantToken :=
  ⟨Base64.encode grant.userId, grant.role, grant.flags, grant.expiresAt,
    Base64.encode (crypto.verifyKey signingKey),
    Base64.encode (crypto.sign signingKey (crypto.sha256 bytes))⟩

theorem signGrant_eq_ok (hkey : signingKeyFromHex identity.signingKeyHex = .ok signingKey)
    {signed : SignedGrantToken} :
    signGrant crypto.toRequestCrypto identity grant = .ok signed ↔
      ∃ bytes, toCtap2CanonicalBytes grant = .ok bytes ∧
        signed = signedText crypto signingKey grant bytes := by
  simp only [signGrant, hkey, ok_bind, bind_eq_ok, mapError_eq_ok, hashCtap2CborValue, pure_eq_ok]
  constructor
  · rintro ⟨_, ⟨bytes, hbytes, rfl⟩, rfl⟩
    exact ⟨bytes, hbytes, rfl⟩
  · rintro ⟨bytes, hbytes, rfl⟩
    exact ⟨_, ⟨bytes, hbytes, rfl⟩, rfl⟩

/-- The text says the grant without its extensions. -/
theorem opens_signedText (hscheme : crypto.SignsCorrectly) (hlength : signingKey.length = 32)
    (grant : GrantToken) (bytes : Bytes) :
    Opens crypto (signedText crypto signingKey grant bytes) grant.named
      (crypto.verifyKey signingKey) (crypto.sign signingKey (crypto.sha256 bytes)) where
  user := Base64.decode_encode _
  key := Base64.decode_encode _
  keyLength := hscheme.keyLength _ hlength
  keyValid := hscheme.keyValid _ hlength
  signed := Base64.decode_encode _
  signedLength := hscheme.signatureLength _ _ hlength
  fields := rfl

theorem validateGrantToken_of_expired {VerifyingKey Signature : Type} {sha256 : Bytes → Bytes}
    {verifyStrict : VerifyingKey → Bytes → Signature → Bool} {key : VerifyingKey}
    {signature : Signature} (h : grant.expired now = true) :
    validateGrantToken sha256 verifyStrict now grant key signature = .error .grantExpired := by
  obtain ⟨expiresAt, hexpires, hle⟩ := (Option.any_eq_true _ _).mp h
  simp only [validateGrantToken, hexpires, if_pos (of_decide_eq_true hle)]
  rfl

theorem not_expired_iff : grant.expired now = false ↔ ∀ e ∈ grant.expiresAt, now < e := by
  rw [GrantToken.expired]
  cases grant.expiresAt <;> simp

theorem fits_u64 (n : UInt64) : (Value.integer n.toNat).Fits := by
  have hlt := n.toNat_lt
  rw [Value.fits_integer]
  omega

theorem toCtap2CanonicalBytes_named (huser : grant.userId.length < 2 ^ 64) :
    ∃ bytes, toCtap2CanonicalBytes grant.named = .ok bytes := by
  refine ⟨_, encodeValue_of_fits ?_⟩
  refine fits_bare (by simp [GrantToken.fields]) fun field hfield value hvalue => ?_
  simp only [GrantToken.named, GrantToken.fields, List.mem_cons, List.not_mem_nil,
    or_false] at hfield
  rcases hfield with rfl | rfl | rfl | rfl
  · cases hvalue
    exact (Value.fits_bytes _).mpr huser
  · cases hvalue
    exact fits_u64 grant.role
  · obtain ⟨flags, -, rfl⟩ := Option.mem_map.mp hvalue
    exact fits_u64 flags
  · obtain ⟨expiresAt, -, rfl⟩ := Option.mem_map.mp hvalue
    exact fits_u64 expiresAt

theorem honoured_of_expired (hscheme : crypto.SignsCorrectly)
    (hkey : signingKeyFromHex identity.signingKeyHex = .ok signingKey) {bytes : Bytes}
    (hbytes : toCtap2CanonicalBytes grant = .ok bytes) (hexpired : grant.expired now = true) :
    Honoured crypto identity grant now := by
  have hopens := opens_signedText hscheme (length_signingKey hkey) grant bytes
  have hgone : grant.named.expired now = true := hexpired
  refine ⟨_, (signGrant_eq_ok hkey).mpr ⟨bytes, hbytes, rfl⟩, ?_⟩
  rw [validateSignedGrant_of_opens hopens, validateGrantToken_of_expired hgone, if_pos hexpired]
  rfl

theorem honoured_of_named (hscheme : crypto.SignsCorrectly)
    (hkey : signingKeyFromHex identity.signingKeyHex = .ok signingKey)
    (huser : grant.userId.length < 2 ^ 64) (hnamed : grant.named = grant) :
    Honoured crypto identity grant now := by
  obtain ⟨bytes, hbytes⟩ := toCtap2CanonicalBytes_named huser
  rw [hnamed] at hbytes
  by_cases hexpired : grant.expired now = true
  · exact honoured_of_expired hscheme hkey hbytes hexpired
  have hlength := length_signingKey hkey
  have hopens := opens_signedText hscheme hlength grant bytes
  rw [hnamed] at hopens
  have hvalid : validateGrantToken crypto.sha256 crypto.verifyStrict now grant
      (crypto.verifyKey signingKey) (crypto.sign signingKey (crypto.sha256 bytes)) = .ok () :=
    (validateGrantToken_eq_ok _ _).mpr ⟨not_expired_iff.mp (Bool.eq_false_of_not_eq_true hexpired),
      bytes, hbytes, hscheme.verifies _ _ hlength⟩
  refine ⟨_, (signGrant_eq_ok hkey).mpr ⟨bytes, hbytes, rfl⟩, ?_⟩
  rw [validateSignedGrant_of_opens hopens, hvalid, if_neg hexpired]
  rfl

/-- A signed grant comes back exactly if it has no extensions, or if it has expired
and could be signed at all. -/
theorem signed_grant_honoured_iff (hscheme : crypto.SignsCorrectly)
    (hkey : signingKeyFromHex identity.signingKeyHex = .ok signingKey)
    (huser : grant.userId.length < 2 ^ 64) :
    Honoured crypto identity grant now ↔ grant.extensions = ∅ ∨
      grant.expired now = true ∧ ∃ bytes, toCtap2CanonicalBytes grant = .ok bytes := by
  constructor
  · rintro ⟨signed, hsigned, hvalid⟩
    obtain ⟨bytes, hbytes, rfl⟩ := (signGrant_eq_ok hkey).mp hsigned
    by_cases hexpired : grant.expired now = true
    · exact .inr ⟨hexpired, bytes, hbytes⟩
    · rw [if_neg hexpired, validateSignedGrant_eq_ok] at hvalid
      obtain ⟨_, _, hopens, -⟩ := hvalid
      exact .inl (congrArg GrantToken.extensions hopens.fields)
  · rintro (hnone | ⟨hexpired, bytes, hbytes⟩)
    · have hnamed : grant.named = grant := by rw [GrantToken.named, ← hnone]
      exact honoured_of_named hscheme hkey huser hnamed
    · exact honoured_of_expired hscheme hkey hbytes hexpired

end Signing

section Sample
open Bridge (sampleBridgeCrypto)

theorem signsCorrectly_sampleBridgeCrypto : sampleBridgeCrypto.SignsCorrectly where
  keyLength _ _ := show requestVerifyingKey.length = 32 by decide
  keyValid _ _ := show decide (requestVerifyingKey = requestVerifyingKey) = true by simp
  signatureLength _ hash _ := Tabulated.length_padded (by decide) hash
  verifies _ _ _ := decide_eq_true ⟨rfl, rfl⟩

theorem signingKey_requestReceiver :
    signingKeyFromHex requestReceiver.signingKeyHex = .ok (List.replicate 32 7) :=
  signingKeyFromHex_ok (Hex.decode_encode _) rfl

/-- A grant without extensions, before and after it expires. -/
theorem signed_grant_honoured_plain :
    Honoured sampleBridgeCrypto requestReceiver
        ⟨requesterId, 1, none, some 1700000300, ∅⟩ 1700000299 ∧
      Honoured sampleBridgeCrypto requestReceiver
        ⟨requesterId, 1, none, some 1700000300, ∅⟩ 1700000300 :=
  ⟨(signed_grant_honoured_iff signsCorrectly_sampleBridgeCrypto signingKey_requestReceiver
      (by decide)).mpr (.inl rfl),
    (signed_grant_honoured_iff signsCorrectly_sampleBridgeCrypto signingKey_requestReceiver
      (by decide)).mpr (.inl rfl)⟩

def extendedGrant : GrantToken :=
  ⟨requesterId, 1, none, none, (∅ : FieldMap).insert 4 (.integer 0)⟩

/-- The extension is signed and then left out, so the signature does not verify. -/
theorem extended_grant_refused :
    signGrant sampleBridgeCrypto.toRequestCrypto requestReceiver extendedGrant =
      .ok (signedText sampleBridgeCrypto (List.replicate 32 7) extendedGrant
        extendedBytes.bytes) ∧
    validateSignedGrant sampleBridgeCrypto (signedText sampleBridgeCrypto (List.replicate 32 7)
      extendedGrant extendedBytes.bytes) 0 = .error (.returned .grantInvalid) := by
  have hbytes : toCtap2CanonicalBytes extendedGrant = .ok extendedBytes.bytes := by decide
  have hopens := opens_signedText signsCorrectly_sampleBridgeCrypto
    (rfl : (List.replicate 32 (7 : UInt8)).length = 32) extendedGrant extendedBytes.bytes
  have hinvalid : validateGrantToken sampleBridgeCrypto.sha256 sampleBridgeCrypto.verifyStrict 0
      extendedGrant.named (sampleBridgeCrypto.verifyKey (List.replicate 32 7))
      (sampleBridgeCrypto.sign (List.replicate 32 7) (sampleBridgeCrypto.sha256
        extendedBytes.bytes)) = .error .grantInvalid := by
    decide
  refine ⟨(signGrant_eq_ok signingKey_requestReceiver).mpr ⟨_, hbytes, rfl⟩, ?_⟩
  rw [validateSignedGrant_of_opens hopens, hinvalid]
  rfl

end Sample
end Spex
