import Spex.Base64
import Spex.Codec
import Spex.Saturating
import Spex.ThreadState

/-!
# Requests for a grant

A request names its sender and its receiver in hexadecimal, a role and a time,
and carries a proof of work. The receiver checks that the request is for it and
fresh, that the input of the puzzle ends in the fields of the request, that the
parameters reach the minimum of its policy and of the protocol, and that the
output is the one Argon2id gives. Then it signs a grant for the sender.
-/
namespace Spex
open Fallible Cbor

structure PowParams where
  memoryKib : UInt32
  iterations : UInt32
  parallelism : UInt32
  outputLen : UInt64
  deriving DecidableEq, Repr

def PowParams.minimum : PowParams := ⟨64 * 1024, 3, 1, 32⟩

/-- Neither the parallelism nor the length is compared. -/
def PowParams.meetsMinimum (self : PowParams) : Bool :=
  minimum.memoryKib ≤ self.memoryKib ∧ minimum.iterations ≤ self.iterations

/-- The default of `PowNonceParams`. -/
def nonceLen : ℕ := 32

structure PowParamsPayload where
  memoryKib : UInt32
  iterations : UInt32
  parallelism : UInt32
  outputLen : UInt64
  deriving DecidableEq, Repr, Countable

def PowParamsPayload.minimum : PowParamsPayload :=
  ⟨PowParams.minimum.memoryKib, PowParams.minimum.iterations, PowParams.minimum.parallelism,
    PowParams.minimum.outputLen⟩

def PowParamsPayload.toCore (self : PowParamsPayload) : PowParams :=
  ⟨self.memoryKib, self.iterations, self.parallelism, self.outputLen⟩

/-- A solved puzzle, in base64. -/
structure PuzzleToken where
  recipientKey : String
  puzzleInput : String
  puzzleOutput : String
  params : PowParamsPayload
  deriving DecidableEq, Repr, Countable

/-- A request for a grant, with the work it carries. -/
structure RequestToken where
  fromUserId : String
  toUserId : String
  role : UInt64
  createdAt : UInt64
  puzzle : Option PuzzleToken
  deriving DecidableEq, Repr, Countable

/-- What a receiver asks of a request. -/
structure RequestPowPolicy where
  requiresPow : Bool := true
  minimumParams : PowParamsPayload := .minimum
  maxAgeSeconds : UInt64 := 5 * 60
  maxFutureSkewSeconds : UInt64 := 30
  deriving DecidableEq, Repr

structure SignedGrantToken where
  userId : String
  role : UInt64
  flags : Option UInt64
  expiresAt : Option UInt64
  verifyingKey : String
  signature : String
  deriving DecidableEq, Repr

def saltContext : Bytes := Value.utf8 "spex.pow.recipient.salt.v1"

def requestPowContext : Bytes := Value.utf8 "spex.request.pow.v1"

/-- The primitives behind a request: the hash, Argon2id (parameters, password and
salt), the public key of a signing key, and the signature (key and hash). -/
structure RequestCrypto where
  sha256 : Bytes → Bytes
  argon2id : PowParams → Bytes → Bytes → Except SpexError Bytes
  verifyKey : Bytes → Bytes
  sign : Bytes → Bytes → Bytes

section Puzzles
variable (crypto : RequestCrypto)

/-- The work is done for one recipient. -/
def deriveRecipientSalt (recipientKey : Bytes) : Bytes :=
  crypto.sha256 (saltContext ++ recipientKey)

def generatePuzzleOutput (recipientKey puzzleInput : Bytes) (params : PowParams) :
    Except SpexError Bytes :=
  crypto.argon2id params puzzleInput (deriveRecipientSalt crypto recipientKey)

def verifyPuzzleOutput (recipientKey puzzleInput expected : Bytes) (params : PowParams) :
    Except SpexError Bool :=
  if ¬ params.meetsMinimum then .error (.invalidInput "pow params below minimum requirements")
  else if expected.length ≠ params.outputLen.toNat then .error (.invalidLength "argon2 output")
  else (generatePuzzleOutput crypto recipientKey puzzleInput params).map (· = expected)

/-- The parameters are compared before any work is done. -/
def validatePowPuzzle (recipientKey puzzleInput puzzleOutput : Bytes) (params minimum : PowParams) :
    Except GrantPowValidationError Unit :=
  if params.memoryKib < minimum.memoryKib ∨ params.iterations < minimum.iterations ∨
      params.parallelism < minimum.parallelism ∨ params.outputLen < minimum.outputLen then
    .error .powTooWeak
  else do
    let valid ← (verifyPuzzleOutput crypto recipientKey puzzleInput puzzleOutput params).mapError
      .core
    if valid then .ok () else .error .powInvalid

/-- A field in Base64 of a puzzle. -/
def puzzleField (text : String) : ClientResult Bytes :=
  (Base64.decode text).elim (.error (.returned .invalidPuzzle)) .ok

def powError : GrantPowValidationError → ClientError
  | .powTooWeak | .powInvalid => .invalidPuzzle
  | err => .crypto err.message

/-- `puzzle_input.get(nonce_len..)`. -/
def afterNonce (puzzleInput : Bytes) : Option Bytes :=
  if nonceLen ≤ puzzleInput.length then some (puzzleInput.drop nonceLen) else none

/-- The check that the puzzle input is a nonce and the binding. -/
def validateBinding (puzzleInput : Bytes) : Option Bytes → ClientResult Unit
  | none => .ok ()
  | some binding => require (puzzleInput.length = nonceLen + binding.length ∧
      afterNonce puzzleInput = some binding) (.returned .invalidPuzzle)

/-- The puzzle must be for the recipient and bound to the request. -/
def validateRequestPuzzleInternal (puzzle : PuzzleToken) (recipientKey : Bytes)
    (minimumParams : PowParamsPayload) (expectedBinding : Option Bytes) : ClientResult Unit := do
  let recipientBytes ← puzzleField puzzle.recipientKey
  require (recipientBytes = recipientKey) (.returned .invalidPuzzle)
  let puzzleInput ← puzzleField puzzle.puzzleInput
  let puzzleOutput ← puzzleField puzzle.puzzleOutput
  validateBinding puzzleInput expectedBinding
  (validatePowPuzzle crypto recipientKey puzzleInput puzzleOutput puzzle.params.toCore
    minimumParams.toCore).mapError fun err => .returned (powError err)

def signGrant (identity : IdentityState) (grant : GrantToken) : ClientResult SignedGrantToken := do
  let signingKey ← signingKeyFromHex identity.signingKeyHex
  let hash ← (hashCtap2CborValue crypto.sha256 .sha256 grant).mapError coreFault
  return {
    userId := Base64.encode grant.userId
    role := grant.role
    flags := grant.flags
    expiresAt := grant.expiresAt
    verifyingKey := Base64.encode (crypto.verifyKey signingKey)
    signature := Base64.encode (crypto.sign signingKey hash) }

end Puzzles

/-- The work is bound to the two users, the role and the time. -/
def buildRequestPowBinding (fromUserIdHex toUserIdHex : String) (role createdAt : UInt64) :
    ClientResult Bytes := do
  let fromUserId ← hexDecode fromUserIdHex
  let toUserId ← hexDecode toUserIdHex
  require (fromUserId.length = 32 ∧ toUserId.length = 32) (.returned .invalidPuzzle)
  return requestPowContext ++ fromUserId ++ toUserId ++ u64Be role ++ u64Be createdAt

/-- A request may be a little ahead of the clock. -/
def validateRequestFreshness (request : RequestToken) (policy : RequestPowPolicy) (now : UInt64) :
    ClientResult Unit :=
  if request.createdAt > Saturating.add now policy.maxFutureSkewSeconds ∨
      Saturating.sub now request.createdAt > policy.maxAgeSeconds then
    .error (.returned .requestStale)
  else .ok ()

section Acceptance
variable (crypto : RequestCrypto) (requestJson : Codec RequestToken)

def parseRequestToken (token : String) : ClientResult RequestToken :=
  match Base64.decode token with
  | none => .error (.returned .invalidCard)
  | some payload => (requestJson.fromSlice payload).elim (.error (.returned .json)) .ok

/-- The check of the proof of work, which a policy may do without. -/
def validateRequestWork (identity : IdentityState) (policy : RequestPowPolicy)
    (requestBinding : Bytes) : Option PuzzleToken → ClientResult Unit
  | some puzzle => do
    let recipientKey ← hexDecode identity.userIdHex
    validateRequestPuzzleInternal crypto puzzle recipientKey policy.minimumParams
      (some requestBinding)
  | none => require (policy.requiresPow = false) (.returned .invalidPuzzle)

/-- The part of `accept_request_payload_with_policy` after parsing. -/
def acceptRequestToken (identity : IdentityState) (policy : RequestPowPolicy) (now : UInt64)
    (requestToken : RequestToken) : ClientResult SignedGrantToken := do
  require (requestToken.toUserId = identity.userIdHex) (.returned .requestTargetMismatch)
  validateRequestFreshness requestToken policy now
  let requestBinding ← buildRequestPowBinding requestToken.fromUserId requestToken.toUserId
    requestToken.role requestToken.createdAt
  validateRequestWork crypto identity policy requestBinding requestToken.puzzle
  let userId ← hexDecode requestToken.fromUserId
  signGrant crypto identity ⟨userId, requestToken.role, none, none, ∅⟩

def acceptRequestPayloadWithPolicy (identity : IdentityState) (requestPayload : String)
    (policy : RequestPowPolicy) (now : UInt64) :
    ClientResult (RequestToken × SignedGrantToken) := do
  let requestToken ← parseRequestToken requestJson requestPayload
  let signedGrant ← acceptRequestToken crypto identity policy now requestToken
  return (requestToken, signedGrant)

end Acceptance

section Checks
variable {crypto : RequestCrypto} {requestJson : Codec RequestToken} {identity : IdentityState}
  {payload : String} {policy : RequestPowPolicy} {now : UInt64} {request : RequestToken}
  {grant : SignedGrantToken} {puzzle : PuzzleToken} {recipientKey : Bytes}
  {minimum params : PowParamsPayload} {binding : Bytes}

theorem puzzleField_eq_ok {text : String} {bytes : Bytes} :
    puzzleField text = .ok bytes ↔ Base64.decode text = some bytes := by
  rw [puzzleField]
  cases Base64.decode text <;> simp

/-- The parameters reach the minimum of the policy and that of the protocol. -/
structure Strong (params minimum : PowParamsPayload) : Prop where
  memory : minimum.memoryKib ≤ params.memoryKib ∧
    PowParams.minimum.memoryKib ≤ params.memoryKib
  iterations : minimum.iterations ≤ params.iterations ∧
    PowParams.minimum.iterations ≤ params.iterations
  parallelism : minimum.parallelism ≤ params.parallelism
  outputLen : minimum.outputLen ≤ params.outputLen

theorem strong_of_validate {puzzleInput puzzleOutput : Bytes}
    (h : validatePowPuzzle crypto recipientKey puzzleInput puzzleOutput params.toCore
      minimum.toCore = .ok ()) : Strong params minimum := by
  rw [validatePowPuzzle] at h
  split_ifs at h with hweak
  simp only [not_or, UInt32.not_lt, UInt64.not_lt] at hweak
  obtain ⟨valid, hvalid, -⟩ := bind_eq_ok.mp h
  rw [mapError_eq_ok, verifyPuzzleOutput] at hvalid
  split_ifs at hvalid with hmeets
  rw [PowParams.meetsMinimum, decide_eq_true_eq] at hmeets
  exact ⟨⟨hweak.1, hmeets.1⟩, ⟨hweak.2.1, hmeets.2⟩, hweak.2.2.1, hweak.2.2.2⟩

/-- A puzzle that passes ends in the binding and is strong enough. -/
theorem validateRequestPuzzleInternal_ok (h : validateRequestPuzzleInternal crypto puzzle
    recipientKey minimum (some binding) = .ok ()) :
    (∃ nonce, nonce.length = nonceLen ∧
      Base64.decode puzzle.puzzleInput = some (nonce ++ binding)) ∧
      Strong puzzle.params minimum := by
  obtain ⟨recipientBytes, -, h⟩ := bind_eq_ok.mp h
  obtain ⟨-, -, h⟩ := bind_eq_ok.mp h
  obtain ⟨puzzleInput, hinput, h⟩ := bind_eq_ok.mp h
  obtain ⟨puzzleOutput, -, h⟩ := bind_eq_ok.mp h
  obtain ⟨_, hbinding, h⟩ := bind_eq_ok.mp h
  refine ⟨⟨puzzleInput.take nonceLen, ?_⟩, strong_of_validate (mapError_eq_ok.mp h)⟩
  obtain ⟨hlength, hafter⟩ := require_eq_ok.mp hbinding
  have hle : nonceLen ≤ puzzleInput.length := by omega
  rw [afterNonce, if_pos hle] at hafter
  rw [← Option.some.inj hafter, List.take_append_drop, List.length_take, min_eq_left hle]
  exact ⟨rfl, puzzleField_eq_ok.mp hinput⟩

theorem buildRequestPowBinding_ok {fromUserIdHex toUserIdHex : String} {role createdAt : UInt64}
    (h : buildRequestPowBinding fromUserIdHex toUserIdHex role createdAt = .ok binding) :
    ∃ fromUserId toUserId : Bytes, Hex.decode fromUserIdHex = some fromUserId ∧
      Hex.decode toUserIdHex = some toUserId ∧ fromUserId.length = 32 ∧ toUserId.length = 32 ∧
      binding = requestPowContext ++ fromUserId ++ toUserId ++ u64Be role ++ u64Be createdAt := by
  obtain ⟨fromUserId, hfrom, h⟩ := bind_eq_ok.mp h
  obtain ⟨toUserId, hto, h⟩ := bind_eq_ok.mp h
  obtain ⟨_, hlengths, h⟩ := bind_eq_ok.mp h
  obtain ⟨hfromLength, htoLength⟩ := require_eq_ok.mp hlengths
  exact ⟨fromUserId, toUserId, hexDecode_eq_ok.mp hfrom, hexDecode_eq_ok.mp hto, hfromLength,
    htoLength, (Except.ok.inj h).symm⟩

/-- The decoded fields that the proof of work is bound to. -/
structure SameBinding (request request' : RequestToken) : Prop where
  fromUserId : Hex.decode request.fromUserId = Hex.decode request'.fromUserId
  toUserId : Hex.decode request.toUserId = Hex.decode request'.toUserId
  role : request.role = request'.role
  createdAt : request.createdAt = request'.createdAt

/-- All fields of the binding have a fixed width, so it determines them. -/
theorem sameBinding_of_eq {request' : RequestToken}
    (h : buildRequestPowBinding request.fromUserId request.toUserId request.role
      request.createdAt = .ok binding)
    (h' : buildRequestPowBinding request'.fromUserId request'.toUserId request'.role
      request'.createdAt = .ok binding) : SameBinding request request' := by
  obtain ⟨fromUserId, toUserId, hfrom, hto, hfromLength, htoLength, hbinding⟩ :=
    buildRequestPowBinding_ok h
  obtain ⟨fromUserId', toUserId', hfrom', hto', hfromLength', htoLength', hbinding'⟩ :=
    buildRequestPowBinding_ok h'
  rw [hbinding] at hbinding'
  obtain ⟨hrest, hcreated⟩ := List.append_inj' hbinding' (by simp [u64Be])
  obtain ⟨hrest, hrole⟩ := List.append_inj' hrest (by simp [u64Be])
  obtain ⟨hrest, htoEq⟩ := List.append_inj' hrest (by rw [htoLength, htoLength'])
  have hfromEq := List.append_cancel_left hrest
  refine ⟨by rw [hfrom, hfrom', hfromEq], by rw [hto, hto', htoEq], ?_, ?_⟩
  · exact UInt64.toNat_inj.mp (BigEndian.write_inj (UInt64.toNat_lt _) (UInt64.toNat_lt _) hrole)
  · exact UInt64.toNat_inj.mp
      (BigEndian.write_inj (UInt64.toNat_lt _) (UInt64.toNat_lt _) hcreated)

/-- What the receiver has checked of a request that it accepts. -/
structure Checked (crypto : RequestCrypto) (identity : IdentityState) (policy : RequestPowPolicy)
    (now : UInt64) (request : RequestToken) : Prop where
  target : request.toUserId = identity.userIdHex
  fresh : validateRequestFreshness request policy now = .ok ()
  work : ∃ binding, buildRequestPowBinding request.fromUserId request.toUserId request.role
    request.createdAt = .ok binding ∧ ∀ puzzle ∈ request.puzzle, ∃ recipientKey,
      validateRequestPuzzleInternal crypto puzzle recipientKey policy.minimumParams
        (some binding) = .ok ()

theorem checked_of_accept
    (h : acceptRequestToken crypto identity policy now request = .ok grant) :
    Checked crypto identity policy now request := by
  obtain ⟨_, htarget, h⟩ := bind_eq_ok.mp h
  obtain ⟨_, hfresh, h⟩ := bind_eq_ok.mp h
  obtain ⟨binding, hbinding, h⟩ := bind_eq_ok.mp h
  obtain ⟨_, hwork, -⟩ := bind_eq_ok.mp h
  refine ⟨require_eq_ok.mp htarget, hfresh, binding, hbinding, ?_⟩
  intro puzzle hpuzzle
  rw [Option.mem_def.mp hpuzzle, validateRequestWork] at hwork
  obtain ⟨recipientKey, -, hvalid⟩ := bind_eq_ok.mp hwork
  exact ⟨recipientKey, hvalid⟩

theorem accept_eq_ok : acceptRequestPayloadWithPolicy crypto requestJson identity payload policy
    now = .ok (request, grant) ↔ parseRequestToken requestJson payload = .ok request ∧
      acceptRequestToken crypto identity policy now request = .ok grant := by
  rw [acceptRequestPayloadWithPolicy, bind_eq_ok]
  constructor
  · rintro ⟨token, hparsed, h⟩
    obtain ⟨signedGrant, haccept, h⟩ := bind_eq_ok.mp h
    obtain ⟨rfl, rfl⟩ := Prod.mk.inj (Except.ok.inj h)
    exact ⟨hparsed, haccept⟩
  · rintro ⟨hparsed, haccept⟩
    exact ⟨request, hparsed, bind_eq_ok.mpr ⟨grant, haccept, rfl⟩⟩

/-- Saturation accepts no time that the exact window does not. -/
theorem window_of_fresh (h : validateRequestFreshness request policy now = .ok ()) :
    now.toNat ≤ request.createdAt.toNat + policy.maxAgeSeconds.toNat ∧
      request.createdAt.toNat ≤ now.toNat + policy.maxFutureSkewSeconds.toNat := by
  rw [validateRequestFreshness] at h
  split_ifs at h with hstale
  simp only [gt_iff_lt, not_or, UInt64.not_lt, UInt64.le_iff_toNat_le, Saturating.toNat_add,
    Saturating.toNat_sub] at hstale
  omega

/-- An accepted request is fresh in exact arithmetic. Its puzzle reaches both
minima, and no request with the same puzzle input is accepted with another
sender, receiver, role or time. -/
theorem accepted_work_bound (h : acceptRequestPayloadWithPolicy crypto requestJson identity
    payload policy now = .ok (request, grant)) :
    (now.toNat ≤ request.createdAt.toNat + policy.maxAgeSeconds.toNat ∧
      request.createdAt.toNat ≤ now.toNat + policy.maxFutureSkewSeconds.toNat) ∧
    ∀ puzzle ∈ request.puzzle, Strong puzzle.params policy.minimumParams ∧
      ∀ payload' policy' now' request' grant', acceptRequestPayloadWithPolicy crypto requestJson
        identity payload' policy' now' = .ok (request', grant') →
        ∀ puzzle' ∈ request'.puzzle,
          Base64.decode puzzle'.puzzleInput = Base64.decode puzzle.puzzleInput →
          SameBinding request request' := by
  have hchecked := checked_of_accept (accept_eq_ok.mp h).2
  refine ⟨window_of_fresh hchecked.fresh, fun puzzle hpuzzle => ?_⟩
  obtain ⟨binding, hbinding, hwork⟩ := hchecked.work
  obtain ⟨recipientKey, hvalid⟩ := hwork puzzle hpuzzle
  obtain ⟨⟨nonce, hnonce, hinput⟩, hstrong⟩ := validateRequestPuzzleInternal_ok hvalid
  refine ⟨hstrong, ?_⟩
  intro payload' policy' now' request' grant' h' puzzle' hpuzzle' hsame
  obtain ⟨binding', hbinding', hwork'⟩ := (checked_of_accept (accept_eq_ok.mp h').2).work
  obtain ⟨recipientKey', hvalid'⟩ := hwork' puzzle' hpuzzle'
  obtain ⟨⟨nonce', hnonce', hinput'⟩, -⟩ := validateRequestPuzzleInternal_ok hvalid'
  rw [hinput, hinput', Option.some.injEq] at hsame
  obtain ⟨-, rfl⟩ := List.append_inj hsame (by rw [hnonce, hnonce'])
  exact sameBinding_of_eq hbinding hbinding'

/-- A puzzle as the sender builds it passes if its work does. -/
theorem validateRequestPuzzleInternal_encode {nonce puzzleOutput : Bytes}
    (hnonce : nonce.length = nonceLen)
    (hpow : validatePowPuzzle crypto recipientKey (nonce ++ binding) puzzleOutput params.toCore
      minimum.toCore = .ok ()) :
    validateRequestPuzzleInternal crypto ⟨Base64.encode recipientKey,
      Base64.encode (nonce ++ binding), Base64.encode puzzleOutput, params⟩ recipientKey minimum
        (some binding) = .ok () := by
  have hfield : ∀ bytes, puzzleField (Base64.encode bytes) = .ok bytes :=
    fun bytes => puzzleField_eq_ok.mpr (Base64.decode_encode bytes)
  have hbinding : validateBinding (nonce ++ binding) (some binding) = .ok () := by
    refine require_eq_ok.mpr ⟨by rw [List.length_append, hnonce], ?_⟩
    rw [afterNonce, if_pos (by rw [List.length_append]; omega), ← hnonce, List.drop_left]
  rw [validateRequestPuzzleInternal, hfield, hfield, hfield]
  simp only [ok_bind, hbinding]
  rw [hpow]
  rfl

/-- A payload as the sender builds it is read back. -/
theorem parse_encode (request : RequestToken) :
    parseRequestToken requestJson (Base64.encode (requestJson.toVec request)) = .ok request := by
  rw [parseRequestToken, Base64.decode_encode]
  dsimp only
  rw [requestJson.fromSlice_toVec]
  rfl

end Checks

section Sample
open Tabulated

def requesterId : Bytes := List.replicate 32 0xaa

def recipientId : Bytes := List.replicate 32 0xbb

def requestReceiver : IdentityState :=
  ⟨Hex.encode recipientId, Hex.encode (List.replicate 32 7)⟩

def requestTime : UInt64 := 1700000000

def requestPuzzleInput : Bytes :=
  List.replicate 32 0x33 ++ (requestPowContext ++ requesterId ++
    recipientId ++ u64Be 1 ++ u64Be requestTime)

def requestSalt : Bytes :=
  BigEndian.write 32 0x16ccafd0b1d34140c79a4e909222db124da45ecd481dd2c041ef68dd45a75e5b

def requestPuzzleOutput : Bytes :=
  BigEndian.write 32 0x3c913c200b53357102ccdec8f45d1ccea13d04fd5a9cd38d64aa5bf11eee4fcf

/-- A puzzle of the recipient that is bound to nothing else. -/
def publishPuzzleInput : Bytes := List.replicate 32 0x33 ++ recipientId

def publishPuzzleOutput : Bytes :=
  BigEndian.write 32 0xe7ef5f4267176dcef5b80345837f2001b723592e461a485f4d0e8e87b1afff8f

/-- A request of the sender whose id is 32 bytes of value 0xaa, written in one of
two ways. -/
def sampleRequest (fromUserId : String) : RequestToken where
  fromUserId := fromUserId
  toUserId := Hex.encode recipientId
  role := 1
  createdAt := requestTime
  puzzle := some
    { recipientKey := Base64.encode recipientId
      puzzleInput := Base64.encode requestPuzzleInput
      puzzleOutput := Base64.encode requestPuzzleOutput
      params := .minimum }

def lowerRequest : RequestToken := sampleRequest (String.ofList (List.replicate 64 'a'))

def upperRequest : RequestToken := sampleRequest (String.ofList (List.replicate 64 'A'))

/-- The JSON text of a request whose strings need no escapes. -/
def requestText (request : RequestToken) : Bytes :=
  let quoted (name text : String) := Value.utf8 ("\"" ++ name ++ "\":\"" ++ text ++ "\",")
  let number (name : String) (n : ℕ) := Value.utf8 ("\"" ++ name ++ "\":" ++ toString n)
  let puzzle := match request.puzzle with
    | none => Value.utf8 "null"
    | some puzzle => Value.utf8 "\x7b" ++ quoted "recipient_key" puzzle.recipientKey ++
      quoted "puzzle_input" puzzle.puzzleInput ++ quoted "puzzle_output" puzzle.puzzleOutput ++
      Value.utf8 "\"params\":\x7b" ++ number "memory_kib" puzzle.params.memoryKib.toNat ++
      Value.utf8 "," ++ number "iterations" puzzle.params.iterations.toNat ++
      Value.utf8 "," ++ number "parallelism" puzzle.params.parallelism.toNat ++
      Value.utf8 "," ++ number "output_len" puzzle.params.outputLen.toNat ++ Value.utf8 "\x7d\x7d"
  Value.utf8 "\x7b" ++ quoted "from_user_id" request.fromUserId ++
    quoted "to_user_id" request.toUserId ++ number "role" request.role.toNat ++ Value.utf8 "," ++
    number "created_at" request.createdAt.toNat ++ Value.utf8 ",\"puzzle\":" ++ puzzle ++
    Value.utf8 "\x7d"

def requestVerifyingKey : Bytes :=
  BigEndian.write 32 0xea4a6c63e29c520abef5507b132ec5f9954776aebebe7b92421eea691446d22c

/-- Canonical bytes, their SHA-256 digest and its Ed25519 signature under the key `07..07`. -/
structure SignedBytes where
  bytes : Bytes
  digest : Bytes
  signature : Bytes

def SignedBytes.of (bytes : Bytes) (digest commitment scalar : ℕ) : SignedBytes :=
  ⟨bytes, BigEndian.write 32 digest, BigEndian.write 32 commitment ++ BigEndian.write 32 scalar⟩

/-- The bytes of a grant of the role one to the sender. -/
def grantBytes (head : UInt8) (rest : Bytes) : Bytes :=
  [head, 0x00, 0x58, 0x20] ++ requesterId ++ [0x01, 0x01] ++ rest

def signedGrant : SignedBytes := .of (grantBytes 0xa2 [])
  0x067fb75ee4d5b2417fdd445c088278344d57fb331f221a142aa0f668a7c71594
  0xbcad397356c4b74497d7dec073eefe52b8b284cc9188f3c91645a5d9b739e51f
  0xece52bb11b3beb0e7d000832713324e4e8fe8a5eb144966d472a84e86062770a

/-- The grant until 1700000300. -/
def datedGrant : SignedBytes := .of (grantBytes 0xa3 [0x03, 0x1a, 0x65, 0x53, 0xf2, 0x2c])
  0xbe0ddcb24031de472bb548210e737cc9dad33f88ea41c0e85348796a8e78c766
  0x3282c028462c2749f4cee5b37a15ae481c828f5bb2ea510771828b777c1462a3
  0x9e3232eb6bf87a6cec8396432cf278edcbda8aba3a715c60467612c659038d0a

/-- The grant until 300 seconds after the last second of an `i64`. -/
def lateGrant : SignedBytes := .of
  (grantBytes 0xa3 [0x03, 0x1b, 0x80, 0x00, 0x00, 0x00, 0x00, 0x00, 0x01, 0x2b])
  0x4af5a3dbc47f86df9c0967f024d06b49d4aa9786f50b662e1a39571aa3bba3c8
  0x8614be071949386bbefa05846a358d486d41730d207fc246302a40a47a999fce
  0x74477a0aeeb4b136ca7555ea1e5851e0a12254e49dc3f7bddcf55333754fb805

/-- The grant with an extension of key four. -/
def extendedBytes : SignedBytes := .of (grantBytes 0xa3 [0x04, 0x00])
  0x6e701789809f73c5eb86271a8c1495784f9885af3fcb9c5be068da3ca5517f9d
  0x6810826db73d33d373e054fa9d1a84f59a43775b4de11db20fdca8692fc2d14a
  0x8f1b2bd9d9efc6679115702b33bb9ab18ca4a4b0e95bde822646cf3b5d848b04

/-- The bytes of a contact card of the sender. -/
def cardBytes (head : UInt8) (rest : Bytes) : Bytes :=
  [head, 0x00, 0x58, 0x20] ++ requesterId ++ [0x01, 0x58, 0x20] ++ requestVerifyingKey ++
    [0x02, 0x41, 0x04, 0x03, 0x41, 0x05, 0x04, 0x1a, 0x65, 0x53, 0xf1, 0x00] ++ rest

def signedCard : SignedBytes := .of (cardBytes 0xa5 [])
  0x8110d9f382d0014336cbd77e3a49f6165703fa3e67b89b59084ea40b19bd2f17
  0x5acf3f85050f313793b8226c90223898be673e2035866df62d124bd2319c9400
  0xcff4c3261006d69e6956c956d0ee157ef854a1b629c0d90634b9b08a94ddb00c

def invitedCard : SignedBytes := .of
  (cardBytes 0xa6 [0x05, 0xa3, 0x00, 0x01, 0x01, 0x00, 0x02, 0xf5])
  0x6c5101e0151a2b4df25bb61f3de80ca7dc98f5c29af9473ce5c6b66ad1ea1342
  0xabbf716f5566bfca9ba9f137628f37e3633e2444866cd928a9c975d0445c0dde
  0x1d266cec1c91f1c4a8141fe62a5de596396e42d6d0d0bd757eb1b50b795b2b07

def signedSamples : List SignedBytes :=
  [signedGrant, datedGrant, lateGrant, extendedBytes, signedCard, invitedCard]

def requestDigests : List (Bytes × Bytes) :=
  signedSamples.map (fun sample => (sample.bytes, sample.digest)) ++
  [(saltContext ++ recipientId, requestSalt),
   (recipientId,
    BigEndian.write 32 0x4ca14526b2751b640d549ce7caf8ac39438592211a0ec370064d57666a682ad6),
   (requestText lowerRequest,
    BigEndian.write 32 0xa08f69c3e528a33a5c8a0f0537e34467c1971533ae32870b22a62d933d16eacf),
   (requestText upperRequest,
    BigEndian.write 32 0xd78672d1694b4f43b927e3f849d9400476d10977b8295741449fd9f632120b57)]

def sampleRequestCrypto : RequestCrypto where
  sha256 := tabulated requestDigests
  argon2id params password salt :=
    if params = .minimum ∧ salt = requestSalt then
      .ok (padded [(requestPuzzleInput, requestPuzzleOutput),
        (publishPuzzleInput, publishPuzzleOutput)] 32 password)
    else .ok (List.replicate params.outputLen.toNat 0)
  verifyKey _ := requestVerifyingKey
  sign _ hash := padded (signedSamples.map fun sample => (sample.digest, sample.signature)) 64 hash

def sampleGrantToken : SignedGrantToken :=
  ⟨Base64.encode requesterId, 1, none, none, Base64.encode requestVerifyingKey,
    Base64.encode signedGrant.signature⟩

theorem accepts_sampleRequest {fromUserId : String}
    (h : Hex.decode fromUserId = some requesterId) :
    acceptRequestToken sampleRequestCrypto requestReceiver {} requestTime
      (sampleRequest fromUserId) = .ok sampleGrantToken := by
  have hfrom : hexDecode fromUserId = .ok requesterId := hexDecode_eq_ok.mpr h
  have hto : hexDecode (Hex.encode recipientId) = .ok recipientId :=
    hexDecode_eq_ok.mpr (Hex.decode_encode _)
  have hbinding : buildRequestPowBinding fromUserId (Hex.encode recipientId) 1
      requestTime = .ok (requestPowContext ++ requesterId ++ recipientId ++
        u64Be 1 ++ u64Be requestTime) := by
    rw [buildRequestPowBinding, hfrom, hto]
    rfl
  have hpow : validatePowPuzzle sampleRequestCrypto recipientId requestPuzzleInput
      requestPuzzleOutput PowParamsPayload.minimum.toCore PowParamsPayload.minimum.toCore =
        .ok () := by
    decide +kernel
  have hsign : signGrant sampleRequestCrypto requestReceiver
      ⟨requesterId, 1, none, none, ∅⟩ = .ok sampleGrantToken := by
    decide +kernel
  have hfresh : validateRequestFreshness (sampleRequest fromUserId) {} requestTime =
      .ok () := by
    rw [validateRequestFreshness, if_neg]
    simp only [sampleRequest]
    decide
  have hnonce : (List.replicate 32 (0x33 : UInt8)).length = nonceLen := rfl
  have hwork := validateRequestPuzzleInternal_encode hnonce hpow
  refine bind_eq_ok.mpr ⟨(), require_eq_ok.mpr rfl, bind_eq_ok.mpr ⟨(), hfresh, ?_⟩⟩
  refine bind_eq_ok.mpr ⟨_, hbinding, bind_eq_ok.mpr ⟨(), ?_, ?_⟩⟩
  · exact bind_eq_ok.mpr ⟨_, hto, hwork⟩
  · exact bind_eq_ok.mpr ⟨_, hfrom, hsign⟩

theorem decode_lower : Hex.decode lowerRequest.fromUserId = some requesterId := by
  decide +kernel

theorem decode_upper : Hex.decode upperRequest.fromUserId = some requesterId := by
  decide +kernel

theorem exists_requestJson : ∃ codec : Codec RequestToken,
    codec.toVec lowerRequest = requestText lowerRequest ∧
      codec.toVec upperRequest = requestText upperRequest := by
  let table := [(lowerRequest, requestText lowerRequest), (upperRequest, requestText upperRequest)]
  have hkeys : (table.map Prod.fst).Nodup := by decide
  have hvalues : (table.map Prod.snd).Nodup := by decide
  have hzero : ∀ row ∈ table, row.2.head? ≠ some 0 := by decide
  obtain ⟨codec, hcodec⟩ := Codec.exists_of_table hkeys hvalues hzero
  refine ⟨codec, hcodec _ (.head _), hcodec _ (.tail _ (.head _))⟩

/-- The JSON of requests, with the texts of the two samples. -/
noncomputable def sampleRequestJson : Codec RequestToken := exists_requestJson.choose

/-- The payload of a sample. -/
def requestPayload (request : RequestToken) : String := Base64.encode (requestText request)

theorem accepts_lower : acceptRequestPayloadWithPolicy sampleRequestCrypto sampleRequestJson
    requestReceiver (requestPayload lowerRequest) {} requestTime =
      .ok (lowerRequest, sampleGrantToken) := by
  rw [requestPayload, ← exists_requestJson.choose_spec.1]
  exact accept_eq_ok.mpr ⟨parse_encode _, accepts_sampleRequest decode_lower⟩

theorem accepts_upper : acceptRequestPayloadWithPolicy sampleRequestCrypto sampleRequestJson
    requestReceiver (requestPayload upperRequest) {} requestTime =
      .ok (upperRequest, sampleGrantToken) := by
  rw [requestPayload, ← exists_requestJson.choose_spec.2]
  exact accept_eq_ok.mpr ⟨parse_encode _, accepts_sampleRequest decode_upper⟩

/-- Two spellings of one request, accepted with the same proof of work. -/
theorem accepted_work_bound_sample :
    acceptRequestPayloadWithPolicy sampleRequestCrypto sampleRequestJson requestReceiver
      (requestPayload lowerRequest) {} requestTime = .ok (lowerRequest, sampleGrantToken) ∧
      Strong .minimum .minimum ∧ SameBinding lowerRequest upperRequest := by
  obtain ⟨-, hbound⟩ := accepted_work_bound accepts_lower
  obtain ⟨hstrong, hsame⟩ := hbound _ rfl
  exact ⟨accepts_lower, hstrong, hsame _ _ _ _ _ accepts_upper _ rfl rfl⟩

end Sample
end Spex
