import Spex.RequestReplay
import Spex.SignedGrants

/-!
# From a request to a grant

The sender binds a proof of work to the fields of its request, checks it as the
receiver will, and records the request. The receiver answers each copy of it that
reaches it. Copies may come in any number and order, among any other requests, and
under a policy and a clock of their own.
-/
namespace Spex
open Fallible Transcript Cbor

/-- What `generate_pow_nonce` returns with the default length. -/
abbrev PowNonce := { nonce : Bytes // nonce.length = nonceLen }

def buildPuzzleInput (nonce payload : Bytes) : Bytes := nonce ++ payload

structure RequestState where
  tokenBase64 : String
  toUserId : String
  role : UInt64
  createdAt : UInt64
  puzzle : Option PuzzleToken
  deriving DecidableEq, Repr

/-- The state of a client that also keeps the requests it has made. -/
structure RequestingState extends LocalState where
  requests : List RequestState := []

structure RequestCreationOutcome where
  request : RequestToken
  tokenBase64 : String
  deriving DecidableEq, Repr

section Creation
variable (crypto : RequestCrypto) (requestJson : Codec RequestToken)

def buildRequestPuzzleWithBinding (recipientKey requestBinding : Bytes) (nonce : PowNonce) :
    ClientResult PuzzleToken := do
  let params := PowParams.minimum
  let puzzleInput := buildPuzzleInput nonce requestBinding
  let puzzleOutput ← (generatePuzzleOutput crypto recipientKey puzzleInput params).mapError
    fun err => .returned (.crypto err.message)
  return {
    recipientKey := Base64.encode recipientKey
    puzzleInput := Base64.encode puzzleInput
    puzzleOutput := Base64.encode puzzleOutput
    params := ⟨params.memoryKib, params.iterations, params.parallelism, params.outputLen⟩ }

/-- The nonce and the time are what the random generator and the clock give. -/
def createRequestPayload (identity : IdentityState) (toUserIdHex : String) (role : UInt64)
    (nonce : PowNonce) (createdAt : UInt64) : ClientResult (RequestToken × String) := do
  let recipientKey ← hexDecode toUserIdHex
  let requestBinding ← buildRequestPowBinding identity.userIdHex toUserIdHex role createdAt
  let puzzle ← buildRequestPuzzleWithBinding crypto recipientKey requestBinding nonce
  validateRequestPuzzleInternal crypto puzzle recipientKey .minimum (some requestBinding)
  let request : RequestToken := ⟨identity.userIdHex, toUserIdHex, role, createdAt, some puzzle⟩
  return (request, Base64.encode (requestJson.toVec request))

def createRequestForState (state : RequestingState) (toUserIdHex : String) (role : UInt64)
    (nonce : PowNonce) (createdAt : UInt64) :
    ClientResult RequestCreationOutcome × RequestingState :=
  match state.identity with
  | none => (.error (.returned .missingIdentity), state)
  | some identity =>
    match createRequestPayload crypto requestJson identity.toIdentityState toUserIdHex role nonce
        createdAt with
    | .error fault => (.error fault, state)
    | .ok (request, token) =>
      (.ok ⟨request, token⟩, { state with
        requests := state.requests ++
          [⟨token, toUserIdHex, role, request.createdAt, request.puzzle⟩] })

end Creation

/-- The work that the sender has done, with the checks that the receiver repeats. -/
structure Worked (crypto : RequestCrypto) (request : RequestToken) (userId recipientKey : Bytes) :
    Prop where
  sender : Hex.decode request.fromUserId = some userId
  senderLength : userId.length = 32
  receiver : Hex.decode request.toUserId = some recipientKey
  puzzle : ∃ binding puzzle puzzleInput puzzleOutput,
    buildRequestPowBinding request.fromUserId request.toUserId request.role
      request.createdAt = .ok binding ∧
    request.puzzle = some puzzle ∧ puzzle.params = .minimum ∧
    puzzleField puzzle.recipientKey = .ok recipientKey ∧
    puzzleField puzzle.puzzleInput = .ok puzzleInput ∧
    puzzleField puzzle.puzzleOutput = .ok puzzleOutput ∧
    validateBinding puzzleInput (some binding) = .ok () ∧
    verifyPuzzleOutput crypto recipientKey puzzleInput puzzleOutput .minimum = .ok true

/-- The time of a call is in the window of its policy, in exact arithmetic. -/
def RequestCall.Timely (call : RequestCall) (request : RequestToken) : Prop :=
  call.now.toNat ≤ request.createdAt.toNat + call.policy.maxAgeSeconds.toNat ∧
    request.createdAt.toNat ≤ call.now.toNat + call.policy.maxFutureSkewSeconds.toNat

/-- A policy asks for no more than the work of the default parameters. -/
def RequestPowPolicy.Payable (policy : RequestPowPolicy) : Prop :=
  policy.minimumParams.memoryKib ≤ PowParams.minimum.memoryKib ∧
    policy.minimumParams.iterations ≤ PowParams.minimum.iterations ∧
    policy.minimumParams.parallelism ≤ PowParams.minimum.parallelism ∧
    policy.minimumParams.outputLen ≤ PowParams.minimum.outputLen

instance (call : RequestCall) (request : RequestToken) : Decidable (call.Timely request) :=
  inferInstanceAs (Decidable (_ ∧ _))

instance (policy : RequestPowPolicy) : Decidable policy.Payable :=
  inferInstanceAs (Decidable (_ ∧ _))

/-- Why a receiver refuses an honest request, replays apart. -/
def RequestCall.refusal (call : RequestCall) (identity : IdentityState) (request : RequestToken) :
    Option ClientError :=
  if request.toUserId ≠ identity.userIdHex then some .requestTargetMismatch
  else if ¬ call.Timely request then some .requestStale
  else if ¬ call.policy.Payable then some .invalidPuzzle
  else none

/-- The payload of a call is a text of the request. -/
def RequestCall.Carries (requestJson : Codec RequestToken) (call : RequestCall)
    (request : RequestToken) : Prop :=
  parseRequestToken requestJson call.payload = .ok request

/-- A call has granted the request. -/
def grantsRequest (request : RequestToken) (turn : RequestTurn) : Bool :=
  match turn.outcome with
  | .ok outcome => outcome.request = request
  | .error _ => false

section Work
variable {crypto : RequestCrypto} {requestJson : Codec RequestToken} {identity : IdentityState}
  {request : RequestToken} {userId recipientKey puzzleOutput : Bytes} {call : RequestCall}
  {toUserIdHex : String}

theorem validatePowPuzzle_minimum {puzzleInput : Bytes} {minimum : PowParams} :
    validatePowPuzzle crypto recipientKey puzzleInput puzzleOutput .minimum minimum = .ok () ↔
      (minimum.memoryKib ≤ PowParams.minimum.memoryKib ∧
        minimum.iterations ≤ PowParams.minimum.iterations ∧
        minimum.parallelism ≤ PowParams.minimum.parallelism ∧
        minimum.outputLen ≤ PowParams.minimum.outputLen) ∧
      verifyPuzzleOutput crypto recipientKey puzzleInput puzzleOutput .minimum = .ok true := by
  rw [validatePowPuzzle]
  split_ifs with hweak
  · simp only [false_iff, not_and]
    intro hpayable
    simp only [← UInt32.not_le, ← UInt64.not_le] at hweak
    tauto
  · simp only [not_or, UInt32.not_lt, UInt64.not_lt] at hweak
    rw [bind_eq_ok]
    constructor
    · rintro ⟨valid, hvalid, h⟩
      split_ifs at h with htrue
      subst htrue
      exact ⟨hweak, mapError_eq_ok.mp hvalid⟩
    · rintro ⟨-, hvalid⟩
      exact ⟨true, mapError_eq_ok.mpr hvalid, rfl⟩

/-- What a sender has made is written so that the receiver reads it, and its work
holds. -/
theorem createRequestPayload_ok {token : String} {role createdAt : UInt64} {nonce : PowNonce}
    (h : createRequestPayload crypto requestJson identity toUserIdHex role nonce
      createdAt = .ok (request, token)) :
    request.fromUserId = identity.userIdHex ∧ request.toUserId = toUserIdHex ∧
      request.role = role ∧ request.createdAt = createdAt ∧
      token = Base64.encode (requestJson.toVec request) ∧
      ∃ userId recipientKey, Worked crypto request userId recipientKey := by
  obtain ⟨recipientKey, hrecipient, h⟩ := bind_eq_ok.mp h
  obtain ⟨binding, hbinding, h⟩ := bind_eq_ok.mp h
  obtain ⟨puzzle, hpuzzle, h⟩ := bind_eq_ok.mp h
  obtain ⟨_, hvalid, h⟩ := bind_eq_ok.mp h
  obtain ⟨rfl, rfl⟩ := Prod.mk.inj (pure_eq_ok.mp h)
  obtain ⟨puzzleOutput, -, hpuzzle⟩ := bind_eq_ok.mp hpuzzle
  have hparams : puzzle.params = .minimum := by rw [← pure_eq_ok.mp hpuzzle]; rfl
  obtain ⟨recipientBytes, hkey, hvalid⟩ := bind_eq_ok.mp hvalid
  obtain ⟨_, hsame, hvalid⟩ := bind_eq_ok.mp hvalid
  obtain ⟨puzzleInput, hinput, hvalid⟩ := bind_eq_ok.mp hvalid
  obtain ⟨output, houtput, hvalid⟩ := bind_eq_ok.mp hvalid
  obtain ⟨_, hbound, hvalid⟩ := bind_eq_ok.mp hvalid
  obtain rfl := require_eq_ok.mp hsame
  rw [hparams] at hvalid
  obtain ⟨userId, toUserId, hfrom, -, hlength, -, -⟩ := buildRequestPowBinding_ok hbinding
  exact ⟨rfl, rfl, rfl, rfl, rfl, userId, recipientBytes, hfrom, hlength,
    hexDecode_eq_ok.mp hrecipient, binding, puzzle, puzzleInput, output, hbinding, rfl, hparams,
    hkey, hinput, houtput, hbound, (validatePowPuzzle_minimum.mp (mapError_eq_ok.mp hvalid)).2⟩

/-- A sender with ids of 32 bytes can make a request if Argon2id gives 32 bytes. -/
theorem createRequestPayload_of_ids {role createdAt : UInt64} {nonce : PowNonce}
    (hfrom : Hex.decode identity.userIdHex = some userId) (hfromLength : userId.length = 32)
    (hto : Hex.decode toUserIdHex = some recipientKey) (htoLength : recipientKey.length = 32)
    (hwork : generatePuzzleOutput crypto recipientKey (nonce.val ++
      (requestPowContext ++ userId ++ recipientKey ++ u64Be role ++ u64Be createdAt)) .minimum =
        .ok puzzleOutput) (houtput : puzzleOutput.length = 32) :
    ∃ request, createRequestPayload crypto requestJson identity toUserIdHex role nonce createdAt =
      .ok (request, Base64.encode (requestJson.toVec request)) := by
  have hbinding : buildRequestPowBinding identity.userIdHex toUserIdHex role createdAt =
      .ok (requestPowContext ++ userId ++ recipientKey ++ u64Be role ++ u64Be createdAt) := by
    rw [buildRequestPowBinding, hexDecode_eq_ok.mpr hfrom, hexDecode_eq_ok.mpr hto]
    simp [require, hfromLength, htoLength, pure, Except.pure]
  refine ⟨_, bind_eq_ok.mpr ⟨recipientKey, hexDecode_eq_ok.mpr hto, bind_eq_ok.mpr
    ⟨_, hbinding, bind_eq_ok.mpr ⟨_, bind_eq_ok.mpr ⟨puzzleOutput, ?_, rfl⟩, bind_eq_ok.mpr
      ⟨(), ?_, rfl⟩⟩⟩⟩⟩
  · rw [buildPuzzleInput, hwork]
    rfl
  · refine validateRequestPuzzleInternal_encode nonce.2 (validatePowPuzzle_minimum.mpr ⟨?_, ?_⟩)
    · decide
    · rw [verifyPuzzleOutput, if_neg (by decide), if_neg (by rw [houtput]; decide), hwork]
      simp [Except.map]

theorem freshness_eq : validateRequestFreshness request call.policy call.now =
    if call.Timely request then .ok () else .error (.returned .requestStale) := by
  by_cases htimely : call.Timely request
  · rw [if_pos htimely, validateRequestFreshness, if_neg]
    obtain ⟨hold, hskew⟩ := htimely
    have hlt := request.createdAt.toNat_lt
    simp only [gt_iff_lt, not_or, UInt64.not_lt, UInt64.le_iff_toNat_le, Saturating.toNat_add,
      Saturating.toNat_sub]
    omega
  · rw [if_neg htimely]
    cases h : validateRequestFreshness request call.policy call.now with
    | ok u => exact absurd (window_of_fresh h) htimely
    | error fault =>
      rw [validateRequestFreshness] at h
      split_ifs at h
      exact h.symm

/-- The receiver repeats the checks of the sender under its own policy. -/
theorem Worked.validate (hworked : Worked crypto request userId recipientKey) (call : RequestCall)
    (htarget : request.toUserId = identity.userIdHex) :
    ∃ binding, buildRequestPowBinding request.fromUserId request.toUserId request.role
      request.createdAt = .ok binding ∧
      validateRequestWork crypto identity call.policy binding request.puzzle =
        if call.policy.Payable then .ok () else .error (.returned .invalidPuzzle) := by
  obtain ⟨binding, puzzle, puzzleInput, puzzleOutput, hbinding, hpuzzle, hparams, hkey, hinput,
    houtput, hbound, hverify⟩ := hworked.puzzle
  refine ⟨binding, hbinding, ?_⟩
  have hrecipient : hexDecode identity.userIdHex = .ok recipientKey :=
    hexDecode_eq_ok.mpr (htarget ▸ hworked.receiver)
  rw [hpuzzle, validateRequestWork, hrecipient, ok_bind, validateRequestPuzzleInternal, hkey,
    hinput, houtput, hparams]
  simp only [ok_bind, hbound, require]
  by_cases hpayable : call.policy.Payable
  · have hvalid : validatePowPuzzle crypto recipientKey puzzleInput puzzleOutput
        PowParamsPayload.minimum.toCore call.policy.minimumParams.toCore = .ok () :=
      validatePowPuzzle_minimum.mpr ⟨hpayable, hverify⟩
    rw [if_pos hpayable]
    exact mapError_eq_ok.mpr hvalid
  · have hweak : validatePowPuzzle crypto recipientKey puzzleInput puzzleOutput
        PowParamsPayload.minimum.toCore call.policy.minimumParams.toCore = .error .powTooWeak := by
      rw [validatePowPuzzle, if_pos]
      by_contra hstrong
      simp only [not_or, UInt32.not_lt, UInt64.not_lt] at hstrong
      exact hpayable hstrong
    rw [if_neg hpayable, hweak]
    rfl

end Work

section Answers
variable {crypto : Bridge.BridgeCrypto} {requestJson : Codec RequestToken}
  {grantJson : SignedGrantToken → Bytes} {identity : IdentityState} {request : RequestToken}
  {userId recipientKey signingKey : Bytes} {signed : SignedGrantToken} {call : RequestCall}
  {state : LocalState} {calls : List RequestCall} {turn : RequestTurn} {receiver : LocalIdentity}

/-- The grant that answers a request. -/
def grantFor (userId : Bytes) (role : UInt64) : GrantToken := ⟨userId, role, none, none, ∅⟩

theorem accept_of_carries (hworked : Worked crypto.toRequestCrypto request userId recipientKey)
    (hsigned : signGrant crypto.toRequestCrypto identity (grantFor userId request.role) =
      .ok signed) (hcarries : call.Carries requestJson request) :
    acceptRequestPayloadWithPolicy crypto.toRequestCrypto requestJson identity call.payload
      call.policy call.now = (call.refusal identity request).elim (.ok (request, signed))
        fun error => .error (.returned error) := by
  rw [acceptRequestPayloadWithPolicy, hcarries, ok_bind, acceptRequestToken, RequestCall.refusal]
  by_cases htarget : request.toUserId = identity.userIdHex
  · obtain ⟨binding, hbinding, hwork⟩ := hworked.validate call htarget
    rw [if_neg (not_not.mpr htarget), require, if_pos htarget, ok_bind, freshness_eq]
    by_cases htimely : call.Timely request
    · rw [if_pos htimely, if_neg (not_not.mpr htimely), ok_bind, hbinding, ok_bind, hwork]
      by_cases hpayable : call.policy.Payable
      · rw [if_pos hpayable, if_neg (not_not.mpr hpayable), ok_bind,
          hexDecode_eq_ok.mpr hworked.sender, ok_bind, show signGrant crypto.toRequestCrypto
            identity ⟨userId, request.role, none, none, ∅⟩ = .ok signed from hsigned]
        rfl
      · rw [if_neg hpayable, if_pos hpayable]
        rfl
    · rw [if_neg htimely, if_pos htimely]
      rfl
  · rw [if_pos htarget, require, if_neg htarget]
    rfl

/-- What the receiver answers to a text of an honest request. -/
def answerTo (crypto : RequestCrypto) (requestJson : Codec RequestToken)
    (grantJson : SignedGrantToken → Bytes) (identity : IdentityState) (request : RequestToken)
    (signed : SignedGrantToken) (state : LocalState) (call : RequestCall) :
    ClientResult GrantAcceptanceOutcome :=
  match call.refusal identity request with
  | some error => .error (.returned error)
  | none =>
    if requestReplayId crypto requestJson request ∈ state.acceptedRequestIds then
      .error (.returned .requestReplay)
    else .ok ⟨request, Base64.encode (grantJson signed)⟩

theorem grantsRequest_iff : grantsRequest request turn = true ↔
    ∃ outcome, turn.outcome = .ok outcome ∧ outcome.request = request := by
  rw [grantsRequest]
  cases turn.outcome <;> simp

theorem grants_le_one (request : RequestToken) :
    (requestRun crypto.toRequestCrypto requestJson grantJson state calls).countP
      (grantsRequest request) ≤ 1 := by
  apply countP_le_one fun current : LocalState =>
    requestReplayId crypto.toRequestCrypto requestJson request ∈ current.acceptedRequestIds
  · intro turn hturn hbefore
    exact (kept_of_turn hturn).acceptedRequestIds hbefore
  · intro turn hturn hbefore
    by_contra hgrants
    obtain ⟨outcome, hok, rfl⟩ := grantsRequest_iff.mp (Bool.eq_true_of_not_eq_false hgrants)
    exact (turn_ok hturn hok).2.1 hbefore
  · intro turn hturn hgrants
    obtain ⟨outcome, hok, rfl⟩ := grantsRequest_iff.mp hgrants
    rw [(turn_ok hturn hok).2.2]
    exact List.mem_append_right _ (List.mem_singleton_self _)

section Signed
variable (hidentity : state.identity = some receiver)
  (hworked : Worked crypto.toRequestCrypto request userId recipientKey)
  (hsigned : signGrant crypto.toRequestCrypto receiver.toIdentityState
    (grantFor userId request.role) = .ok signed)
include hidentity hworked hsigned

theorem outcome_of_carries
    (hturn : turn ∈ requestRun crypto.toRequestCrypto requestJson grantJson state calls)
    (hcarries : turn.input.Carries requestJson request) :
    turn.outcome = answerTo crypto.toRequestCrypto requestJson grantJson receiver.toIdentityState
      request signed turn.before turn.input := by
  have hbefore : turn.before.identity = some receiver :=
    (kept_before hturn).identity.trans hidentity
  rw [outcome_eq hturn, acceptRequestForStateWithPolicy, hbefore]
  dsimp only
  rw [accept_of_carries hworked hsigned hcarries, answerTo]
  cases turn.input.refusal receiver.toIdentityState request with
  | some error => rfl
  | none =>
    dsimp only [Option.elim_none]
    split_ifs <;> rfl

/-- A call grants the request exactly if it carries it, does not refuse it and does
not remember it. -/
theorem grantsRequest_turn_iff
    (hturn : turn ∈ requestRun crypto.toRequestCrypto requestJson grantJson state calls) :
    grantsRequest request turn = true ↔ turn.input.Carries requestJson request ∧
      turn.input.refusal receiver.toIdentityState request = none ∧
      requestReplayId crypto.toRequestCrypto requestJson request ∉
        turn.before.acceptedRequestIds := by
  constructor
  · intro hgrants
    obtain ⟨outcome, hok, rfl⟩ := grantsRequest_iff.mp hgrants
    obtain ⟨⟨_, -, _, hpasses⟩, hnew, -⟩ := turn_ok hturn hok
    have hcarries : turn.input.Carries requestJson outcome.request := (accept_eq_ok.mp hpasses).1
    have hanswer := outcome_of_carries hidentity hworked hsigned hturn hcarries
    refine ⟨hcarries, ?_, hnew⟩
    cases hrefusal : turn.input.refusal receiver.toIdentityState outcome.request with
    | none => rfl
    | some error => simp [hok, answerTo, hrefusal] at hanswer
  · rintro ⟨hcarries, hrefusal, hnew⟩
    have hanswer := outcome_of_carries hidentity hworked hsigned hturn hcarries
    rw [answerTo, hrefusal] at hanswer
    dsimp only at hanswer
    rw [if_neg hnew] at hanswer
    exact grantsRequest_iff.mpr ⟨_, hanswer, rfl⟩

/-- If nothing else has the replay id of the request, a run grants it exactly if some
call carries it and does not refuse it. -/
theorem granted_iff
    (hunique : ∀ other, requestReplayId crypto.toRequestCrypto requestJson other =
      requestReplayId crypto.toRequestCrypto requestJson request → other = request)
    (hnew : requestReplayId crypto.toRequestCrypto requestJson request ∉
      state.acceptedRequestIds) :
    0 < (requestRun crypto.toRequestCrypto requestJson grantJson state calls).countP
        (grantsRequest request) ↔
      ∃ call ∈ calls, call.Carries requestJson request ∧
        call.refusal receiver.toIdentityState request = none := by
  rw [List.countP_pos_iff]
  constructor
  · rintro ⟨turn, hturn, hgrants⟩
    obtain ⟨hcarries, hrefusal, -⟩ :=
      (grantsRequest_turn_iff hidentity hworked hsigned hturn).mp hgrants
    exact ⟨turn.input, input_mem hturn, hcarries, hrefusal⟩
  · rintro ⟨call, hcall, hcarries, hrefusal⟩
    have hinputs : (requestRun crypto.toRequestCrypto requestJson grantJson state calls).map
        Turn.input = calls := map_input state calls
    rw [← hinputs] at hcall
    obtain ⟨turn, hturn, rfl⟩ := List.mem_map.mp hcall
    by_cases hold : requestReplayId crypto.toRequestCrypto requestJson request ∈
        turn.before.acceptedRequestIds
    · rcases remembered hturn hold with hstart | ⟨earlier, hearlier, outcome, hok, hid⟩
      · exact absurd hstart hnew
      · exact ⟨earlier, hearlier, grantsRequest_iff.mpr ⟨outcome, hok, hunique _ hid.symm⟩⟩
    · exact ⟨turn, hturn, (grantsRequest_turn_iff hidentity hworked hsigned hturn).mpr
        ⟨hcarries, hrefusal, hold⟩⟩

end Signed

end Answers

section Handshake
variable {crypto : Bridge.BridgeCrypto} {requestJson : Codec RequestToken}
  {toUserIdHex : String} {role createdAt : UInt64} {nonce : PowNonce}
  {sender sender' : RequestingState} {created : RequestCreationOutcome}

theorem createRequestForState_ok {crypto : RequestCrypto}
    (h : createRequestForState crypto requestJson sender toUserIdHex role nonce createdAt =
      (.ok created, sender')) :
    ∃ identity, sender.identity = some identity ∧
      createRequestPayload crypto requestJson identity.toIdentityState toUserIdHex role nonce
        createdAt = .ok (created.request, created.tokenBase64) ∧
      sender' = { sender with requests := sender.requests ++ [⟨created.tokenBase64, toUserIdHex,
        role, created.request.createdAt, created.request.puzzle⟩] } := by
  rw [createRequestForState] at h
  cases hidentity : sender.identity with
  | none => simp [hidentity] at h
  | some identity =>
    simp only [hidentity] at h
    cases hcreate : createRequestPayload crypto requestJson identity.toIdentityState toUserIdHex
        role nonce createdAt with
    | error fault => simp [hcreate] at h
    | ok result =>
      obtain ⟨request, token⟩ := result
      rw [hcreate] at h
      obtain ⟨hcreated, hafter⟩ := Prod.mk.inj h
      obtain rfl := Except.ok.inj hcreated
      exact ⟨identity, rfl, hcreate, hafter.symm⟩

theorem createRequestForState_of {crypto : RequestCrypto} {identity : LocalIdentity}
    {request : RequestToken} {token : String} (hidentity : sender.identity = some identity)
    (h : createRequestPayload crypto requestJson identity.toIdentityState toUserIdHex role nonce
      createdAt = .ok (request, token)) :
    createRequestForState crypto requestJson sender toUserIdHex role nonce createdAt =
      (.ok ⟨request, token⟩, { sender with requests := sender.requests ++
        [⟨token, toUserIdHex, role, request.createdAt, request.puzzle⟩] }) := by
  simp only [createRequestForState, hidentity, h]

/-- A request that a sender has created and recorded is answered by every receiver
with a signing key, at every call of every run, by a refusal that its target, its time
and the policy alone decide, or as a replay, or by one and the same grant, which
validates at any time as a grant for the sender. The run grants it at most once, and
does so if and only if some call carries it and does not refuse it. -/
theorem created_request_granted_once (grantJson : SignedGrantToken → Bytes)
    (receiver : LocalState) (hscheme : crypto.SignsCorrectly)
    (hcreated : createRequestForState crypto.toRequestCrypto requestJson sender toUserIdHex role
      nonce createdAt = (.ok created, sender')) {identity : LocalIdentity}
    (hidentity : receiver.identity = some identity) {signingKey : Bytes}
    (hkey : signingKeyFromHex identity.signingKeyHex = .ok signingKey)
    (hunique : ∀ other, requestReplayId crypto.toRequestCrypto requestJson other =
      requestReplayId crypto.toRequestCrypto requestJson created.request →
      other = created.request)
    (hnew : requestReplayId crypto.toRequestCrypto requestJson created.request ∉
      receiver.acceptedRequestIds) (calls : List RequestCall) :
    parseRequestToken requestJson created.tokenBase64 = .ok created.request ∧
    sender'.requests.map RequestState.tokenBase64 =
      sender.requests.map RequestState.tokenBase64 ++ [created.tokenBase64] ∧
    (∃ self ∈ sender.identity, ∃ userId signed, Hex.decode self.userIdHex = some userId ∧
      (∀ now, validateSignedGrant crypto signed now = .ok (grantFor userId role)) ∧
      ∀ turn ∈ requestRun crypto.toRequestCrypto requestJson grantJson receiver calls,
        turn.input.Carries requestJson created.request →
        turn.outcome = answerTo crypto.toRequestCrypto requestJson grantJson
          identity.toIdentityState created.request signed turn.before turn.input) ∧
    (requestRun crypto.toRequestCrypto requestJson grantJson receiver calls).countP
      (grantsRequest created.request) ≤ 1 ∧
    (0 < (requestRun crypto.toRequestCrypto requestJson grantJson receiver calls).countP
        (grantsRequest created.request) ↔
      ∃ call ∈ calls, call.Carries requestJson created.request ∧
        call.refusal identity.toIdentityState created.request = none) := by
  obtain ⟨self, hself, hcreate, rfl⟩ := createRequestForState_ok hcreated
  obtain ⟨hfrom, -, hrole, -, htoken, userId, recipientKey, hworked⟩ :=
    createRequestPayload_ok hcreate
  have hlength : (grantFor userId created.request.role).userId.length < 2 ^ 64 := by
    rw [grantFor, hworked.senderLength]
    decide
  have hhonoured (now : UInt64) : Honoured crypto identity.toIdentityState
      (grantFor userId created.request.role) now := honoured_of_named hscheme hkey hlength rfl
  obtain ⟨signed, hsigned, -⟩ := hhonoured 0
  have hvalid (now : UInt64) : validateSignedGrant crypto signed now =
      .ok (grantFor userId role) := by
    obtain ⟨other, hother, h⟩ := hhonoured now
    rw [hsigned] at hother
    rw [Except.ok.inj hother, h, hrole]
    rfl
  refine ⟨htoken ▸ parse_encode _, by simp, ⟨self, hself, userId, signed, hfrom ▸ hworked.sender,
    hvalid, ?_⟩, grants_le_one _, granted_iff hidentity hworked hsigned hunique hnew⟩
  intro turn hturn hcarries
  exact outcome_of_carries hidentity hworked hsigned hturn hcarries

def requestMaker : IdentityState :=
  ⟨Hex.encode requesterId, Hex.encode (List.replicate 32 9)⟩

def requestSender : RequestingState where
  identity := some ⟨requestMaker, Hex.encode (List.replicate 32 9)⟩

def requestTaker : LocalState where
  identity := some ⟨requestReceiver, Hex.encode (List.replicate 32 7)⟩

def requestNonce : PowNonce := ⟨List.replicate 32 0x33, rfl⟩

theorem decode_maker : Hex.decode requestMaker.userIdHex = some requesterId := by
  dsimp only [requestMaker]
  rw [Hex.decode_encode]

theorem decode_taker : Hex.decode requestReceiver.userIdHex = some recipientId := by
  dsimp only [requestReceiver]
  rw [Hex.decode_encode]

theorem requestSender_creates : ∃ created sender', createRequestForState
    sampleRequestCrypto sampleRequestJson requestSender requestReceiver.userIdHex 1
      requestNonce requestTime = (.ok created, sender') := by
  have hwork : generatePuzzleOutput sampleRequestCrypto recipientId
      requestPuzzleInput .minimum = .ok requestPuzzleOutput := by
    decide +kernel
  have hcreate : ∃ request, createRequestPayload sampleRequestCrypto sampleRequestJson
      requestMaker requestReceiver.userIdHex 1 requestNonce requestTime =
        .ok (request, Base64.encode (sampleRequestJson.toVec request)) :=
    createRequestPayload_of_ids decode_maker List.length_replicate decode_taker
      List.length_replicate hwork (by decide)
  obtain ⟨request, hrequest⟩ := hcreate
  exact ⟨_, _, createRequestForState_of rfl hrequest⟩

/-- The receiver gets a request twice and grants it once. -/
theorem duplicated_request_granted_once : ∃ created sender',
    createRequestForState sampleRequestCrypto sampleRequestJson requestSender
      requestReceiver.userIdHex 1 requestNonce requestTime = (.ok created, sender') ∧
    (requestRun sampleRequestCrypto sampleRequestJson grantText requestTaker
      [⟨created.tokenBase64, {}, requestTime + 1, requestTime + 1⟩,
        ⟨created.tokenBase64, {}, requestTime + 2, requestTime + 2⟩]).countP
          (grantsRequest created.request) = 1 := by
  obtain ⟨created, sender', hcreated⟩ := requestSender_creates
  have hinj : Function.Injective sampleRequestCrypto.sha256 :=
    sampleRequestCrypto_injective
  obtain ⟨hparse, -, -, hle, hpos⟩ := created_request_granted_once grantText
    requestTaker signsCorrectly_sampleBridgeCrypto hcreated rfl signingKey_requestReceiver
    (fun _ h => requestReplayId_injective hinj h) List.not_mem_nil
    [⟨created.tokenBase64, {}, requestTime + 1, requestTime + 1⟩,
      ⟨created.tokenBase64, {}, requestTime + 2, requestTime + 2⟩]
  refine ⟨created, sender', hcreated, le_antisymm hle (hpos.mpr ⟨_, .head _, hparse, ?_⟩)⟩
  obtain ⟨_, -, hpayload, -⟩ := createRequestForState_ok hcreated
  obtain ⟨-, hto, -, htime, -⟩ := createRequestPayload_ok hpayload
  have htimely : RequestCall.Timely ⟨created.tokenBase64, {}, requestTime + 1, requestTime + 1⟩
      created.request := by
    rw [RequestCall.Timely, htime]
    dsimp only
    decide
  have hpayable : RequestPowPolicy.Payable {} := by decide
  rw [RequestCall.refusal, if_neg (not_not.mpr hto), if_neg (not_not.mpr htimely),
    if_neg (not_not.mpr hpayable)]

end Handshake
end Spex
