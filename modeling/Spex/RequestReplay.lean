import Spex.ClientState
import Spex.Transcript

/-!
# Accepting requests once

The client remembers the requests it has accepted by a hash of their JSON text
and refuses one that it remembers. The text keeps the spelling of the sender's
id, while everything else looks at the decoded bytes, so a request is granted
once for every spelling.
-/
namespace Spex
open Fallible Transcript Cbor

structure RequestCall where
  payload : String
  policy : RequestPowPolicy
  now : UInt64
  clock : UInt64

abbrev RequestTurn := Turn LocalState RequestCall (ClientResult GrantAcceptanceOutcome)

section Machine
variable (crypto : RequestCrypto) (requestJson : Codec RequestToken)
  (grantJson : SignedGrantToken → Bytes)

def requestReplayId (request : RequestToken) : String :=
  Hex.encode (hashBytes crypto.sha256 .sha256 (requestJson.toVec request))

/-- The outcome and the state it leaves behind; `clock` is the second reading of
the clock, for the record of the grant. -/
def acceptRequestForStateWithPolicy (state : LocalState) (call : RequestCall) :
    ClientResult GrantAcceptanceOutcome × LocalState :=
  match state.identity with
  | none => (.error (.returned .missingIdentity), state)
  | some identity =>
    match acceptRequestPayloadWithPolicy crypto requestJson identity.toIdentityState call.payload
        call.policy call.now with
    | .error fault => (.error fault, state)
    | .ok (requestToken, signedGrant) =>
      let requestId := requestReplayId crypto requestJson requestToken
      if requestId ∈ state.acceptedRequestIds then (.error (.returned .requestReplay), state)
      else
        let grantToken := Base64.encode (grantJson signedGrant)
        (.ok ⟨requestToken, grantToken⟩, { state with
          grants := state.grants ++ [⟨grantToken, requestToken.fromUserId, requestToken.role,
            call.clock, some signedGrant.signature⟩]
          acceptedRequestIds := state.acceptedRequestIds ++ [requestId] })

/-- A run of calls on one state. -/
def requestRun (state : LocalState) (calls : List RequestCall) :
    List RequestTurn :=
  transcript (acceptRequestForStateWithPolicy crypto requestJson grantJson) state calls

end Machine

/-- A puzzle with its fields decoded. -/
def PuzzleToken.content (puzzle : PuzzleToken) :
    Option Bytes × Option Bytes × Option Bytes × PowParamsPayload :=
  (Base64.decode puzzle.recipientKey, Base64.decode puzzle.puzzleInput,
    Base64.decode puzzle.puzzleOutput, puzzle.params)

/-- Requests that decode to the same content. -/
structure SameContent (request request' : RequestToken) : Prop where
  binding : SameBinding request request'
  puzzle : request.puzzle.map PuzzleToken.content = request'.puzzle.map PuzzleToken.content

/-- Two calls do not both succeed on the same content. -/
def GrantsApart (turn turn' : RequestTurn) : Prop :=
  ∀ outcome outcome', turn.outcome = .ok outcome → turn'.outcome = .ok outcome' →
    ¬ SameContent outcome.request outcome'.request

/-- No two calls of a run succeed on the same content. -/
def GrantsOnce (turns : List RequestTurn) : Prop := turns.Pairwise GrantsApart

variable {crypto : RequestCrypto} {requestJson : Codec RequestToken}
  {grantJson : SignedGrantToken → Bytes} {state : LocalState} {calls : List RequestCall}

/-- The request of a call passes all checks but the one for a replay. -/
def RequestCall.Passes (crypto : RequestCrypto) (requestJson : Codec RequestToken)
    (identity : IdentityState) (call : RequestCall) (request : RequestToken) : Prop :=
  ∃ grant, acceptRequestPayloadWithPolicy crypto requestJson identity call.payload call.policy
    call.now = .ok (request, grant)

/-- Of two calls that pass with one content and two spellings of the sender's id,
one is of a request accepted before the run. -/
def NotRespelled (crypto : RequestCrypto) (requestJson : Codec RequestToken)
    (identity : IdentityState) (accepted : List String) (calls : List RequestCall) : Prop :=
  calls.Pairwise fun call call' => ∀ request request',
    call.Passes crypto requestJson identity request →
    call'.Passes crypto requestJson identity request' → SameContent request request' →
    request.fromUserId ≠ request'.fromUserId →
    requestReplayId crypto requestJson request ∈ accepted ∨
      requestReplayId crypto requestJson request' ∈ accepted

/-- Everything a call can do. -/
inductive AcceptCase (crypto : RequestCrypto) (requestJson : Codec RequestToken)
    (state : LocalState) (call : RequestCall) :
    ClientResult GrantAcceptanceOutcome × LocalState → Prop
  | refused (fault : Fault ClientError)
    (h : ∀ identity ∈ state.identity, ∀ request,
      call.Passes crypto requestJson identity.toIdentityState request →
      requestReplayId crypto requestJson request ∈ state.acceptedRequestIds) :
    AcceptCase crypto requestJson state call (.error fault, state)
  | accepted (identity : LocalIdentity) (hidentity : state.identity = some identity)
    (request : RequestToken)
    (hpasses : call.Passes crypto requestJson identity.toIdentityState request)
    (hnew : requestReplayId crypto requestJson request ∉ state.acceptedRequestIds)
    (token : String) (state' : LocalState) (hsame : state'.identity = state.identity)
    (hids : state'.acceptedRequestIds =
      state.acceptedRequestIds ++ [requestReplayId crypto requestJson request]) :
    AcceptCase crypto requestJson state call (.ok ⟨request, token⟩, state')

theorem accept_case (state : LocalState) (call : RequestCall) :
    AcceptCase crypto requestJson state call
      (acceptRequestForStateWithPolicy crypto requestJson grantJson state call) := by
  unfold acceptRequestForStateWithPolicy
  cases hidentity : state.identity with
  | none => exact .refused _ (by simp [hidentity])
  | some identity =>
    dsimp only
    cases haccept : acceptRequestPayloadWithPolicy crypto requestJson identity.toIdentityState
        call.payload call.policy call.now with
    | error fault =>
      refine .refused _ fun other hother request hpasses => ?_
      obtain rfl : identity = other := Option.some.inj (hidentity.symm.trans hother)
      obtain ⟨grant, hgrant⟩ := hpasses
      rw [haccept] at hgrant
      cases hgrant
    | ok result =>
      obtain ⟨request, grant⟩ := result
      dsimp only
      split_ifs with hold
      · refine .refused _ fun other hother request' hpasses => ?_
        obtain rfl : identity = other := Option.some.inj (hidentity.symm.trans hother)
        obtain ⟨grant', hgrant⟩ := hpasses
        rw [haccept] at hgrant
        obtain ⟨rfl, -⟩ := Prod.mk.inj (Except.ok.inj hgrant)
        exact hold
      · exact .accepted identity hidentity request ⟨grant, haccept⟩ hold _ _ hidentity.symm rfl

/-- What one call does to the state and to the record of accepted requests. -/
structure Kept (state state' : LocalState) : Prop where
  identity : state'.identity = state.identity
  acceptedRequestIds : state.acceptedRequestIds ⊆ state'.acceptedRequestIds

theorem Kept.refl (state : LocalState) : Kept state state := ⟨rfl, List.Subset.refl _⟩

theorem Kept.trans {a b c : LocalState} (hab : Kept a b) (hbc : Kept b c) : Kept a c :=
  ⟨hbc.identity.trans hab.identity,
    List.Subset.trans hab.acceptedRequestIds hbc.acceptedRequestIds⟩

section Calls
variable {turn : RequestTurn} {outcome : GrantAcceptanceOutcome}
  (hturn : turn ∈ requestRun crypto requestJson grantJson state calls)
include hturn

theorem turn_case :
    AcceptCase crypto requestJson turn.before turn.input (turn.outcome, turn.after) :=
  step_of_mem hturn ▸ accept_case turn.before turn.input

theorem kept_of_turn : Kept turn.before turn.after := by
  have hcase := turn_case hturn
  generalize turn.outcome = result, turn.after = after at hcase
  cases hcase with
  | refused fault h => exact .refl _
  | accepted identity hidentity request hpasses hnew token _ hsame hids =>
    exact ⟨hsame, hids ▸ List.subset_append_left _ _⟩

theorem kept_before : Kept state turn.before :=
  related_of_mem Kept.refl Kept.trans (fun _ => kept_of_turn) turn hturn

/-- A call that succeeds passes, is new, and is remembered. -/
theorem turn_ok (hok : turn.outcome = .ok outcome) :
    (∃ identity ∈ state.identity,
      turn.input.Passes crypto requestJson identity.toIdentityState outcome.request) ∧
    requestReplayId crypto requestJson outcome.request ∉ turn.before.acceptedRequestIds ∧
    turn.after.acceptedRequestIds = turn.before.acceptedRequestIds ++
      [requestReplayId crypto requestJson outcome.request] := by
  have hcase := turn_case hturn
  rw [hok] at hcase
  generalize turn.after = after at hcase ⊢
  cases hcase with
  | accepted identity hidentity request hpasses hnew token _ hsame hids =>
    have hstart := (kept_before hturn).identity
    exact ⟨⟨identity, hstart ▸ hidentity, hpasses⟩, hnew, hids⟩

/-- A call that passes succeeds unless its request is remembered. -/
theorem turn_passes {identity : LocalIdentity} (hidentity : state.identity = some identity)
    {request : RequestToken}
    (hpasses : turn.input.Passes crypto requestJson identity.toIdentityState request) :
    requestReplayId crypto requestJson request ∈ turn.before.acceptedRequestIds ∨
      ∃ outcome, turn.outcome = .ok outcome ∧ outcome.request = request := by
  have hbefore : turn.before.identity = some identity :=
    (kept_before hturn).identity.trans hidentity
  have hcase := turn_case hturn
  generalize turn.outcome = result, turn.after = after at hcase ⊢
  cases hcase with
  | refused fault h => exact .inl (h identity hbefore request hpasses)
  | accepted other hother request' hpasses' hnew token _ hsame hids =>
    obtain rfl : identity = other := Option.some.inj (hbefore.symm.trans hother)
    obtain ⟨grant, hgrant⟩ := hpasses
    obtain ⟨grant', hgrant'⟩ := hpasses'
    rw [hgrant] at hgrant'
    exact .inr ⟨_, rfl, (Prod.mk.inj (Except.ok.inj hgrant')).1.symm⟩

/-- What is remembered was remembered at the start or comes from a call that
succeeded. -/
theorem remembered {requestId : String} (hid : requestId ∈ turn.before.acceptedRequestIds) :
    requestId ∈ state.acceptedRequestIds ∨
      ∃ earlier ∈ requestRun crypto requestJson grantJson state calls, ∃ outcome,
        earlier.outcome = .ok outcome ∧
          requestId = requestReplayId crypto requestJson outcome.request := by
  refine (invariant (fun current => ∀ requestId ∈ current.acceptedRequestIds,
    requestId ∈ state.acceptedRequestIds ∨
      ∃ earlier ∈ requestRun crypto requestJson grantJson state calls, ∃ outcome,
        earlier.outcome = .ok outcome ∧
          requestId = requestReplayId crypto requestJson outcome.request)
    (fun _ => Or.inl) ?_).1 turn hturn requestId hid
  intro step hstep hbefore requestId hid
  have hcase := turn_case hstep
  cases hresult : step.outcome with
  | error fault =>
    rw [hresult] at hcase
    generalize hafter : step.after = after at hcase
    cases hcase
    exact hbefore requestId (hafter ▸ hid)
  | ok outcome =>
    rw [(turn_ok hstep hresult).2.2, List.mem_append, List.mem_singleton] at hid
    rcases hid with hid | rfl
    · exact hbefore requestId hid
    · exact .inr ⟨step, hstep, outcome, hresult, rfl⟩

end Calls

theorem kept_pairwise : (requestRun crypto requestJson grantJson state calls).Pairwise
    fun turn turn' => Kept turn.after turn'.before :=
  pairwise_related Kept.refl Kept.trans fun _ => kept_of_turn

theorem requestReplayId_injective (hinj : Function.Injective crypto.sha256) :
    Function.Injective (requestReplayId crypto requestJson) := by
  intro request request' h
  exact requestJson.toVec_injective (hinj (Hex.encode_injective h))

section Content
variable {request request' : RequestToken} {identity : IdentityState} {call call' : RequestCall}

theorem SameContent.symm (h : SameContent request request') : SameContent request' request :=
  ⟨⟨h.binding.fromUserId.symm, h.binding.toUserId.symm, h.binding.role.symm,
    h.binding.createdAt.symm⟩, h.puzzle.symm⟩

instance : Std.Symm GrantsApart where
  symm _ _ h outcome outcome' hok hok' hcontent := h outcome' outcome hok' hok hcontent.symm

theorem puzzle_eq_of_content {puzzle puzzle' : PuzzleToken} {recipientKey : Bytes}
    {minimum : PowParamsPayload} {binding : Option Bytes}
    (h : validateRequestPuzzleInternal crypto puzzle recipientKey minimum binding = .ok ())
    (hcontent : puzzle.content = puzzle'.content) : puzzle = puzzle' := by
  obtain ⟨recipientBytes, hrecipient, h⟩ := bind_eq_ok.mp h
  obtain ⟨_, -, h⟩ := bind_eq_ok.mp h
  obtain ⟨puzzleInput, hinput, h⟩ := bind_eq_ok.mp h
  obtain ⟨puzzleOutput, houtput, -⟩ := bind_eq_ok.mp h
  rw [puzzleField_eq_ok] at hrecipient hinput houtput
  simp only [PuzzleToken.content, Prod.mk.injEq] at hcontent
  obtain ⟨hrecipient', hinput', houtput', hparams⟩ := hcontent
  cases puzzle
  cases puzzle'
  congr 1
  · exact Base64.decode_inj hrecipient (hrecipient' ▸ hrecipient)
  · exact Base64.decode_inj hinput (hinput' ▸ hinput)
  · exact Base64.decode_inj houtput (houtput' ▸ houtput)

/-- Among the requests that pass, content and spelling of the sender's id
determine the request. -/
theorem eq_of_content (hpasses : call.Passes crypto requestJson identity request)
    (hpasses' : call'.Passes crypto requestJson identity request')
    (hcontent : SameContent request request') (hfrom : request.fromUserId = request'.fromUserId) :
    request = request' := by
  obtain ⟨grant, hgrant⟩ := hpasses
  obtain ⟨grant', hgrant'⟩ := hpasses'
  have hchecked := checked_of_accept (accept_eq_ok.mp hgrant).2
  have hchecked' := checked_of_accept (accept_eq_ok.mp hgrant').2
  have hto := hchecked.target.trans hchecked'.target.symm
  obtain ⟨binding, -, hwork⟩ := hchecked.work
  obtain ⟨⟨-, -, hrole, hcreated⟩, hpuzzle⟩ := hcontent
  have hsame : request.puzzle = request'.puzzle := by
    cases hone : request.puzzle with
    | none => rw [hone] at hpuzzle; exact (Option.map_eq_none_iff.mp hpuzzle.symm).symm
    | some puzzle =>
      rw [hone, Option.map_some] at hpuzzle
      obtain ⟨puzzle', htwo, hequal⟩ := Option.map_eq_some_iff.mp hpuzzle.symm
      obtain ⟨recipientKey, hvalid⟩ := hwork puzzle hone
      rw [htwo, puzzle_eq_of_content hvalid hequal.symm]
  cases request
  cases request'
  congr 1

end Content

/-- Every request that passes and was not accepted before the run is granted in
the run, by its own call or an earlier one. -/
theorem granted_of_passes (hinj : Function.Injective crypto.sha256) {identity : LocalIdentity}
    (hidentity : state.identity = some identity) {turn : RequestTurn}
    (hturn : turn ∈ requestRun crypto requestJson grantJson state calls) {request : RequestToken}
    (hpasses : turn.input.Passes crypto requestJson identity.toIdentityState request)
    (hnew : requestReplayId crypto requestJson request ∉ state.acceptedRequestIds) :
    ∃ granted ∈ requestRun crypto requestJson grantJson state calls, ∃ outcome,
      granted.outcome = .ok outcome ∧ outcome.request = request := by
  rcases turn_passes hturn hidentity hpasses with hold | hok
  · rcases remembered hturn hold with hstart | ⟨granted, hmem, outcome, hok, hid⟩
    · exact absurd hstart hnew
    · exact ⟨granted, hmem, outcome, hok, (requestReplayId_injective hinj hid).symm⟩
  · exact ⟨turn, hturn, hok⟩

theorem notRespelled_of_grantsOnce (hinj : Function.Injective crypto.sha256)
    (honce : GrantsOnce (requestRun crypto requestJson grantJson state calls))
    {identity : LocalIdentity} (hidentity : state.identity = some identity) :
    NotRespelled crypto requestJson identity.toIdentityState state.acceptedRequestIds calls := by
  refine pairwise_input.mp (?_ : (requestRun crypto requestJson grantJson state calls).Pairwise _)
  refine List.pairwise_of_forall_mem_list fun turn hturn turn' hturn' => ?_
  intro request request' hpasses hpasses' hcontent hfrom
  by_contra hnew
  rw [not_or] at hnew
  obtain ⟨granted, hmem, outcome, hok, rfl⟩ :=
    granted_of_passes hinj hidentity hturn hpasses hnew.1
  obtain ⟨granted', hmem', outcome', hok', rfl⟩ :=
    granted_of_passes hinj hidentity hturn' hpasses' hnew.2
  have hne : granted ≠ granted' := by
    rintro rfl
    exact hfrom (by rw [Except.ok.inj (hok.symm.trans hok')])
  exact honce.forall hmem hmem' hne outcome outcome' hok hok' hcontent

theorem grantsOnce_of_notRespelled (hspelled : ∀ identity ∈ state.identity, NotRespelled crypto
    requestJson identity.toIdentityState state.acceptedRequestIds calls) :
    GrantsOnce (requestRun crypto requestJson grantJson state calls) := by
  cases hidentity : state.identity with
  | none =>
    refine List.pairwise_of_forall_mem_list fun turn hturn turn' _ outcome _ hok _ _ => ?_
    obtain ⟨⟨identity, hsome, -⟩, -⟩ := turn_ok hturn hok
    simp [hidentity] at hsome
  | some identity =>
    refine ((pairwise_input.mpr (hspelled identity hidentity)).and kept_pairwise).imp_of_mem ?_
    rintro turn turn' hturn hturn' ⟨hcall, hkeep⟩ outcome outcome' hok hok' hcontent
    obtain ⟨⟨sender, hsender, hpasses⟩, hnew, hids⟩ := turn_ok hturn hok
    obtain ⟨⟨sender', hsender', hpasses'⟩, hnew', -⟩ := turn_ok hturn' hok'
    obtain rfl : sender = identity := Option.some.inj (hsender.symm.trans hidentity)
    obtain rfl : sender' = sender := Option.some.inj (hsender'.symm.trans hidentity)
    have hold : requestReplayId crypto requestJson outcome.request ∈
        turn'.before.acceptedRequestIds := hkeep.acceptedRequestIds (by simp [hids])
    by_cases hfrom : outcome.request.fromUserId = outcome'.request.fromUserId
    · rw [eq_of_content hpasses hpasses' hcontent hfrom] at hold
      exact hnew' hold
    · rcases hcall _ _ hpasses hpasses' hcontent hfrom with hstart | hstart
      · exact hnew ((kept_before hturn).acceptedRequestIds hstart)
      · exact hnew' ((kept_before hturn').acceptedRequestIds hstart)

/-- A run grants each content once exactly if no content is sent under two
spellings of the sender's id. -/
theorem grantsOnce_iff (hinj : Function.Injective crypto.sha256) (state : LocalState)
    (calls : List RequestCall) :
    GrantsOnce (requestRun crypto requestJson grantJson state calls) ↔
      ∀ identity ∈ state.identity, NotRespelled crypto requestJson identity.toIdentityState
        state.acceptedRequestIds calls :=
  ⟨fun honce _ hidentity => notRespelled_of_grantsOnce hinj honce hidentity,
    grantsOnce_of_notRespelled⟩

section Sample

/-- The JSON text of a grant without flags and expiry. -/
def grantText (grant : SignedGrantToken) : Bytes :=
  Value.utf8 ("\x7b\"user_id\":\"" ++ grant.userId ++ "\",\"role\":" ++ toString grant.role.toNat ++
    ",\"flags\":null,\"expires_at\":null,\"verifying_key\":\"" ++ grant.verifyingKey ++
    "\",\"signature\":\"" ++ grant.signature ++ "\"\x7d")

def replayState : LocalState :=
  { identity := some ⟨requestReceiver, Hex.encode requestVerifyingKey⟩ }

def replayCall (request : RequestToken) : RequestCall :=
  ⟨requestPayload request, {}, requestTime, requestTime⟩

noncomputable def replayRun (requests : List RequestToken) : List RequestTurn :=
  requestRun sampleRequestCrypto sampleRequestJson grantText replayState (requests.map replayCall)

theorem sampleRequestCrypto_injective : Function.Injective sampleRequestCrypto.sha256 :=
  Tabulated.tabulated_injective (by decide)

theorem lower_ne_upper : lowerRequest.fromUserId ≠ upperRequest.fromUserId := by decide

theorem sameContent_lower_upper : SameContent lowerRequest upperRequest :=
  ⟨⟨decode_lower.trans decode_upper.symm, rfl, rfl, rfl⟩, rfl⟩

theorem passes_lower :
    (replayCall lowerRequest).Passes sampleRequestCrypto sampleRequestJson requestReceiver
      lowerRequest := ⟨sampleGrantToken, accepts_lower⟩

theorem passes_upper :
    (replayCall upperRequest).Passes sampleRequestCrypto sampleRequestJson requestReceiver
      upperRequest := ⟨sampleGrantToken, accepts_upper⟩

/-- The request of a sender in lower case, then in upper case: both are granted. -/
theorem granted_once_per_spelling : ¬ GrantsOnce (replayRun [lowerRequest, upperRequest]) := by
  intro honce
  have hspelled := notRespelled_of_grantsOnce sampleRequestCrypto_injective honce rfl
  rw [List.map_cons, List.map_singleton, NotRespelled, List.pairwise_pair] at hspelled
  have hold := hspelled _ _ passes_lower passes_upper sameContent_lower_upper lower_ne_upper
  simp [replayState] at hold

theorem grantsOnce_lower : GrantsOnce (replayRun [lowerRequest, lowerRequest]) := by
  refine (grantsOnce_iff sampleRequestCrypto_injective _ _).mpr fun identity hidentity => ?_
  rw [List.map_cons, List.map_singleton, NotRespelled, List.pairwise_pair]
  intro request request' hpasses hpasses' _ hfrom
  have hparse : ∀ token, (replayCall lowerRequest).Passes sampleRequestCrypto sampleRequestJson
      identity.toIdentityState token → token = lowerRequest := by
    rintro token ⟨grant, hgrant⟩
    have hlower := (accept_eq_ok.mp accepts_lower).1
    exact Except.ok.inj ((accept_eq_ok.mp hgrant).1.symm.trans hlower)
  exact absurd (by rw [hparse _ hpasses, hparse _ hpasses']) hfrom

end Sample
end Spex
