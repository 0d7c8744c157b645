import Spex.Batch
import Spex.InboxDelivery
import Spex.MessageDelivery

/-!
# Receiving a batch of deliveries

Both ways of receiving take the whole list of an inbox out of the state and give
up at the first delivery that cannot be opened, so that one bad delivery costs the
good ones beside it.
-/
namespace Spex
open Fallible Batch

section Receiving
variable (crypto : MessageCrypto) (library : Ciborium) (manifestJson : Codec ChunkManifest)
  (sortUnstable : List Chunk → List Chunk)

/-- One turn of the loop of `receive_inbox_messages`. -/
def receivePayload (state : LocalState) (payload : Bytes) : ClientResult DecryptedInboxItem := do
  let envelope ← parseEnvelopePayload library payload
  openEnvelope crypto state envelope

/-- The response, if the bridge is not asked for pages without end. -/
def receiveInboxMessages (state : LocalState) (inboxScanKey : Bytes)
    (bridge : Option Bridge.View) : Option (ClientResult InboxDecryptionResponse) × LocalState :=
  let resolved := resolveInboxFromState crypto.sha256 state inboxScanKey bridge
  (resolved.1.map fun response => do
    let response ← response
    let items ← response.items.mapM (receivePayload crypto library resolved.2)
    return ⟨items, response.source⟩, resolved.2)

/-- The manifests that are staged for an inbox. -/
def stagedManifests (state : LocalState) (inboxScanKey : Bytes) : List String :=
  (state.transportGossip (inboxAddress crypto.sha256 inboxScanKey)).getD []

/-- The same state with other manifests staged for an inbox. -/
def withManifests (state : LocalState) (inboxScanKey : Bytes) (manifests : List String) :
    LocalState :=
  let keyHex := inboxAddress crypto.sha256 inboxScanKey
  { state with transportGossip := Function.update state.transportGossip keyHex (some manifests) }

/-- The payloads that are cached for an inbox. -/
def cachedPayloads (state : LocalState) (inboxScanKey : Bytes) : List String :=
  (state.p2pInbox (inboxAddress crypto.sha256 inboxScanKey)).getD []

/-- The same state with other payloads cached for an inbox. -/
def withPayloads (state : LocalState) (inboxScanKey : Bytes) (payloads : List String) :
    LocalState :=
  let keyHex := inboxAddress crypto.sha256 inboxScanKey
  { state with p2pInbox := Function.update state.p2pInbox keyHex (some payloads) }

/-- A manifest that is received when it is the only one is among the items, or it is
still staged. -/
def KeepsManifests (state : LocalState) (inboxScanKey : Bytes) : Prop :=
  let receive := fun state =>
    receiveTransportMessages crypto library manifestJson sortUnstable state inboxScanKey
  Batch.Kept
    (fun manifest item => (receive (withManifests crypto state inboxScanKey [manifest])).1 =
      .ok ⟨[item], .kademlia⟩)
    (stagedManifests crypto state inboxScanKey)
    (stagedManifests crypto (receive state).2 inboxScanKey)
    (fun items => (receive state).1 = .ok ⟨items, .kademlia⟩)

/-- A payload that is received when it is the only one is among the items, or it is
still cached. -/
def KeepsPayloads (state : LocalState) (inboxScanKey : Bytes) : Prop :=
  let receive := fun state => receiveInboxMessages crypto library state inboxScanKey none
  Batch.Kept
    (fun payload item => (receive (withPayloads crypto state inboxScanKey [payload])).1 =
      some (.ok ⟨[item], .kademlia⟩))
    (cachedPayloads crypto state inboxScanKey)
    (cachedPayloads crypto (receive state).2 inboxScanKey)
    (fun items => (receive state).1 = some (.ok ⟨items, .kademlia⟩))

end Receiving

section Keeping
variable {crypto : MessageCrypto} {library : Ciborium} {manifestJson : Codec ChunkManifest}
  {sortUnstable : List Chunk → List Chunk} {state : LocalState} {inboxScanKey : Bytes}
  {items : List DecryptedInboxItem}

/-- What a single manifest gives does not depend on what is staged. -/
theorem receiveManifest_gossip (gossip : StringMap (List String)) :
    receiveManifest crypto library manifestJson sortUnstable
        { state with transportGossip := gossip } =
      receiveManifest crypto library manifestJson sortUnstable state := rfl

theorem receivePayload_p2pInbox (p2pInbox : StringMap (List String)) :
    receivePayload crypto library { state with p2pInbox } = receivePayload crypto library state :=
  rfl

theorem mapM_singleton_eq_ok {α β ε : Type} {f : α → Except ε β} {x : α} {b : β} :
    [x].mapM f = .ok [b] ↔ f x = .ok b := by
  rw [mapM_eq_ok, List.forall₂_cons]
  simp

theorem map_response_eq_ok {result : ClientResult (List DecryptedInboxItem)}
    {source : InboxSource} :
    result.map (InboxDecryptionResponse.mk · source) = .ok ⟨items, source⟩ ↔
      result = .ok items := by
  rw [map_eq_ok]
  simp

theorem receiveTransport_eq_ok :
    (receiveTransportMessages crypto library manifestJson sortUnstable state inboxScanKey).1 =
        .ok ⟨items, .kademlia⟩ ↔
      (stagedManifests crypto state inboxScanKey).mapM
        (receiveManifest crypto library manifestJson sortUnstable state) = .ok items :=
  map_response_eq_ok

theorem keepsManifests_iff :
    KeepsManifests crypto library manifestJson sortUnstable state inboxScanKey ↔
      Uniform (receiveManifest crypto library manifestJson sortUnstable state)
        (stagedManifests crypto state inboxScanKey) := by
  have hleft : stagedManifests crypto (receiveTransportMessages crypto library manifestJson
      sortUnstable state inboxScanKey).2 inboxScanKey = [] := by
    simp [stagedManifests, receiveTransportMessages]
  have hsingle : ∀ manifest, stagedManifests crypto
      (withManifests crypto state inboxScanKey [manifest]) inboxScanKey = [manifest] := by
    simp [stagedManifests, withManifests]
  unfold KeepsManifests
  dsimp only
  have hsome := List.filterMap_some (l := stagedManifests crypto state inboxScanKey)
  rw [hleft]
  refine (kept_iff some (fun manifest item => ?_) fun items => ?_).trans (by rw [hsome])
  · rw [receiveTransport_eq_ok, hsingle, withManifests, receiveManifest_gossip,
      mapM_singleton_eq_ok]
    simp
  · rw [receiveTransport_eq_ok, hsome]

/-- Without a bridge the cache is all there is, and it is empty afterwards. -/
theorem resolveInboxFromState_none (crypto : MessageCrypto) (state : LocalState)
    (inboxScanKey : Bytes) :
    let keyHex := inboxAddress crypto.sha256 inboxScanKey
    resolveInboxFromState crypto.sha256 state inboxScanKey none =
      (some (.ok ⟨(cachedPayloads crypto state inboxScanKey).filterMap Base64.decode, .kademlia⟩),
        { state with p2pInbox := Function.update state.p2pInbox keyHex none }) := by
  unfold resolveInboxFromState cachedPayloads
  dsimp only
  cases hcache : state.p2pInbox (inboxAddress crypto.sha256 inboxScanKey) with
  | some payloads => rfl
  | none =>
    have hsame : Function.update state.p2pInbox (inboxAddress crypto.sha256 inboxScanKey) none =
        state.p2pInbox := by rw [← hcache, Function.update_eq_self]
    rw [hsame]
    rfl

theorem receiveInbox_eq_ok :
    (receiveInboxMessages crypto library state inboxScanKey none).1 =
        some (.ok ⟨items, .kademlia⟩) ↔
      ((cachedPayloads crypto state inboxScanKey).filterMap Base64.decode).mapM
        (receivePayload crypto library state) = .ok items := by
  rw [receiveInboxMessages, resolveInboxFromState_none]
  dsimp only [Option.map_some]
  rw [ok_bind, receivePayload_p2pInbox, Option.some.injEq, bind_eq_ok]
  simp [pure_eq_ok]

theorem cachedPayloads_received :
    cachedPayloads crypto (receiveInboxMessages crypto library state inboxScanKey none).2
      inboxScanKey = [] := by
  rw [receiveInboxMessages, resolveInboxFromState_none]
  simp [cachedPayloads]

theorem keepsPayloads_iff :
    KeepsPayloads crypto library state inboxScanKey ↔
      Uniform (receivePayload crypto library state)
        ((cachedPayloads crypto state inboxScanKey).filterMap Base64.decode) := by
  have hsingle : ∀ payload, cachedPayloads crypto
      (withPayloads crypto state inboxScanKey [payload]) inboxScanKey = [payload] := by
    simp [cachedPayloads, withPayloads]
  unfold KeepsPayloads
  dsimp only
  rw [cachedPayloads_received]
  refine kept_iff Base64.decode (fun payload item => ?_) fun items => receiveInbox_eq_ok
  rw [receiveInbox_eq_ok, hsingle, withPayloads, receivePayload_p2pInbox]
  cases hdecode : Base64.decode payload with
  | none => simp [hdecode, pure_eq_ok]
  | some bytes =>
    rw [List.filterMap_cons_some hdecode, List.filterMap_nil, mapM_singleton_eq_ok]
    simp

/-- No delivery is lost exactly if the staged manifests, and the cached payloads that
are base64, can all be opened or none of them can. -/
theorem deliveries_kept_iff (crypto : MessageCrypto) (library : Ciborium)
    (manifestJson : Codec ChunkManifest) (sortUnstable : List Chunk → List Chunk)
    (state : LocalState) (inboxScanKey : Bytes) :
    (KeepsManifests crypto library manifestJson sortUnstable state inboxScanKey ↔
      Uniform (receiveManifest crypto library manifestJson sortUnstable state)
        (stagedManifests crypto state inboxScanKey)) ∧
    (KeepsPayloads crypto library state inboxScanKey ↔
      Uniform (receivePayload crypto library state)
        ((cachedPayloads crypto state inboxScanKey).filterMap Base64.decode)) :=
  ⟨keepsManifests_iff, keepsPayloads_iff⟩

end Keeping

section Sample

/-- The envelope of a message of the sample thread. -/
def SampleMessage.envelope (self : SampleMessage) : Envelope where
  threadId := sampleThreadId
  epoch := self.epoch.toUInt32
  seq := self.seq
  senderUserId := [0xaa]
  ciphertext := self.nonce ++ self.ciphertext
  signature := some self.signature
  extensions := ∅

def SampleMessage.payload (self : SampleMessage) : Bytes :=
  0xa6 :: self.fields ++ [5, 0x58, 0x40] ++ self.signature

/-- The sealed envelope of the message `hi` to the thread of two. -/
def deliveredEnvelope : Envelope := deliveredMessage.envelope

def deliveredPayload : Bytes := deliveredMessage.payload

def deliveredItem : DecryptedInboxItem := ⟨Hex.encode sampleThreadId, Hex.encode [0xaa], sampleText⟩

theorem open_sampleMessage {message : SampleMessage}
    (hmessage : message ∈ [deliveredMessage, nextMessage]) :
    parseEnvelopePayload rfcLibrary message.payload = .ok message.envelope ∧
      openEnvelope deliveryCrypto (deliveryRecipient "aa") message.envelope =
        .ok deliveredItem := by
  have hpayload : ∀ message ∈ [deliveredMessage, nextMessage],
      toCtap2CanonicalBytes message.envelope = .ok message.payload := by decide
  have hdecrypt : ∀ message ∈ [deliveredMessage, nextMessage], decryptThreadEnvelope deliveryCrypto
      (deliveryRecipient "aa") (deliveryThread "aa") message.envelope = .ok sampleText := by
    decide +kernel
  have hthread : (deliveryRecipient "aa").threads (Hex.encode message.envelope.threadId) =
      some (deliveryThread "aa") := by
    simp only [deliveryRecipient]
    exact if_pos rfl
  refine ⟨mapError_eq_ok.mpr (fromCtap2CanonicalSlice_envelope faithful_rfcLibrary rfl
    (hpayload _ hmessage)), bind_eq_ok.mpr ⟨deliveryThread "aa", ?_,
      bind_eq_ok.mpr ⟨sampleText, hdecrypt _ hmessage, rfl⟩⟩⟩
  rw [hthread]
  rfl

theorem receive_deliveredPayload :
    receivePayload deliveryCrypto rfcLibrary (deliveryRecipient "aa") deliveredPayload =
      .ok deliveredItem := by
  obtain ⟨hparse, hopen⟩ := open_sampleMessage (show deliveredMessage ∈ _ from List.mem_cons_self)
  exact bind_eq_ok.mpr ⟨deliveredEnvelope, hparse, hopen⟩

/-- A byte that is no envelope and a sealed message, both cached. -/
def mixedRecipient : LocalState :=
  withPayloads deliveryCrypto (deliveryRecipient "aa") [0xbb]
    [Base64.encode [0xff], Base64.encode deliveredPayload]

theorem decoded_mixedRecipient :
    (cachedPayloads deliveryCrypto mixedRecipient [0xbb]).filterMap Base64.decode =
      [[0xff], deliveredPayload] := by
  simp [cachedPayloads, mixedRecipient, withPayloads, Base64.decode_encode]

theorem bad_payload_loses_good :
    ¬ KeepsPayloads deliveryCrypto rfcLibrary mixedRecipient [0xbb] := by
  have hbad : (receivePayload deliveryCrypto rfcLibrary (deliveryRecipient "aa") [0xff]).isOk =
      false := by decide
  have hgood := receive_deliveredPayload
  rw [keepsPayloads_iff, decoded_mixedRecipient, mixedRecipient, withPayloads,
    receivePayload_p2pInbox]
  rintro (hall | hnone)
  · have hfirst := hall [0xff] List.mem_cons_self
    rw [hbad] at hfirst
    cases hfirst
  · have hsecond := hnone deliveredPayload (by simp)
    rw [hgood] at hsecond
    cases hsecond

end Sample

end Spex
