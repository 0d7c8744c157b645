import Spex.EnvelopeCodec
import Spex.Staging
import Spex.ThreadRuns

/-!
# A message from end to end

The sender seals a message and cuts it into chunks; the manifest and the chunks
are staged in the recipient's state; the recipient collects the chunks, reads the
envelope, checks the signature and decrypts. The sender is told from the other
members by the text of an id and recognised by the recipient by the text that the
bytes of the id are encoded to, so delivery depends on how the ids are spelled.
-/
namespace Spex
open Fallible

/-- The primitives of both ends: the cipher and the signature with their inverses
(decryption takes key, nonce, ciphertext and additional data, verification takes
key, hash and signature) and the check that 32 bytes are a verifying key. -/
structure MessageCrypto extends Crypto where
  decrypt : Bytes → Bytes → Bytes → Bytes → Option Bytes
  validKey : Bytes → Bool
  verify : Bytes → Bytes → Bytes → Bool

structure DecryptedInboxItem where
  threadIdHex : String
  senderUserIdHex : String
  plaintext : Bytes
  deriving DecidableEq, Repr

structure InboxDecryptionResponse where
  items : List DecryptedInboxItem
  source : InboxSource
  deriving DecidableEq, Repr

def transportFault (err : TransportError) : Fault ClientError :=
  .returned (.transport err.message)

section Receiving
variable (crypto : MessageCrypto) (library : Ciborium) (manifestJson : Codec ChunkManifest)
  (sortUnstable : List Chunk → List Chunk)

def parseEnvelopePayload (payload : Bytes) : ClientResult Envelope :=
  (fromCtap2CanonicalSlice library payload).mapError coreFault

/-- A verifying key of 32 bytes from its text. -/
def verifyingKeyFromHex (verifyingKeyHex : String) : ClientResult Bytes := do
  let bytes ← hexDecode verifyingKeyHex
  require (bytes.length = 32) (.returned .signatureInvalid)
  return bytes

def resolveSenderVerifyingKey (state : LocalState) (senderUserIdHex : String) :
    ClientResult Bytes :=
  match state.identity.filter fun identity => identity.userIdHex = senderUserIdHex with
  | some identity => verifyingKeyFromHex identity.verifyingKeyHex
  | none =>
    match state.contacts senderUserIdHex with
    | some contact => verifyingKeyFromHex contact.verifyingKeyHex
    | none => .error (.returned (.unknownSender senderUserIdHex))

def verifyEnvelopeSignature (envelope : Envelope) (verifyingKey : Bytes) : ClientResult Unit :=
  match envelope.signature with
  | none => .error (.returned .missingSignature)
  | some signature => do
    require (signature.length = 64) (.returned .signatureInvalid)
    require (crypto.validKey verifyingKey) (.returned .signatureInvalid)
    let hash ← (hashCtap2CborValue crypto.sha256 .sha256 envelope.unsigned).mapError coreFault
    require (crypto.verify verifyingKey hash signature) (.returned .signatureInvalid)

def decryptPayloadWithAead (groupSecret ciphertext ad : Bytes) : ClientResult Bytes :=
  if ciphertext.length < 12 then .error (.returned .invalidAeadPayload)
  else
    let key := hashBytes crypto.sha256 .sha256 groupSecret
    if key.length ≠ 32 then .error (.returned (.crypto "Invalid Length"))
    else match crypto.decrypt key (ciphertext.take 12) (ciphertext.drop 12) ad with
      | none => .error (.returned (.crypto "aead::Error"))
      | some plaintext => .ok plaintext

/-- The additional data of an envelope. -/
def envelopeAd (threadState : ThreadState) (envelope : Envelope) : ClientResult Bytes := do
  let threadIdBytes ← hexDecode threadState.threadIdHex
  let threadId ← (toFixed 32 threadIdBytes).mapError coreFault
  let cfgHashBytes ← hexDecode threadState.cfgHashHex
  let cfgHash ← (toFixed 32 cfgHashBytes).mapError coreFault
  match deriveSenderAdId crypto.toCrypto envelope.senderUserId with
  | none => .error .panicked
  | some senderAdId => .ok (buildAd threadId envelope.epoch cfgHash threadState.protoSuite
      envelope.seq senderAdId)

def decryptThreadEnvelope (state : LocalState) (threadState : ThreadState) (envelope : Envelope) :
    ClientResult Bytes := do
  require (threadState.threadIdHex = Hex.encode envelope.threadId) (.returned .threadNotFound)
  let senderUserIdHex := Hex.encode envelope.senderUserId
  require (senderUserIdHex ∈ threadState.members) (.returned .unauthorizedSender)
  let verifyingKey ← resolveSenderVerifyingKey state senderUserIdHex
  verifyEnvelopeSignature crypto envelope verifyingKey
  let group ← rebuildThreadGroup crypto.sha256 threadState
  let ad ← envelopeAd crypto threadState envelope
  decryptPayloadWithAead crypto group.secrets.groupSecret envelope.ciphertext ad

/-- One turn of the loop of `build_transport_chunk_store`. -/
def storeChunk (state : LocalState) (store : Bytes → Option Bytes) (descriptor : ChunkDescriptor) :
    ClientResult (Bytes → Option Bytes) :=
  let hashHex := Hex.encode descriptor.hash
  match state.transportChunkStore hashHex with
  | none => .error (.returned (.transport (some s!"missing transport chunk {hashHex}")))
  | some dataBase64 =>
    match Base64.decode dataBase64 with
    | none => .error (.returned (.transport (some "invalid transport chunk encoding")))
    | some data => .ok (Function.update store descriptor.hash (some data))

def buildTransportChunkStore (state : LocalState) (manifest : ChunkManifest) :
    ClientResult (Bytes → Option Bytes) :=
  manifest.chunks.foldlM (storeChunk state) fun _ => none

def recoverManifestFromGossip (payloads : List Bytes) : Except TransportError ChunkManifest :=
  let valid := payloads.findSome? fun payload =>
    (manifestJson.fromSlice payload).filter fun manifest => (validateManifest manifest).isOk
  valid.elim (.error (.invalidManifest "no valid gossipsub manifest found")) .ok

/-- The end of a turn: the thread of an envelope and the decryption. -/
def openEnvelope (state : LocalState) (envelope : Envelope) : ClientResult DecryptedInboxItem := do
  let threadIdHex := Hex.encode envelope.threadId
  let threadState ← (state.threads threadIdHex).elim (.error (.returned .threadNotFound)) .ok
  let plaintext ← decryptThreadEnvelope crypto state threadState envelope
  return ⟨threadIdHex, Hex.encode envelope.senderUserId, plaintext⟩

/-- The envelope of a manifest that was heard of. -/
def recoverEnvelope (state : LocalState) (payloadBase64 : String) : ClientResult Envelope := do
  let payload ← (Base64.decode payloadBase64).elim
    (.error (.returned (.transport (some "invalid manifest payload encoding")))) .ok
  let manifest ← (recoverManifestFromGossip manifestJson [payload]).mapError transportFault
  let store ← buildTransportChunkStore state manifest
  let chunks ← (recoverChunksFromStore (hashBytes crypto.sha256 .sha256) manifest store).mapError
    transportFault
  let payload ← (reassembleChunksWithManifest (hashBytes crypto.sha256 .sha256) sortUnstable
    manifest chunks).mapError transportFault
  parseEnvelopePayload library payload

/-- One turn of the loop of `receive_transport_messages`. -/
def receiveManifest (state : LocalState) (payloadBase64 : String) :
    ClientResult DecryptedInboxItem := do
  let envelope ← recoverEnvelope crypto library manifestJson sortUnstable state payloadBase64
  openEnvelope crypto state envelope

def receiveTransportMessages (state : LocalState) (inboxScanKey : Bytes) :
    ClientResult InboxDecryptionResponse × LocalState :=
  let keyHex := inboxAddress crypto.sha256 inboxScanKey
  let manifestPayloads := (state.transportGossip keyHex).getD []
  let state := { state with transportGossip := Function.update state.transportGossip keyHex none }
  ((manifestPayloads.mapM (receiveManifest crypto library manifestJson sortUnstable state)).map
    (⟨·, .kademlia⟩), state)

/-- Sending a message, staging it in the state of the recipient and receiving it there. -/
def deliverThreadMessage (identity : IdentityState) (threadState : ThreadState)
    (plaintext nonce : Bytes) (state : LocalState) (recipient : Bytes) :
    ClientResult InboxDecryptionResponse :=
  match encryptAndChunkMessage crypto.toCrypto identity threadState plaintext nonce with
  | (.error fault, _) => .error fault
  | (.ok message, threadState) =>
    match stageTransportDelivery crypto.sha256 manifestJson state threadState identity.userIdHex
        message.manifest message.chunks with
    | (.error fault, _) => .error fault
    | (.ok (), state) =>
      (receiveTransportMessages crypto library manifestJson sortUnstable state recipient).1

end Receiving

section Recovering
variable {crypto : MessageCrypto} {library : Ciborium} {manifestJson : Codec ChunkManifest}
  {sortUnstable : List Chunk → List Chunk} {state : LocalState} {chunks : List Chunk}
  {payload : Bytes}

variable (payload) in
theorem buildTransportChunkStore_eq
    (hdata : ∀ chunk ∈ chunks, ∃ text,
      state.transportChunkStore (Hex.encode chunk.hash) = some text ∧
        Base64.decode text = some chunk.data) :
    buildTransportChunkStore state (manifestOf chunks payload) = .ok (storeOf chunks) := by
  have hloop : ∀ store : Bytes → Option Bytes,
      (manifestOf chunks payload).chunks.foldlM (storeChunk state) store =
        .ok (chunks.foldl (fun store chunk key =>
          if key = chunk.hash then some chunk.data else store key) store) := by
    rw [manifestOf]
    induction chunks with
    | nil => exact fun store => rfl
    | cons chunk chunks ih =>
      intro store
      obtain ⟨⟨text, hentry, htext⟩, hrest⟩ := List.forall_mem_cons.mp hdata
      have hstep : storeChunk state store ⟨chunk.index, chunk.hash⟩ =
          .ok fun key => if key = chunk.hash then some chunk.data else store key := by
        simp only [storeChunk, hentry, htext]
        congr 1
        funext key
        rw [Function.update_apply]
      rw [List.map_cons, List.foldlM_cons, hstep, ok_bind, ih hrest, List.foldl_cons]
  exact hloop _

/-- The payload comes back from the staged manifest and chunks. -/
theorem recovered_payload (hsort : SortsByIndex sortUnstable)
    (hinj : Function.Injective crypto.sha256)
    (hchunks : chunkData (hashBytes crypto.sha256 .sha256) defaultChunkSize payload = some chunks)
    (hdistinct : (chunks.map Chunk.data).Nodup) :
    validateManifest (manifestOf chunks payload) = .ok () ∧
      recoverChunksFromStore (hashBytes crypto.sha256 .sha256) (manifestOf chunks payload)
        (storeOf chunks) = .ok chunks ∧
      reassembleChunksWithManifest (hashBytes crypto.sha256 .sha256) sortUnstable
        (manifestOf chunks payload) chunks = .ok payload := by
  obtain ⟨slices, rfl, rfl⟩ := chunkData_eq_some _ hchunks
  rw [map_data_addressed] at hdistinct
  have hhashes : (slices.map (hashBytes crypto.sha256 .sha256)).Nodup :=
    hdistinct.map hinj
  have hvalid := validate_addressed hhashes
  have hnodup := map_hash_addressed (hashBytes crypto.sha256 .sha256) slices ▸ hhashes
  have hown : ∀ chunk ∈ addressed (hashBytes crypto.sha256 .sha256) slices,
      chunk.hash = hashBytes crypto.sha256 .sha256 chunk.data :=
    fun chunk hchunk => hash_of_mem_addressed _ hchunk
  exact ⟨hvalid, recoverChunksFromStore_of_nodup hvalid hown hnodup,
    reassembleChunksWithManifest_of_nodup hvalid hown hnodup
      (reassembleChunks_addressed _ hsort slices)⟩

theorem recoverManifestFromGossip_toVec {manifest : ChunkManifest}
    (hvalid : validateManifest manifest = .ok ()) :
    recoverManifestFromGossip manifestJson [manifestJson.toVec manifest] = .ok manifest := by
  have hok : (validateManifest manifest).isOk = true := by
    rw [hvalid]
    rfl
  simp [recoverManifestFromGossip, manifestJson.fromSlice_toVec, Option.filter, hok]

/-- A staged message comes down to decrypting its envelope. -/
theorem receiveManifest_staged {message : ThreadMessage} {threadState : ThreadState}
    (hlibrary : library.Faithful) (hsort : SortsByIndex sortUnstable)
    (hinj : Function.Injective crypto.sha256)
    (hextensions : message.envelope.extensions = ∅)
    (hpayload : toCtap2CanonicalBytes message.envelope = .ok payload)
    (hchunks : chunkData (hashBytes crypto.sha256 .sha256) defaultChunkSize payload =
      some message.chunks)
    (hmanifest : message.manifest = manifestOf message.chunks payload)
    (hdistinct : (message.chunks.map Chunk.data).Nodup)
    (hdata : ∀ chunk ∈ message.chunks, ∃ text,
      state.transportChunkStore (Hex.encode chunk.hash) = some text ∧
        Base64.decode text = some chunk.data)
    (hthread : state.threads (Hex.encode message.envelope.threadId) = some threadState) :
    receiveManifest crypto library manifestJson sortUnstable state
        (Base64.encode (manifestJson.toVec message.manifest)) =
      (decryptThreadEnvelope crypto state threadState message.envelope).map fun plaintext =>
        ⟨Hex.encode message.envelope.threadId, Hex.encode message.envelope.senderUserId,
          plaintext⟩ := by
  obtain ⟨hvalid, hrecover, hjoin⟩ := recovered_payload hsort hinj hchunks hdistinct
  have hstore := buildTransportChunkStore_eq payload hdata
  have hparsed : parseEnvelopePayload library payload = .ok message.envelope :=
    mapError_eq_ok.mpr (fromCtap2CanonicalSlice_envelope hlibrary hextensions hpayload)
  rw [receiveManifest, recoverEnvelope, hmanifest, Base64.decode_encode, Option.elim_some, ok_bind,
    mapError_eq_ok.mpr (recoverManifestFromGossip_toVec hvalid), ok_bind, hstore, ok_bind,
    mapError_eq_ok.mpr hrecover, ok_bind, mapError_eq_ok.mpr hjoin, ok_bind, hparsed, ok_bind,
    openEnvelope, hthread, Option.elim_some, ok_bind]
  cases decryptThreadEnvelope crypto state threadState message.envelope <;> rfl

end Recovering

section Opening
variable {crypto : MessageCrypto} {identity : IdentityState} {threadState : ThreadState}
  {envelope : Envelope} {groupSecret plaintext nonce ad verifyingKey : Bytes}

/-- Both ends build the same additional data. -/
theorem envelopeAd_eq
    (had : messageAd crypto.toCrypto identity threadState envelope.epoch envelope.seq = .ok ad)
    (hsender : Hex.decode identity.userIdHex = some envelope.senderUserId) :
    envelopeAd crypto threadState envelope = .ok ad := by
  obtain ⟨threadIdBytes, hthread, had⟩ := bind_eq_ok.mp had
  obtain ⟨threadId, hthread32, had⟩ := bind_eq_ok.mp had
  obtain ⟨cfgHashBytes, hcfg, had⟩ := bind_eq_ok.mp had
  obtain ⟨cfgHash, hcfg32, had⟩ := bind_eq_ok.mp had
  obtain ⟨senderId, hid, had⟩ := bind_eq_ok.mp had
  obtain rfl : senderId = envelope.senderUserId :=
    Option.some.inj ((hexDecode_eq_ok.mp hid).symm.trans hsender)
  refine bind_eq_ok.mpr ⟨_, hthread, bind_eq_ok.mpr ⟨_, hthread32, ?_⟩⟩
  exact bind_eq_ok.mpr ⟨_, hcfg, bind_eq_ok.mpr ⟨_, hcfg32, had⟩⟩

theorem encryptPayload_parts {ciphertext : Bytes}
    (h : encryptPayloadWithAead crypto.toCrypto groupSecret plaintext ad nonce = .ok ciphertext) :
    (crypto.sha256 groupSecret).length = 32 ∧ ∃ body, ciphertext = nonce ++ body ∧
      crypto.encrypt (crypto.sha256 groupSecret) nonce plaintext ad = some body := by
  unfold encryptPayloadWithAead at h
  dsimp only at h
  split_ifs at h with hkey
  split at h
  · cases h
  · rename_i body hbody
    exact ⟨not_not.mp hkey, body, (Except.ok.inj h).symm, hbody⟩

theorem decryptPayload_eq {body : Bytes} (hkey : (crypto.sha256 groupSecret).length = 32)
    (hnonce : nonce.length = 12)
    (hdecrypt : crypto.decrypt (crypto.sha256 groupSecret) nonce body ad = some plaintext) :
    decryptPayloadWithAead crypto groupSecret (nonce ++ body) ad = .ok plaintext := by
  have hlong : ¬ (nonce ++ body).length < 12 := by
    rw [List.length_append]
    omega
  rw [decryptPayloadWithAead, if_neg hlong]
  dsimp only
  rw [hashBytes_eq, if_neg (not_not.mpr hkey), ← hnonce, List.take_left, List.drop_left, hdecrypt]

/-- A signature of the sender passes the check of the recipient. -/
theorem verifyEnvelopeSignature_ok {signingKey hash : Bytes}
    (hhash : hashCtap2CborValue crypto.sha256 .sha256 envelope.unsigned = .ok hash)
    (hsignature : envelope.signature = some (crypto.sign signingKey hash))
    (hvalid : crypto.validKey verifyingKey = true)
    (hlength : (crypto.sign signingKey hash).length = 64)
    (hverify : crypto.verify verifyingKey hash (crypto.sign signingKey hash) = true) :
    verifyEnvelopeSignature crypto envelope verifyingKey = .ok () := by
  rw [verifyEnvelopeSignature, hsignature]
  refine bind_eq_ok.mpr ⟨(), require_eq_ok.mpr hlength, ?_⟩
  refine bind_eq_ok.mpr ⟨(), require_eq_ok.mpr hvalid, ?_⟩
  exact bind_eq_ok.mpr ⟨hash, mapError_eq_ok.mpr hhash, require_eq_ok.mpr hverify⟩

theorem decryptThreadEnvelope_ok {state : LocalState} {group : Group}
    (hthread : threadState.threadIdHex = Hex.encode envelope.threadId)
    (hmember : Hex.encode envelope.senderUserId ∈ threadState.members)
    (hresolve : resolveSenderVerifyingKey state (Hex.encode envelope.senderUserId) =
      .ok verifyingKey) (hverify : verifyEnvelopeSignature crypto envelope verifyingKey = .ok ())
    (hrebuild : rebuildThreadGroup crypto.sha256 threadState = .ok group)
    (had : envelopeAd crypto threadState envelope = .ok ad)
    (hdecrypt : decryptPayloadWithAead crypto group.secrets.groupSecret envelope.ciphertext ad =
      .ok plaintext) : decryptThreadEnvelope crypto state threadState envelope = .ok plaintext := by
  refine bind_eq_ok.mpr ⟨(), require_eq_ok.mpr hthread, ?_⟩
  refine bind_eq_ok.mpr ⟨(), require_eq_ok.mpr hmember, ?_⟩
  refine bind_eq_ok.mpr ⟨_, hresolve, bind_eq_ok.mpr ⟨(), hverify, ?_⟩⟩
  exact bind_eq_ok.mpr ⟨group, hrebuild, bind_eq_ok.mpr ⟨ad, had, hdecrypt⟩⟩

/-- An envelope is refused if the members do not list its sender in the encoded form. -/
theorem decryptThreadEnvelope_unauthorized {state : LocalState}
    (hthread : threadState.threadIdHex = Hex.encode envelope.threadId)
    (hmember : Hex.encode envelope.senderUserId ∉ threadState.members) :
    decryptThreadEnvelope crypto state threadState envelope =
      .error (.returned .unauthorizedSender) := by
  simp only [decryptThreadEnvelope, require, if_pos hthread, if_neg hmember]
  rfl

theorem rebuildThreadGroup_counters (sha256 : Bytes → Bytes) (threadState : ThreadState)
    (nextSeq epoch : UInt64) : rebuildThreadGroup sha256 { threadState with nextSeq, epoch } =
      rebuildThreadGroup sha256 threadState := rfl

theorem messageAd_counters (threadState : ThreadState) (nextSeq epoch : UInt64)
    (messageEpoch : UInt32) (seq : UInt64) :
    messageAd crypto.toCrypto identity { threadState with nextSeq, epoch } messageEpoch seq =
      messageAd crypto.toCrypto identity threadState messageEpoch seq := rfl

end Opening

/-- A sender and a recipient who share a thread: the sender can send, the cipher
and the signature are correct and the hash has no collisions, the recipient holds
the thread and the sender's key and keeps chunks by their hashes, and the chunks of
the message are distinct. -/
structure Connected (crypto : MessageCrypto) (identity : IdentityState) (threadState : ThreadState)
    (state : LocalState) (plaintext nonce senderId : Bytes) : Prop where
  equipped : Equipped crypto.toCrypto identity threadState
  collisionFree : Function.Injective crypto.sha256
  threadId : ∃ threadId, threadState.threadIdHex = Hex.encode threadId
  sender : Hex.decode identity.userIdHex = some senderId
  members : ∀ member ∈ threadState.members, ∃ bytes, Hex.decode member = some bytes
  count : threadState.members.length < 2 ^ 64
  secret : ∃ seed, Hex.decode threadState.initialSecretHex = some seed ∧
    (crypto.sha256 (secretAt crypto.sha256 seed threadState.members.length)).length = 32
  nonceLength : nonce.length = 12
  cipher : ∀ key ad, key.length = 32 → ∃ body, crypto.encrypt key nonce plaintext ad = some body ∧
    (nonce ++ body).length < 2 ^ 64 ∧ crypto.decrypt key nonce body ad = some plaintext
  signature : ∃ signingKey verifyingKey, signingKeyFromHex identity.signingKeyHex = .ok signingKey ∧
    resolveSenderVerifyingKey state (Hex.encode senderId) = .ok verifyingKey ∧
    crypto.validKey verifyingKey = true ∧ ∀ hash, (crypto.sign signingKey hash).length = 64 ∧
      crypto.verify verifyingKey hash (crypto.sign signingKey hash) = true
  thread : ∃ nextSeq epoch, state.threads threadState.threadIdHex =
    some { threadState with nextSeq, epoch }
  chunkStore : StoresByHash crypto.sha256 state.transportChunkStore
  distinct : ∀ message, (encryptAndChunkMessage crypto.toCrypto identity threadState plaintext
    nonce).1 = .ok message → (message.chunks.map Chunk.data).Nodup

namespace Connected
variable {crypto : MessageCrypto} {library : Ciborium} {sortUnstable : List Chunk → List Chunk}
  {identity : IdentityState} {threadState : ThreadState} {state : LocalState}
  {plaintext nonce senderId recipient : Bytes}
  (h : Connected crypto identity threadState state plaintext nonce senderId)
include h

theorem envelope_fields {group : Group} {epoch : UInt32} {seq : UInt64} {ciphertext : Bytes}
    {envelope : Envelope}
    (henvelope : buildEnvelope crypto.toCrypto identity (threadState.counted group) epoch seq
      ciphertext = .ok envelope) :
    envelope.extensions = ∅ ∧ envelope.senderUserId = senderId ∧
      threadState.threadIdHex = Hex.encode envelope.threadId := by
  obtain ⟨threadId, senderUserId, _, _, hthread, hsender, -, -, rfl⟩ :=
    buildEnvelope_parts henvelope
  obtain ⟨encoded, hencoded⟩ := h.threadId
  refine ⟨rfl, Option.some.inj (hsender.symm.trans h.sender), ?_⟩
  change Hex.decode threadState.threadIdHex = some threadId at hthread
  rw [hencoded, Hex.decode_encode] at hthread
  rw [hencoded, Option.some.inj hthread]

/-- The recipient decrypts a message of a sender whose encoded id is a member. -/
theorem decrypt_eq {group : Group} {message : ThreadMessage}
    (hrebuild : rebuildThreadGroup crypto.sha256 threadState = .ok group)
    (hseal : sealMessage crypto.toCrypto identity (threadState.counted group)
      group.secrets.groupSecret group.epoch.toUInt32 threadState.nextSeq plaintext nonce =
        .ok message) {received : LocalState} (hkeys : ∀ id, resolveSenderVerifyingKey received id =
      resolveSenderVerifyingKey state id) (nextSeq epoch : UInt64) :
    decryptThreadEnvelope crypto received { threadState with nextSeq, epoch } message.envelope =
      if Hex.encode senderId ∈ threadState.members then .ok plaintext
      else .error (.returned .unauthorizedSender) := by
  obtain ⟨ad, ciphertext, payload, had, hencrypt, henvelope, -, -, -⟩ := seal_parts hseal
  obtain ⟨-, rfl, hthread⟩ := h.envelope_fields henvelope
  split_ifs with hmember
  · obtain ⟨threadId, senderUserId, signingKey, hash, -, hsender, hsigning, hhash, hfields⟩ :=
      buildEnvelope_parts henvelope
    obtain ⟨hkey, body, rfl, hbody⟩ := encryptPayload_parts hencrypt
    obtain ⟨signingKey', verifyingKey, hsigning', hresolve, hvalid, hsigned⟩ := h.signature
    obtain rfl : signingKey = signingKey' := Except.ok.inj (hsigning.symm.trans hsigning')
    obtain ⟨body', hbody', -, hdecrypt⟩ := h.cipher _ ad hkey
    obtain rfl : body = body' := Option.some.inj (hbody.symm.trans hbody')
    have hverify : verifyEnvelopeSignature crypto message.envelope verifyingKey = .ok () := by
      rw [hfields]
      exact verifyEnvelopeSignature_ok hhash rfl hvalid (hsigned hash).1 (hsigned hash).2
    rw [ThreadState.counted, messageAd_counters] at had
    have had' : envelopeAd crypto { threadState with nextSeq, epoch } message.envelope =
        .ok ad := by
      rw [hfields]
      exact envelopeAd_eq ((messageAd_counters ..).trans had) hsender
    have hopened : decryptPayloadWithAead crypto group.secrets.groupSecret
        message.envelope.ciphertext ad = .ok plaintext := by
      rw [hfields]
      exact decryptPayload_eq hkey h.nonceLength hdecrypt
    exact decryptThreadEnvelope_ok hthread hmember ((hkeys _).trans hresolve) hverify
      ((rebuildThreadGroup_counters ..).trans hrebuild) had' hopened
  · exact decryptThreadEnvelope_unauthorized hthread hmember

theorem sends (hsmall : threadState.members.length < 2 ^ 32) :
    ∃ message, (encryptAndChunkMessage crypto.toCrypto identity threadState plaintext nonce).1 =
      .ok message := by
  obtain ⟨seed, hseed, hkey⟩ := h.secret
  refine h.equipped.sends seed hseed hsmall hkey fun key ad hlength => ?_
  obtain ⟨body, hbody, hshort, -⟩ := h.cipher key ad hlength
  exact ⟨body, hbody, hshort⟩

/-- A thread with more members than 32-bit epochs cannot send. -/
theorem not_delivered (hlarge : 2 ^ 32 ≤ threadState.members.length)
    (manifestJson : Codec ChunkManifest) (response : InboxDecryptionResponse) :
    deliverThreadMessage crypto library manifestJson sortUnstable identity threadState plaintext
      nonce state recipient ≠ .ok response := by
  intro hdelivered
  unfold deliverThreadMessage at hdelivered
  split at hdelivered
  · cases hdelivered
  · rename_i message _ hencrypt
    obtain ⟨group, hrebuild, hsmall, -, -⟩ := encrypt_eq_ok (congrArg Prod.fst hencrypt)
    obtain ⟨_, hstored⟩ := stored_of_rebuild hrebuild
    rw [(rebuild_replays hrebuild hstored).epoch, UInt64.toNat_ofNat_of_lt' h.count] at hsmall
    omega

/-- A message is received once for each time the recipient is served, and each
time with the same outcome. -/
theorem deliver_received (hlibrary : library.Faithful) (hsort : SortsByIndex sortUnstable)
    (hempty : (state.transportGossip (inboxAddress crypto.sha256 recipient)).getD [] = [])
    (hsmall : threadState.members.length < 2 ^ 32) (manifestJson : Codec ChunkManifest) :
    ∃ text received, deliverThreadMessage crypto library manifestJson sortUnstable identity
        threadState plaintext nonce state recipient =
      ((List.replicate (timesServed crypto.sha256 identity.userIdHex
        (inboxAddress crypto.sha256 recipient) threadState.members) text).mapM
          (receiveManifest crypto library manifestJson sortUnstable received)).map
            (⟨·, .kademlia⟩) ∧
      receiveManifest crypto library manifestJson sortUnstable received text =
        if Hex.encode senderId ∈ threadState.members then
          .ok ⟨threadState.threadIdHex, Hex.encode senderId, plaintext⟩
        else .error (.returned .unauthorizedSender) := by
  obtain ⟨message, hsent⟩ := h.sends hsmall
  obtain ⟨group, hrebuild, -, hstate, hseal⟩ := encrypt_eq_ok hsent
  have hencrypt : encryptAndChunkMessage crypto.toCrypto identity threadState plaintext nonce =
      (.ok message, threadState.counted group) := Prod.ext hsent hstate
  obtain ⟨_, _, payload, -, -, henvelope, hpayload, hchunks, hmanifest⟩ := seal_parts hseal
  obtain ⟨hextensions, hsender, hthreadId⟩ := h.envelope_fields henvelope
  let text := Base64.encode (manifestJson.toVec message.manifest)
  have hdecodes : ∀ member ∈ threadState.members, member ≠ identity.userIdHex →
      ∃ bytes, Hex.decode member = some bytes := fun member hmember _ => h.members member hmember
  obtain ⟨gossip, hgossip⟩ := stageForMembers_of_decodes crypto.sha256 hdecodes text
    state.transportGossip
  let store := message.chunks.foldl (fun store chunk =>
    insertMissing store (Hex.encode chunk.hash) (Base64.encode chunk.data))
    state.transportChunkStore
  have hstaged : stageTransportDelivery crypto.sha256 manifestJson state
      (threadState.counted group) identity.userIdHex message.manifest message.chunks =
      (.ok (), { state with transportGossip := gossip, transportChunkStore := store }) := by
    unfold stageTransportDelivery stageTransportDeliveryForMembers
    dsimp only
    rw [show (threadState.counted group).members = threadState.members from rfl, hgossip]
  let received : LocalState := { state with
    transportGossip := Function.update gossip (inboxAddress crypto.sha256 recipient) none,
    transportChunkStore := store }
  refine ⟨text, received, ?_, ?_⟩
  · rw [deliverThreadMessage, hencrypt]
    dsimp only
    rw [hstaged]
    dsimp only [receiveTransportMessages]
    rw [stageForMembers_ok hgossip, hempty, List.nil_append]
  · have hown : ∀ chunk ∈ message.chunks, chunk.hash = crypto.sha256 chunk.data := by
      obtain ⟨slices, hslices, -⟩ := chunkData_eq_some _ hchunks
      rw [hslices]
      exact fun chunk hchunk => hash_of_mem_addressed _ hchunk
    have hdata : ∀ chunk ∈ message.chunks, ∃ text,
        store (Hex.encode chunk.hash) = some text ∧ Base64.decode text = some chunk.data :=
      data_of_stored_chunks h.chunkStore hown rfl h.collisionFree
    obtain ⟨nextSeq, epoch, hthread⟩ := h.thread
    have hthread' : received.threads (Hex.encode message.envelope.threadId) =
        some { threadState with nextSeq, epoch } := by
      rw [← hthreadId]
      exact hthread
    have hopened := h.decrypt_eq hrebuild hseal (fun _ => rfl : ∀ id,
      resolveSenderVerifyingKey received id = resolveSenderVerifyingKey state id) nextSeq epoch
    rw [receiveManifest_staged hlibrary hsort h.collisionFree hextensions hpayload hchunks
      hmanifest (h.distinct message hsent) hdata hthread', hopened, ← hthreadId, hsender]
    split_ifs <;> rfl

end Connected

/-- How often a recipient is listed among the members in another text than the sender's. -/
def timesListed (senderUserIdHex : String) (recipient : Bytes) (members : List String) : ℕ :=
  members.countP fun member => member ≠ senderUserIdHex ∧ Hex.decode member = some recipient

theorem timesServed_eq_timesListed {sha256 : Bytes → Bytes} (hinj : Function.Injective sha256)
    (senderUserIdHex : String) (recipient : Bytes) (members : List String) :
    timesServed sha256 senderUserIdHex (inboxAddress sha256 recipient) members =
      timesListed senderUserIdHex recipient members := by
  have haddress : Function.Injective (inboxAddress sha256) :=
    fun _ _ h => hinj (Hex.encode_injective h)
  refine List.countP_congr fun member _ => ?_
  simp only [ServedAt, decide_eq_true_eq, Option.map_eq_some_iff, haddress.eq_iff,
    exists_eq_right]

section Delivery
variable {crypto : MessageCrypto} {library : Ciborium} {sortUnstable : List Chunk → List Chunk}
  {identity : IdentityState} {threadState : ThreadState} {state : LocalState}
  {plaintext nonce senderId recipient : Bytes}

/-- A message is delivered, exactly once and as it was sent, exactly if the members
fit a 32-bit epoch, list the sender in the encoded form of the id, and list the
recipient in one text. -/
theorem message_delivered_iff
    (h : Connected crypto identity threadState state plaintext nonce senderId)
    (hlibrary : library.Faithful) (hsort : SortsByIndex sortUnstable)
    (hempty : (state.transportGossip (inboxAddress crypto.sha256 recipient)).getD [] = [])
    (manifestJson : Codec ChunkManifest) :
    deliverThreadMessage crypto library manifestJson sortUnstable identity threadState plaintext
        nonce state recipient =
        .ok ⟨[⟨threadState.threadIdHex, Hex.encode senderId, plaintext⟩], .kademlia⟩ ↔
      threadState.members.length < 2 ^ 32 ∧ Hex.encode senderId ∈ threadState.members ∧
        timesListed identity.userIdHex recipient threadState.members = 1 := by
  constructor
  · intro hdelivered
    have hsmall : threadState.members.length < 2 ^ 32 := by
      by_contra hlarge
      exact h.not_delivered (not_lt.mp hlarge) manifestJson _ hdelivered
    obtain ⟨text, received, hdeliver, hreceive⟩ :=
      h.deliver_received hlibrary hsort hempty hsmall manifestJson
    rw [timesServed_eq_timesListed h.collisionFree, hdelivered] at hdeliver
    obtain ⟨items, hitems, heq⟩ := map_eq_ok.mp hdeliver.symm
    obtain rfl := (InboxDecryptionResponse.mk.inj heq).1
    have hall := mapM_eq_ok.mp hitems
    have hcount := hall.length_eq
    rw [List.length_replicate, List.length_singleton] at hcount
    refine ⟨hsmall, ?_, hcount⟩
    by_contra hmember
    rw [hcount, List.replicate_one, List.forall₂_cons, hreceive, if_neg hmember] at hall
    cases hall.1
  · rintro ⟨hsmall, hmember, hcount⟩
    obtain ⟨text, received, hdeliver, hreceive⟩ :=
      h.deliver_received hlibrary hsort hempty hsmall manifestJson
    rw [if_pos hmember] at hreceive
    rw [hdeliver, timesServed_eq_timesListed h.collisionFree, hcount, mapM_replicate_ok hreceive]
    rfl

end Delivery

section Sample
open Tabulated
variable {name : String}

/-- The message of the thread of two to which `hi` is sent. -/
def deliveredMessage : SampleMessage := sampleMessages.get ⟨1, by decide⟩

/-- The message after it. -/
def nextMessage : SampleMessage := sampleMessages.get ⟨5, by decide⟩

def deliveryDigests : List (Bytes × Bytes) :=
  groupDigests ++ [([0xaa], senderDigest), ([0xbb],
    BigEndian.write 32 0xcbecda1c7d37d4c0aa5466243bb4a0018c31bf06d74fa7338290dd3068db4fed)] ++
    sampleSecrets.tail.zip sampleKeys ++ deliveredMessage.digests ++ nextMessage.digests

def deliveryCrypto : MessageCrypto where
  sha256 := tabulated deliveryDigests
  encrypt := sampleCrypto.encrypt
  sign := sampleCrypto.sign
  decrypt key nonce body ad :=
    let row := sampleMessages.find? fun m =>
      m.key = key ∧ m.nonce = nonce ∧ m.ciphertext = body ∧ m.ad = ad
    row.elim (if body.drop (body.length - 16) = List.replicate 16 0 then
      some (body.take (body.length - 16)) else none) fun _ => some sampleText
  validKey key := key = requestVerifyingKey
  verify key hash signature :=
    key = requestVerifyingKey ∧ signature = sampleCrypto.sign (List.replicate 32 7) hash

/-- Decryption inverts the sample encryption at every key, nonce and text. -/
theorem decrypt_encrypt {key nonce plaintext ad body : Bytes}
    (h : deliveryCrypto.encrypt key nonce plaintext ad = some body) :
    deliveryCrypto.decrypt key nonce body ad = some plaintext := by
  have hmarked : ∀ m ∈ sampleMessages,
      m.ciphertext.drop (m.ciphertext.length - 16) ≠ List.replicate 16 0 := by decide
  simp only [deliveryCrypto, sampleCrypto, Option.some.injEq] at h
  cases hrow : sampleMessages.find? fun m =>
      m.key = key ∧ m.nonce = nonce ∧ sampleText = plaintext ∧ m.ad = ad with
  | some m =>
    have hm := List.find?_some hrow
    rw [hrow, Option.elim_some] at h
    simp only [decide_eq_true_eq] at hm
    have hfound : (sampleMessages.find? fun m =>
        m.key = key ∧ m.nonce = nonce ∧ m.ciphertext = body ∧ m.ad = ad).isSome := by
      rw [List.find?_isSome]
      exact ⟨m, List.mem_of_find?_eq_some hrow, by simp [hm, h]⟩
    obtain ⟨m', hm'⟩ := Option.isSome_iff_exists.mp hfound
    simp only [deliveryCrypto, hm', Option.elim_some, hm.2.2.1]
  | none =>
    rw [hrow, Option.elim_none] at h
    have hdrop : body.drop (body.length - 16) = List.replicate 16 0 := by simp [← h]
    have htake : body.take (body.length - 16) = plaintext := by simp [← h]
    have hnone : (sampleMessages.find? fun m =>
        m.key = key ∧ m.nonce = nonce ∧ m.ciphertext = body ∧ m.ad = ad) = none := by
      rw [List.find?_eq_none]
      intro m hm hmatch
      simp only [decide_eq_true_eq] at hmatch
      exact hmarked m hm (hmatch.2.2.1 ▸ hdrop)
    simp only [deliveryCrypto, hnone, Option.elim_none, hdrop, if_true, htake]

/-- The thread of `bb` and the sender, whose id is written in some way. -/
def deliveryThread (name : String) : ThreadState := sampleAt ["bb", name] 0 2

def deliverySender (name : String) : IdentityState := ⟨name, Hex.encode (List.replicate 32 7)⟩

def deliveryRecipient (name : String) : LocalState where
  contacts id := if id = "aa" then some ⟨"aa", Hex.encode requestVerifyingKey⟩ else none
  threads id := if id = Hex.encode sampleThreadId then some (deliveryThread name) else none

theorem length_sampleEncrypt {key nonce plaintext ad body : Bytes}
    (hplaintext : plaintext.length = 2)
    (h : sampleCrypto.encrypt key nonce plaintext ad = some body) : body.length = 18 := by
  rw [← Option.some.inj h]
  exact elim_sampleMessages _ _ _ (by simp [hplaintext]) (by decide)

theorem length_sampleSign (key hash : Bytes) : (sampleCrypto.sign key hash).length = 64 :=
  elim_sampleMessages _ _ _ (by decide) (by decide)

theorem equipped_delivery (hname : Hex.decode name = some [0xaa]) :
    Equipped deliveryCrypto.toCrypto (deliverySender name) (deliveryThread name) where
  threadId := ⟨sampleThreadId, Hex.decode_encode _, by decide⟩
  cfgHash := ⟨sampleCfgHash, Hex.decode_encode _, by decide⟩
  sender := ⟨[0xaa], hname, by decide, by decide⟩
  signingKey := by
    refine ⟨List.replicate 32 7, Hex.decode_encode _, by decide, fun hash => ?_⟩
    have hlength := length_sampleSign (List.replicate 32 7) hash
    change (sampleCrypto.sign (List.replicate 32 7) hash).length < 2 ^ 64
    omega

/-- The sample message fits one chunk. -/
theorem distinct_delivery (hname : Hex.decode name = some [0xaa]) {message : ThreadMessage}
    (hsent : (encryptAndChunkMessage deliveryCrypto.toCrypto (deliverySender name)
      (deliveryThread name) sampleText (List.replicate 12 0x33)).1 = .ok message) :
    (message.chunks.map Chunk.data).Nodup := by
  obtain ⟨group, -, -, -, hseal⟩ := encrypt_eq_ok hsent
  obtain ⟨_, ciphertext, payload, -, hencrypt, henvelope, hpayload, hchunks, -⟩ := seal_parts hseal
  obtain ⟨hkey, body, rfl, hbody⟩ := encryptPayload_parts hencrypt
  obtain ⟨threadId, senderUserId, signingKey, hash, hthread, hsender, -, -, hfields⟩ :=
    buildEnvelope_parts henvelope
  obtain rfl : sampleThreadId = threadId :=
    Option.some.inj ((Hex.decode_encode sampleThreadId).symm.trans hthread)
  obtain rfl : [0xaa] = senderUserId := Option.some.inj (hname.symm.trans hsender)
  have hsmall : payload.length ≤ defaultChunkSize := by
    have hextensions : message.envelope.extensions = ∅ := by rw [hfields]
    have hle := length_envelope_le hextensions hpayload
    have hbody18 : body.length = 18 := length_sampleEncrypt (by decide) hbody
    have hsign64 : (deliveryCrypto.sign signingKey hash).length = 64 := length_sampleSign _ _
    simp only [hfields, Option.getD_some, List.length_append, List.length_replicate, hbody18,
      hsign64, sampleThreadId, List.length_singleton] at hle
    rw [defaultChunkSize]
    omega
  have hone := length_chunks_le_one hsmall
  rw [chunkData_eq _ (by decide)] at hchunks
  rw [← Option.some.inj hchunks, map_data_addressed]
  rcases Nat.le_one_iff_eq_zero_or_eq_one.mp hone with hzero | hone
  · rw [List.length_eq_zero_iff.mp hzero]
    exact List.nodup_nil
  · obtain ⟨piece, hpiece⟩ := List.length_eq_one_iff.mp hone
    rw [hpiece]
    exact List.nodup_singleton piece

theorem connected_delivery (hname : Hex.decode name = some [0xaa]) :
    Connected deliveryCrypto (deliverySender name) (deliveryThread name) (deliveryRecipient name)
      sampleText (List.replicate 12 0x33) [0xaa] where
  equipped := equipped_delivery hname
  collisionFree := tabulated_injective (by decide)
  threadId := ⟨sampleThreadId, rfl⟩
  sender := hname
  members := by
    intro member hmember
    rcases List.mem_cons.mp hmember with rfl | hmember
    · exact ⟨[0xbb], by decide⟩
    · exact ⟨[0xaa], List.mem_singleton.mp hmember ▸ hname⟩
  count := by
    change 2 < 2 ^ 64
    norm_num
  secret := by
    have hkey : (deliveryCrypto.sha256
        (secretAt deliveryCrypto.sha256 sampleSecret 2)).length = 32 := by decide
    exact ⟨sampleSecret, Hex.decode_encode _, hkey⟩
  nonceLength := by decide
  cipher := by
    intro key ad _
    refine ⟨_, rfl, ?_, decrypt_encrypt rfl⟩
    rw [List.length_append, length_sampleEncrypt (by decide) rfl]
    decide
  signature := by
    have hsigning : signingKeyFromHex (deliverySender name).signingKeyHex =
        .ok (List.replicate 32 7) :=
      signingKeyFromHex_ok (Hex.decode_encode _) rfl
    have hlength : requestVerifyingKey.length = 32 := by decide
    have hresolve : resolveSenderVerifyingKey (deliveryRecipient name) (Hex.encode [0xaa]) =
        .ok requestVerifyingKey := by
      have hcontact : (deliveryRecipient name).contacts (Hex.encode [0xaa]) =
          some ⟨"aa", Hex.encode requestVerifyingKey⟩ := by
        simp only [deliveryRecipient]
        exact if_pos (by decide)
      simp only [resolveSenderVerifyingKey, deliveryRecipient, Option.filter_none] at hcontact ⊢
      rw [hcontact]
      exact bind_eq_ok.mpr ⟨_, hexDecode_eq_ok.mpr (Hex.decode_encode _),
        bind_eq_ok.mpr ⟨(), require_eq_ok.mpr hlength, rfl⟩⟩
    refine ⟨_, _, hsigning, hresolve, by decide, fun hash => ⟨length_sampleSign _ _, ?_⟩⟩
    simp [deliveryCrypto]
  thread := by
    have hthread : (deliveryRecipient name).threads (deliveryThread name).threadIdHex =
        some (deliveryThread name) := by
      simp only [deliveryRecipient]
      exact if_pos rfl
    exact ⟨0, 2, hthread⟩
  chunkStore := by
    intro key text hentry
    cases hentry
  distinct := fun message => distinct_delivery hname

/-- The JSON text of a manifest. -/
def manifestText (manifest : ChunkManifest) : Bytes :=
  let descriptor (chunk : ChunkDescriptor) :=
    "\x7b\"index\":" ++ toString chunk.index ++ ",\"hash\":[" ++
      ",".intercalate (chunk.hash.map fun byte => toString byte.toNat) ++ "]\x7d"
  Value.utf8 ("\x7b\"chunks\":[" ++ ",".intercalate (manifest.chunks.map descriptor) ++
    "],\"total_len\":" ++ toString manifest.totalLen ++ "\x7d")

def deliveredManifest : ChunkManifest := ⟨[⟨0, deliveredMessage.chunkHash⟩], 143⟩

theorem exists_manifestJson : ∃ codec : Codec ChunkManifest,
    codec.toVec deliveredManifest = manifestText deliveredManifest := by
  let table := [(deliveredManifest, manifestText deliveredManifest)]
  have hkeys : (table.map Prod.fst).Nodup := List.nodup_singleton _
  have hvalues : (table.map Prod.snd).Nodup := List.nodup_singleton _
  have hzero : ∀ row ∈ table, row.2.head? ≠ some 0 := by decide
  obtain ⟨codec, hcodec⟩ := Codec.exists_of_table hkeys hvalues hzero
  exact ⟨codec, hcodec _ (.head _)⟩

/-- The JSON of manifests, with the text of the sample. -/
noncomputable def deliveryJson : Codec ChunkManifest := exists_manifestJson.choose

/-- The sender's id in the encoded form: one item arrives. -/
theorem message_delivered_lower :
    deliverThreadMessage deliveryCrypto rfcLibrary deliveryJson sortByIndex (deliverySender "aa")
      (deliveryThread "aa") sampleText (List.replicate 12 0x33) (deliveryRecipient "aa") [0xbb] =
      .ok ⟨[⟨Hex.encode sampleThreadId, Hex.encode [0xaa], sampleText⟩], .kademlia⟩ :=
  (message_delivered_iff (connected_delivery (by decide)) faithful_rfcLibrary sortsByIndex_sortOn
    rfl deliveryJson).mpr (by decide)

/-- The same thread with the sender's id in capitals: the message is refused. -/
theorem capital_sender_refused :
    Connected deliveryCrypto (deliverySender "AA") (deliveryThread "AA") (deliveryRecipient "AA")
      sampleText (List.replicate 12 0x33) [0xaa] ∧
    (deliveryThread "AA").members.Nodup ∧
    (deliverySender "AA").userIdHex ∈ (deliveryThread "AA").members ∧
    deliverThreadMessage deliveryCrypto rfcLibrary deliveryJson sortByIndex (deliverySender "AA")
      (deliveryThread "AA") sampleText (List.replicate 12 0x33) (deliveryRecipient "AA") [0xbb] =
      .error (.returned .unauthorizedSender) := by
  have hconnected : Connected deliveryCrypto (deliverySender "AA") (deliveryThread "AA")
      (deliveryRecipient "AA") sampleText (List.replicate 12 0x33) [0xaa] :=
    connected_delivery (by decide)
  refine ⟨hconnected, by decide, by decide, ?_⟩
  have hempty : ((deliveryRecipient "AA").transportGossip
      (inboxAddress deliveryCrypto.sha256 [0xbb])).getD [] = [] := rfl
  obtain ⟨text, received, hdeliver, hreceive⟩ := hconnected.deliver_received faithful_rfcLibrary
    sortsByIndex_sortOn hempty (by decide) deliveryJson
  have hcount : timesListed (deliverySender "AA").userIdHex [0xbb] (deliveryThread "AA").members =
      1 := by decide
  have hmember : Hex.encode [0xaa] ∉ (deliveryThread "AA").members := by decide
  rw [if_neg hmember] at hreceive
  rw [timesServed_eq_timesListed hconnected.collisionFree, hcount, List.replicate_one,
    List.mapM_cons, hreceive] at hdeliver
  exact hdeliver

end Sample
end Spex
