import Spex.MessageLedger

/-!
# Sending in a thread of the local state

A message is sealed, kept among the messages of the thread and in the outbox, and staged
for the other members. The counter and the epoch of the thread are stored before the
message is sealed and before the ids of the members are decoded, so a send that fails at
one of these steps has used up a sequence number.
-/
namespace Spex
open Cbor Fallible

structure TransportChunkDescriptorState where
  index : ℕ
  hashHex : String
  deriving DecidableEq, Repr

structure TransportManifestState where
  totalLen : ℕ
  chunks : List TransportChunkDescriptorState
  deriving DecidableEq, Repr

structure TransportChunkState where
  index : ℕ
  hashHex : String
  dataBase64 : String
  deriving DecidableEq, Repr

structure TransportOutboxItem where
  threadIdHex : String
  manifest : TransportManifestState
  chunks : List TransportChunkState
  publishedAt : UInt64
  deriving DecidableEq, Repr

/-- The client with its messages and the items it has published. -/
structure OutgoingState extends MailState where
  transportOutbox : List TransportOutboxItem := []

structure ThreadMessageDispatch where
  threadIdHex : String
  senderUserIdHex : String
  envelope : Envelope
  manifest : ChunkManifest
  chunks : List Chunk
  chunkCount : ℕ
  recipientInboxKeys : List Bytes

section Sending

def manifestState (manifest : ChunkManifest) : TransportManifestState :=
  ⟨manifest.totalLen, manifest.chunks.map fun chunk => ⟨chunk.index, Hex.encode chunk.hash⟩⟩

def chunkStates (chunks : List Chunk) : List TransportChunkState :=
  chunks.map fun chunk => ⟨chunk.index, Hex.encode chunk.hash, Base64.encode chunk.data⟩

def inboxKeysForThread (threadState : ThreadState) (senderUserIdHex : String) :
    ClientResult (List Bytes) :=
  (threadState.members.filter (· ≠ senderUserIdHex)).mapM hexDecode

variable (crypto : Crypto) (manifestJson : Codec ChunkManifest)

def publishThreadMessageTransport (identity : IdentityState) (threadState : ThreadState)
    (plaintext nonce : Bytes) (publishedAt : UInt64) :
    ClientResult (ThreadMessage × TransportOutboxItem) × ThreadState :=
  let (result, threadState) :=
    encryptAndChunkMessage crypto identity threadState plaintext nonce
  (result.map fun message => (message, ⟨threadState.threadIdHex, manifestState message.manifest,
    chunkStates message.chunks, publishedAt⟩), threadState)

def OutgoingState.withThread (state : OutgoingState) (key : String) (threadState : ThreadState) :
    OutgoingState :=
  let threads := Function.update state.client.threads key (some threadState)
  { state with client := { state.client with threads } }

/-- The part of `send_thread_message_for_state` after the message has been sealed. -/
def dispatchMessage (state : OutgoingState) (key text senderUserIdHex : String)
    (threadState : ThreadState) (message : ThreadMessage) (outboxItem : TransportOutboxItem)
    (sentAt : UInt64) : ClientResult ThreadMessageDispatch × OutgoingState :=
  match inboxKeysForThread threadState senderUserIdHex with
  | .error fault => (.error fault, state)
  | .ok recipientInboxKeys =>
    let sent := state.messages key ++ [⟨senderUserIdHex, text, sentAt⟩]
    let state := { state with
      messages := Function.update state.messages key sent
      transportOutbox := state.transportOutbox ++ [outboxItem] }
    match stageTransportDeliveryForMembers crypto.sha256 manifestJson state.client
      threadState.members senderUserIdHex message.manifest message.chunks with
    | (.error fault, client) => (.error fault, { state with client })
    | (.ok (), client) => (.ok ⟨threadState.threadIdHex, senderUserIdHex, message.envelope,
        message.manifest, message.chunks, message.chunks.length, recipientInboxKeys⟩,
        { state with client })

/-- The thread is changed in place, so what sealing has stored stays. -/
def sendThreadMessageForState (state : OutgoingState) (threadIdHex text : String) (nonce : Bytes)
    (publishedAt sentAt : UInt64) : ClientResult ThreadMessageDispatch × OutgoingState :=
  match state.client.identity with
  | none => (.error (.returned .missingIdentity), state)
  | some identity =>
    match state.client.threads threadIdHex with
    | none => (.error (.returned .threadNotFound), state)
    | some threadState =>
      let (published, threadState) := publishThreadMessageTransport crypto
        identity.toIdentityState threadState (Value.utf8 text) nonce publishedAt
      let state := state.withThread threadIdHex threadState
      match published with
      | .error fault => (.error fault, state)
      | .ok (message, outboxItem) => dispatchMessage crypto manifestJson state threadIdHex text
          identity.userIdHex threadState message outboxItem sentAt

end Sending

section Sealing
variable {crypto : Crypto} {identity : IdentityState} {threadState : ThreadState}
  {groupSecret plaintext nonce ad : Bytes} {epoch : UInt32} {seq : UInt64}

/-- The texts decode to byte strings of the right length, and the cipher takes the
message. -/
def Sealable (crypto : Crypto) (identity : IdentityState) (threadState : ThreadState)
    (groupSecret : Bytes) (epoch : UInt32) (seq : UInt64) (plaintext nonce : Bytes) : Prop :=
  ∃ threadId cfgHash sender signingKey body,
    Hex.decode threadState.threadIdHex = some threadId ∧ threadId.length = 32 ∧
    Hex.decode threadState.cfgHashHex = some cfgHash ∧ cfgHash.length = 32 ∧
    Hex.decode identity.userIdHex = some sender ∧ sender.length < 2 ^ 64 ∧
    Hex.decode identity.signingKeyHex = some signingKey ∧ signingKey.length = 32 ∧
    crypto.encrypt (crypto.sha256 groupSecret) nonce plaintext (buildAd threadId epoch cfgHash
      threadState.protoSuite seq ((crypto.sha256 sender).take 20)) = some body ∧
    (nonce ++ body).length < 2 ^ 64

theorem messageAd_eq_ok_iff (hdigest : ∀ bytes, (crypto.sha256 bytes).length = 32) :
    messageAd crypto identity threadState epoch seq = .ok ad ↔
      ∃ threadId cfgHash sender, Hex.decode threadState.threadIdHex = some threadId ∧
        threadId.length = 32 ∧ Hex.decode threadState.cfgHashHex = some cfgHash ∧
        cfgHash.length = 32 ∧ Hex.decode identity.userIdHex = some sender ∧
        buildAd threadId epoch cfgHash threadState.protoSuite seq
          ((crypto.sha256 sender).take 20) = ad := by
  have hsender (sender : Bytes) : deriveSenderAdId crypto sender =
      some ((crypto.sha256 sender).take 20) := by
    simp [deriveSenderAdId, hashBytes_eq, hdigest]
  unfold messageAd
  simp only [bind_eq_ok, hexDecode_eq_ok, mapError_eq_ok, toFixed_eq_ok, hsender,
    Except.ok.injEq]
  constructor
  · rintro ⟨threadId, hthread, _, ⟨hthread32, rfl⟩, cfgHash, hcfg, _, ⟨hcfg32, rfl⟩, sender, hid,
      had⟩
    exact ⟨threadId, cfgHash, sender, hthread, hthread32, hcfg, hcfg32, hid, had⟩
  · rintro ⟨threadId, cfgHash, sender, hthread, hthread32, hcfg, hcfg32, hid, had⟩
    exact ⟨threadId, hthread, threadId, ⟨hthread32, rfl⟩, cfgHash, hcfg, cfgHash, ⟨hcfg32, rfl⟩,
      sender, hid, had⟩

theorem signingKeyFromHex_eq_ok_iff {signingKeyHex : String} {key : Bytes} :
    signingKeyFromHex signingKeyHex = .ok key ↔
      Hex.decode signingKeyHex = some key ∧ key.length = 32 := by
  constructor
  · intro h
    obtain ⟨bytes, hbytes, h⟩ := bind_eq_ok.mp h
    split_ifs at h with hlength
    obtain rfl := Except.ok.inj h
    exact ⟨hexDecode_eq_ok.mp hbytes, hlength⟩
  · rintro ⟨hkey, hlength⟩
    exact signingKeyFromHex_ok hkey hlength

theorem encryptPayload_eq_ok_iff (hdigest : ∀ bytes, (crypto.sha256 bytes).length = 32)
    {ciphertext : Bytes} :
    encryptPayloadWithAead crypto groupSecret plaintext ad nonce = .ok ciphertext ↔
      ∃ body, crypto.encrypt (crypto.sha256 groupSecret) nonce plaintext ad = some body ∧
        nonce ++ body = ciphertext := by
  simp only [encryptPayloadWithAead, hashBytes_eq, hdigest, ne_eq, not_true_eq_false, if_false]
  cases crypto.encrypt (crypto.sha256 groupSecret) nonce plaintext ad <;> simp

/-- An envelope that is encoded holds byte strings with lengths of 64 bits. -/
theorem Envelope.lengths_of_bytes {envelope : Envelope} {bytes : Bytes}
    (hextensions : envelope.extensions = ∅)
    (h : toCtap2CanonicalBytes envelope = .ok bytes) :
    envelope.senderUserId.length < 2 ^ 64 ∧ envelope.ciphertext.length < 2 ^ 64 := by
  have hfits : (fieldsToValue envelope.fields envelope.extensions).Fits := (encodeValue_eq_ok h).1
  have hdistinct : (envelope.fields.map Prod.fst).Nodup := by
    simp only [Envelope.fields, List.map_cons, List.map_nil]
    decide
  have hfield : ∀ key value, (key, some value) ∈ envelope.fields → value.Fits := by
    intro key value hmem
    have hget : (Overlay.overlay (FieldMap.ofFields envelope.fields)
        envelope.extensions)[key]? = some value := by
      rw [Overlay.getElem?_overlay, hextensions, Std.ExtTreeMap.getElem?_empty, Option.none_or,
        FieldMap.getElem?_ofFields hdistinct hmem]
    exact (((Value.fits_map _).mp hfits).2 _ (FieldMap.mem_entries.mpr hget)).2
  constructor
  · exact (Value.fits_bytes _).mp (hfield 3 _ (by simp [Envelope.fields]))
  · exact (Value.fits_bytes _).mp (hfield 4 _ (by simp [Envelope.fields]))

/-- A message can be sealed exactly if its parts can be made. -/
theorem seal_succeeds_iff (hdigest : ∀ bytes, (crypto.sha256 bytes).length = 32)
    (hsign : ∀ key hash, (crypto.sign key hash).length = 64) :
    (∃ message, sealMessage crypto identity threadState groupSecret epoch seq plaintext nonce =
      .ok message) ↔
    Sealable crypto identity threadState groupSecret epoch seq plaintext nonce := by
  constructor
  · rintro ⟨message, hseal⟩
    obtain ⟨ad, ciphertext, payload, had, hcipher, henvelope, hpayload, -⟩ := seal_parts hseal
    obtain ⟨threadId, cfgHash, sender, hthread, hthread32, hcfg, hcfg32, hid, rfl⟩ :=
      (messageAd_eq_ok_iff hdigest).mp had
    obtain ⟨body, hbody, rfl⟩ := (encryptPayload_eq_ok_iff hdigest).mp hcipher
    obtain ⟨_, sender', key, hash, -, hid', hkey, -, hmessage⟩ := buildEnvelope_parts henvelope
    obtain rfl := Option.some.inj (hid.symm.trans hid')
    obtain ⟨hkey, hkey32⟩ := signingKeyFromHex_eq_ok_iff.mp hkey
    have hlengths := Envelope.lengths_of_bytes (by rw [hmessage]) hpayload
    rw [hmessage] at hlengths
    exact ⟨threadId, cfgHash, sender, key, body, hthread, hthread32, hcfg, hcfg32, hid, hlengths.1,
      hkey, hkey32, hbody, hlengths.2⟩
  · rintro ⟨threadId, cfgHash, sender, key, body, hthread, hthread32, hcfg, hcfg32, hid, hid64,
      hkey, hkey32, hbody, hlength⟩
    have hequipped : Equipped crypto identity threadState := {
      threadId := ⟨threadId, hthread, hthread32⟩
      cfgHash := ⟨cfgHash, hcfg, hcfg32⟩
      sender := ⟨sender, hid, hid64, by simp [hdigest]⟩
      signingKey := ⟨key, hkey, hkey32, fun hash => by simp [hsign]⟩ }
    have had : messageAd crypto identity threadState epoch seq = .ok (buildAd threadId epoch cfgHash
        threadState.protoSuite seq ((crypto.sha256 sender).take 20)) :=
      (messageAd_eq_ok_iff hdigest).mpr
        ⟨threadId, cfgHash, sender, hthread, hthread32, hcfg, hcfg32, hid, rfl⟩
    exact hequipped.seals had (hdigest _) hbody hlength

theorem returns_hexDecode (text : String) : Returns (hexDecode text) := by
  unfold hexDecode
  cases Hex.decode text <;> simp [Returns]

theorem returns_coreFault {α : Type} (x : Except SpexError α) : Returns (x.mapError coreFault) :=
  returns_mapError (by simp [coreFault]) x

theorem returns_messageAd (hdigest : ∀ bytes, (crypto.sha256 bytes).length = 32) :
    Returns (messageAd crypto identity threadState epoch seq) := by
  unfold messageAd
  apply (returns_hexDecode _).bind
  intro threadIdBytes
  apply (returns_coreFault _).bind
  intro threadId
  apply (returns_hexDecode _).bind
  intro cfgHashBytes
  apply (returns_coreFault _).bind
  intro cfgHash
  apply (returns_hexDecode _).bind
  intro sender
  simp [Returns, deriveSenderAdId, hashBytes_eq, hdigest]

theorem returns_encryptPayload :
    Returns (encryptPayloadWithAead crypto groupSecret plaintext ad nonce) := by
  unfold encryptPayloadWithAead
  dsimp only
  split_ifs
  · simp [Returns]
  · split <;> simp [Returns]

theorem returns_buildEnvelope {ciphertext : Bytes} :
    Returns (buildEnvelope crypto identity threadState epoch seq ciphertext) := by
  unfold buildEnvelope
  apply (returns_hexDecode _).bind
  intro threadId
  apply (returns_hexDecode _).bind
  intro sender
  have hkey : Returns (signingKeyFromHex identity.signingKeyHex) := by
    apply (returns_hexDecode _).bind
    intro keyBytes
    split_ifs <;> simp [Returns]
  apply hkey.bind
  intro key
  apply (returns_coreFault _).bind
  intro hash
  simp [Returns, pure, Except.pure]

theorem returns_seal (hdigest : ∀ bytes, (crypto.sha256 bytes).length = 32) :
    Returns (sealMessage crypto identity threadState groupSecret epoch seq plaintext nonce) := by
  unfold sealMessage
  apply (returns_messageAd hdigest).bind
  intro ad
  apply returns_encryptPayload.bind
  intro ciphertext
  apply returns_buildEnvelope.bind
  intro envelope
  apply (returns_coreFault _).bind
  intro payload
  rw [chunkData_eq _ (by decide : 0 < defaultChunkSize)]
  simp [Returns]

end Sealing

section Counting
variable {crypto : Crypto} {identity : IdentityState} {threadState : ThreadState}
  {seed plaintext nonce : Bytes}

/-- The thread after a message has been counted. -/
def ThreadState.advanced (threadState : ThreadState) : ThreadState :=
  { threadState with
    nextSeq := saturatingSucc threadState.nextSeq
    epoch := memberCount threadState }

/-- Counting changes nothing once the counter is at its end. -/
theorem advanced_eq_self_iff : threadState.advanced = threadState ↔
    threadState.nextSeq = maxU64 ∧ threadState.epoch = memberCount threadState := by
  have hsucc : saturatingSucc threadState.nextSeq = threadState.nextSeq ↔
      threadState.nextSeq = maxU64 := by
    constructor
    · intro h
      by_contra hne
      have hnat := toNat_add_one hne
      rw [saturatingSucc, if_neg hne] at h
      rw [h] at hnat
      omega
    · intro h
      rw [saturatingSucc, if_pos h]
  rw [← hsucc]
  constructor
  · intro h
    exact ⟨congrArg ThreadState.nextSeq h, (congrArg ThreadState.epoch h).symm⟩
  · rintro ⟨hseq, hepoch⟩
    rw [ThreadState.advanced, hseq, ← hepoch]

theorem encrypt_of_stored (h : Stored seed threadState)
    (hcount : (memberCount threadState).toNat < 2 ^ 32) :
    encryptAndChunkMessage crypto identity threadState plaintext nonce =
      (sealMessage crypto identity threadState.advanced
        (secretAt crypto.sha256 seed threadState.members.length)
        (memberCount threadState).toUInt32 threadState.nextSeq plaintext nonce,
        threadState.advanced) := by
  obtain ⟨group, hrebuild, hreplays⟩ := h.rebuild crypto.sha256
  have hepoch : group.epoch = memberCount threadState := hreplays.epoch
  rw [encryptAndChunkMessage, hrebuild]
  dsimp only
  rw [hepoch, if_pos hcount, hreplays.secrets]
  rfl

variable (crypto identity plaintext nonce) in
/-- A thread whose group cannot be built, or has too many members, is left alone. -/
theorem encrypt_of_not_stored
    (h : ∀ seed, Stored seed threadState → ¬ (memberCount threadState).toNat < 2 ^ 32) :
    ∃ fault, encryptAndChunkMessage crypto identity threadState plaintext nonce =
      (.error fault, threadState) := by
  unfold encryptAndChunkMessage
  cases hrebuild : rebuildThreadGroup crypto.sha256 threadState with
  | error fault => exact ⟨fault, rfl⟩
  | ok group =>
    obtain ⟨seed, hstored⟩ := stored_of_rebuild hrebuild
    have hepoch : group.epoch = memberCount threadState := (rebuild_replays hrebuild hstored).epoch
    dsimp only
    rw [hepoch, if_neg (h seed hstored)]
    exact ⟨_, rfl⟩

end Counting

section Outcomes
variable {crypto : Crypto} {manifestJson : Codec ChunkManifest} {state : OutgoingState}
  {identity : LocalIdentity} {threadState : ThreadState} {threadIdHex text sender : String}
  {seed nonce : Bytes} {publishedAt sentAt : UInt64}

theorem inboxKeys_succeeds_iff :
    (∃ keys, inboxKeysForThread threadState sender = .ok keys) ↔
      ∀ member ∈ threadState.members, member ≠ sender →
        ∃ bytes, Hex.decode member = some bytes := by
  simp only [inboxKeysForThread, Batch.mapM_succeeds_iff, List.mem_filter, decide_eq_true_eq,
    and_imp, hexDecode_eq_ok]

/-- Once the ids of the members decode, nothing after it fails. -/
theorem dispatch_of_decodes (message : ThreadMessage) (outboxItem : TransportOutboxItem)
    (h : ∀ member ∈ threadState.members, member ≠ sender →
      ∃ bytes, Hex.decode member = some bytes) :
    ∃ dispatch, (dispatchMessage crypto manifestJson state threadIdHex text sender threadState
      message outboxItem sentAt).1 = .ok dispatch := by
  obtain ⟨keys, hkeys⟩ := inboxKeys_succeeds_iff.mpr h
  obtain ⟨gossip, hgossip⟩ := stageForMembers_of_decodes crypto.sha256 h
    (Base64.encode (manifestJson.toVec message.manifest)) state.client.transportGossip
  rw [dispatchMessage, hkeys]
  dsimp only
  rw [stageTransportDeliveryForMembers, hgossip]
  exact ⟨_, rfl⟩

theorem dispatch_of_not_decodes (message : ThreadMessage) (outboxItem : TransportOutboxItem)
    (h : ¬ ∀ member ∈ threadState.members, member ≠ sender →
      ∃ bytes, Hex.decode member = some bytes) :
    ∃ err, dispatchMessage crypto manifestJson state threadIdHex text sender threadState
      message outboxItem sentAt = (.error (.returned err), state) := by
  have hkeys : Returns (inboxKeysForThread threadState sender) := .mapM returns_hexDecode _
  obtain ⟨err, herr⟩ := hkeys.error_of_not_ok (h ∘ inboxKeys_succeeds_iff.mp)
  rw [dispatchMessage, herr]
  exact ⟨err, rfl⟩

/-- The message can be sealed and the ids of the other members are hexadecimal. -/
def Sendable (crypto : Crypto) (identity : LocalIdentity) (threadState : ThreadState)
    (seed : Bytes) (text : String) (nonce : Bytes) : Prop :=
  Sealable crypto identity.toIdentityState threadState
    (secretAt crypto.sha256 seed threadState.members.length)
    (memberCount threadState).toUInt32 threadState.nextSeq (Value.utf8 text) nonce ∧
  ∀ member ∈ threadState.members, member ≠ identity.userIdHex →
    ∃ bytes, Hex.decode member = some bytes

theorem withThread_eq_self_iff {threadState' : ThreadState}
    (h : state.client.threads threadIdHex = some threadState) :
    state.withThread threadIdHex threadState' = state ↔ threadState' = threadState := by
  constructor
  · intro hsame
    have hthread := congrArg (fun state => state.client.threads threadIdHex) hsame
    simp only [OutgoingState.withThread, Function.update_self, h] at hthread
    exact Option.some.inj hthread
  · rintro rfl
    rw [OutgoingState.withThread, ← h, Function.update_eq_self]

/-- A send that does not come to the counting leaves the state as it is. -/
theorem send_of_not_counted
    (h : ∀ identity threadState seed, state.client.identity = some identity →
      state.client.threads threadIdHex = some threadState → Stored seed threadState →
      ¬ (memberCount threadState).toNat < 2 ^ 32) :
    (sendThreadMessageForState crypto manifestJson state threadIdHex text nonce publishedAt
      sentAt).2 = state := by
  unfold sendThreadMessageForState
  cases hidentity : state.client.identity with
  | none => rfl
  | some identity =>
    cases hthread : state.client.threads threadIdHex with
    | none => rfl
    | some threadState =>
      obtain ⟨fault, hencrypt⟩ := encrypt_of_not_stored crypto identity.toIdentityState
        (Value.utf8 text) nonce fun seed => h identity threadState seed hidentity hthread
      dsimp only
      rw [publishThreadMessageTransport, hencrypt]
      exact (withThread_eq_self_iff hthread).mpr rfl

section Sent
variable (hdigest : ∀ bytes, (crypto.sha256 bytes).length = 32)
  (hsign : ∀ key hash, (crypto.sign key hash).length = 64)
  (hidentity : state.client.identity = some identity)
  (hthread : state.client.threads threadIdHex = some threadState)
  (hstored : Stored seed threadState) (hcount : (memberCount threadState).toNat < 2 ^ 32)

variable (manifestJson publishedAt sentAt) in
include hdigest hsign hidentity hthread hstored hcount in
theorem send_of_sendable (h : Sendable crypto identity threadState seed text nonce) :
    ∃ dispatch, (sendThreadMessageForState crypto manifestJson state threadIdHex text nonce
      publishedAt sentAt).1 = .ok dispatch := by
  have hsealable : Sealable crypto identity.toIdentityState threadState.advanced
      (secretAt crypto.sha256 seed threadState.members.length)
      (memberCount threadState).toUInt32 threadState.nextSeq (Value.utf8 text) nonce := h.1
  obtain ⟨message, hseal⟩ := (seal_succeeds_iff hdigest hsign).mpr hsealable
  rw [sendThreadMessageForState, hidentity]
  dsimp only
  rw [hthread]
  dsimp only
  rw [publishThreadMessageTransport, encrypt_of_stored hstored hcount, hseal]
  exact dispatch_of_decodes message _ h.2

variable (manifestJson publishedAt sentAt) in
include hdigest hsign hidentity hthread hstored hcount in
/-- A send that fails after the thread has been counted leaves only the counting. -/
theorem send_of_not_sendable (h : ¬ Sendable crypto identity threadState seed text nonce) :
    ∃ err, sendThreadMessageForState crypto manifestJson state threadIdHex text nonce
      publishedAt sentAt =
        (.error (.returned err), state.withThread threadIdHex threadState.advanced) := by
  rw [sendThreadMessageForState, hidentity]
  dsimp only
  rw [hthread]
  dsimp only
  rw [publishThreadMessageTransport, encrypt_of_stored hstored hcount]
  by_cases hseals : ∃ message, sealMessage crypto identity.toIdentityState threadState.advanced
      (secretAt crypto.sha256 seed threadState.members.length)
      (memberCount threadState).toUInt32 threadState.nextSeq (Value.utf8 text) nonce = .ok message
  · have hdecodes := not_and.mp h ((seal_succeeds_iff hdigest hsign).mp hseals)
    obtain ⟨message, hseal⟩ := hseals
    rw [hseal]
    exact dispatch_of_not_decodes message _ hdecodes
  · obtain ⟨err, herr⟩ := (returns_seal hdigest).error_of_not_ok hseals
    rw [herr]
    exact ⟨err, rfl⟩

end Sent

/-- A failed send changes nothing exactly if it fails before the message is counted, or
counting has come to its end. -/
theorem failed_send_unchanged_iff (hdigest : ∀ bytes, (crypto.sha256 bytes).length = 32)
    (hsign : ∀ key hash, (crypto.sign key hash).length = 64)
    (manifestJson : Codec ChunkManifest) (state : OutgoingState) (threadIdHex text : String)
    (nonce : Bytes) (publishedAt sentAt : UInt64) :
    (∀ err, (sendThreadMessageForState crypto manifestJson state threadIdHex text nonce
        publishedAt sentAt).1 = .error (.returned err) →
      (sendThreadMessageForState crypto manifestJson state threadIdHex text nonce
        publishedAt sentAt).2 = state) ↔
    ∀ identity threadState seed, state.client.identity = some identity →
      state.client.threads threadIdHex = some threadState → Stored seed threadState →
      (memberCount threadState).toNat < 2 ^ 32 →
      (threadState.nextSeq = maxU64 ∧ threadState.epoch = memberCount threadState) ∨
        Sendable crypto identity threadState seed text nonce := by
  constructor
  · intro h identity threadState seed hidentity hthread hstored hcount
    by_cases hsend : Sendable crypto identity threadState seed text nonce
    · exact .inr hsend
    · obtain ⟨err, herr⟩ := send_of_not_sendable manifestJson publishedAt sentAt hdigest hsign
        hidentity hthread hstored hcount hsend
      rw [herr] at h
      have hsame := (withThread_eq_self_iff hthread).mp (h err rfl)
      exact .inl (advanced_eq_self_iff.mp hsame)
  · intro h err herr
    by_cases hcounts : ∃ identity threadState seed, state.client.identity = some identity ∧
        state.client.threads threadIdHex = some threadState ∧ Stored seed threadState ∧
        (memberCount threadState).toNat < 2 ^ 32
    · obtain ⟨identity, threadState, seed, hidentity, hthread, hstored, hcount⟩ := hcounts
      have hsend : ¬ Sendable crypto identity threadState seed text nonce := by
        intro hsend
        obtain ⟨dispatch, hsent⟩ := send_of_sendable manifestJson publishedAt sentAt hdigest
          hsign hidentity hthread hstored hcount hsend
        rw [hsent] at herr
        cases herr
      obtain ⟨_, hfailed⟩ := send_of_not_sendable manifestJson publishedAt sentAt hdigest hsign
        hidentity hthread hstored hcount hsend
      have hcondition := h identity threadState seed hidentity hthread hstored hcount
      have hend := hcondition.resolve_right hsend
      rw [hfailed]
      exact (withThread_eq_self_iff hthread).mpr (advanced_eq_self_iff.mpr hend)
    · apply send_of_not_counted
      intro identity threadState seed hidentity hthread hstored hcount
      exact hcounts ⟨identity, threadState, seed, hidentity, hthread, hstored, hcount⟩

end Outcomes

section Sample

/-- The primitives of the sample, with digests of 32 bytes everywhere. -/
def sendCrypto : Crypto := { sampleCrypto with sha256 := Tabulated.padded sampleDigests 32 }

theorem length_sendDigest (bytes : Bytes) : (sendCrypto.sha256 bytes).length = 32 :=
  Tabulated.length_padded (by decide) bytes

/-- A thread with a member whose id is not hexadecimal. -/
def nicknamedThread (nextSeq : UInt64) : ThreadState := sampleAt ["bob", "aa"] nextSeq 2

def nicknamedState (nextSeq : UInt64) : OutgoingState where
  client := {
    identity := some ⟨sampleIdentity, ""⟩
    threads := fun id =>
      if id = Hex.encode sampleThreadId then some (nicknamedThread nextSeq) else none }

theorem nicknamed_thread (nextSeq : UInt64) : (nicknamedState nextSeq).client.threads
    (Hex.encode sampleThreadId) = some (nicknamedThread nextSeq) := by
  simp [nicknamedState]

theorem nicknamed_send (manifestJson : Codec ChunkManifest) (nextSeq : UInt64) :
    ∃ err, sendThreadMessageForState sendCrypto manifestJson (nicknamedState nextSeq)
      (Hex.encode sampleThreadId) "hi" (List.replicate 12 0x33) 1700000001 1700000001 =
        (.error (.returned err), (nicknamedState nextSeq).withThread (Hex.encode sampleThreadId)
          (nicknamedThread nextSeq).advanced) := by
  have hcount : (memberCount (nicknamedThread nextSeq)).toNat < 2 ^ 32 := by
    change (2 : UInt64).toNat < 2 ^ 32
    decide
  have hnickname : ¬ Sendable sendCrypto ⟨sampleIdentity, ""⟩ (nicknamedThread nextSeq) sampleSecret
      "hi" (List.replicate 12 0x33) := by
    intro h
    obtain ⟨bytes, hbytes⟩ := h.2 "bob" (by simp [nicknamedThread, sampleAt]) (by decide)
    have hnone : Hex.decode "bob" = none := by decide
    simp [hnone] at hbytes
  exact send_of_not_sendable manifestJson 1700000001 1700000001 length_sendDigest
    length_sampleSign rfl (nicknamed_thread nextSeq) (stored_sampleAt _ _ _) hcount hnickname

/-- A member named by a nickname: every send fails and uses up a sequence number. -/
theorem failed_send_counts_message :
    createThreadState sendCrypto.sha256 sampleIdentity ["bob"] sampleThreadId sampleSecret
        1700000000 = .ok (nicknamedThread 0) ∧
      ∀ manifestJson : Codec ChunkManifest, ∃ err,
        (sendThreadMessageForState sendCrypto manifestJson (nicknamedState 0)
          (Hex.encode sampleThreadId) "hi" (List.replicate 12 0x33) 1700000001 1700000001).1 =
            .error (.returned err) ∧
        (sendThreadMessageForState sendCrypto manifestJson (nicknamedState 0)
          (Hex.encode sampleThreadId) "hi" (List.replicate 12 0x33) 1700000001 1700000001).2 ≠
            nicknamedState 0 := by
  constructor
  · have hcfg := buildThreadCfgHash_eq sendCrypto.sha256 sampleConfig_bytes
    have hdigest : sendCrypto.sha256 sampleConfig = sampleCfgHash := by decide
    rw [hdigest] at hcfg
    exact createThreadState_eq hcfg (by decide) sampleIdentity ["bob"] sampleSecret 1700000000
  · intro manifestJson
    obtain ⟨err, hsend⟩ := nicknamed_send manifestJson 0
    rw [hsend]
    refine ⟨err, rfl, fun hsame => ?_⟩
    have hadvanced := (withThread_eq_self_iff (nicknamed_thread 0)).mp hsame
    have hend := (advanced_eq_self_iff.mp hadvanced).1
    cases hend

/-- At the end of the counter the same send fails and changes nothing. -/
theorem exhausted_send_unchanged :
    (∀ bytes, (sendCrypto.sha256 bytes).length = 32) ∧
      ∀ manifestJson : Codec ChunkManifest, ∃ err,
        (sendThreadMessageForState sendCrypto manifestJson (nicknamedState maxU64)
          (Hex.encode sampleThreadId) "hi" (List.replicate 12 0x33) 1700000001 1700000001).1 =
            .error (.returned err) ∧
        (sendThreadMessageForState sendCrypto manifestJson (nicknamedState maxU64)
          (Hex.encode sampleThreadId) "hi" (List.replicate 12 0x33) 1700000001 1700000001).2 =
            nicknamedState maxU64 := by
  refine ⟨length_sendDigest, fun manifestJson => ?_⟩
  obtain ⟨err, hsend⟩ := nicknamed_send manifestJson maxU64
  have hunchanged := (failed_send_unchanged_iff length_sendDigest length_sampleSign manifestJson
    (nicknamedState maxU64) (Hex.encode sampleThreadId) "hi" (List.replicate 12 0x33) 1700000001
    1700000001).mpr (by
      intro identity threadState seed _ hthread _ _
      obtain rfl := Option.some.inj ((nicknamed_thread maxU64).symm.trans hthread)
      exact .inl ⟨rfl, rfl⟩)
  have herr := congrArg Prod.fst hsend
  exact ⟨err, herr, hunchanged err herr⟩

end Sample

end Spex
