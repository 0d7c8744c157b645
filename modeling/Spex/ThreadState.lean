import Spex.MlsGroup
import Spex.Transport

/-!
# Thread state of the client

The client stores a thread as metadata: a list of members, a secret, a counter
of messages and an epoch. Whenever it needs the group it builds it again, by
adding the stored members one by one to a new group. Commits change the stored
members and the epoch; sending takes the epoch from the rebuilt group.
-/
namespace Spex
open Fallible Cbor

/-- The errors of the client crate that the modelled functions return. The
detail of an error in hexadecimal text, in JSON or in CBOR is left out. -/
inductive ClientError where
  | json
  | cbor
  | hex
  | missingIdentity
  | invalidCard
  | signatureInvalid
  | requestTargetMismatch
  | requestStale
  | requestReplay
  | threadNotFound
  | transport (message : Option String)
  | log (message : String)
  | mls (message : String)
  | crypto (message : String)
  | invalidPuzzle
  | grantInvalid
  | grantExpired
  | invalidAeadPayload
  | missingSignature
  | unknownSender (senderUserIdHex : String)
  | unauthorizedSender
  | invalidMessageEncoding
  | permissionDenied
  | revokedKeyNotFound
  | recoveryKeyInvalidOrExpired
  | core (message : String)
  deriving DecidableEq, Repr

abbrev ClientResult (α : Type) := Except (Fault ClientError) α

def mlsFault : Fault MlsError → Fault ClientError := Fault.map fun err => .mls err.message

def coreFault (err : SpexError) : Fault ClientError := .returned (.core err.message)

def hexDecode (text : String) : ClientResult Bytes :=
  match Hex.decode text with
  | some bytes => .ok bytes
  | none => .error (.returned .hex)

structure IdentityState where
  userIdHex : String
  signingKeyHex : String
  deriving DecidableEq, Repr

/-- A thread as it is stored. The group is rebuilt from it for every message. -/
structure ThreadState where
  threadIdHex : String
  members : List String
  createdAt : UInt64
  protoMajor : UInt16
  protoMinor : UInt16
  ciphersuiteId : UInt16
  cfgHashId : UInt16
  cfgHashHex : String
  flags : UInt8
  initialSecretHex : String
  nextSeq : UInt64
  epoch : UInt64
  deriving DecidableEq, Repr

def ThreadState.protoSuite (self : ThreadState) : ProtoSuite :=
  ⟨self.protoMajor, self.protoMinor, self.ciphersuiteId⟩

inductive MlsThreadEventKind where
  | rekey
  | membershipUpdated
  | membershipRemoved
  deriving DecidableEq, Repr

/-- What the application is told of a commit. -/
structure MlsThreadEvent where
  threadIdHex : String
  epoch : UInt64
  kind : MlsThreadEventKind
  memberId : Option String
  deriving DecidableEq, Repr

/-- `HashId::Sha256 as u16`. -/
def HashId.code : HashId → UInt16
  | .sha256 => 1

section Groups
variable (sha256 : Bytes → Bytes)

/-- The hash of the configuration that a thread starts with. -/
def buildThreadCfgHash (threadIdHex : String) (protoSuite : ProtoSuite) : ClientResult Bytes := do
  let threadId ← hexDecode threadIdHex
  let threadConfig : ThreadConfig := ⟨protoSuite.major, protoSuite.minor,
    protoSuite.ciphersuiteId, 0, threadId, [], ∅⟩
  (cfgHashForThreadConfig sha256 .sha256 threadConfig).mapError fun err =>
    .returned (.mls err.message)

/-- The members are added one by one, each in an epoch of its own. -/
def buildGroupForMembers (members : List String) (cfgHash : Bytes) (initialSecretHex : String)
    (protoSuite : ProtoSuite) : ClientResult Group := do
  let initialSecret ← hexDecode initialSecretHex
  let group ← (Group.create sha256
    ⟨protoSuite, 0, HashId.sha256.code, cfgHash, some initialSecret⟩).mapError mlsFault
  members.foldlM (fun group member =>
    (settled (Group.addMember sha256 group member)).mapError mlsFault) group

def rebuildThreadGroup (threadState : ThreadState) : ClientResult Group := do
  let cfgHash ← hexDecode threadState.cfgHashHex
  buildGroupForMembers sha256 threadState.members cfgHash threadState.initialSecretHex
    threadState.protoSuite

/-- Creation of a thread, with the two draws of `random_hex(32)` and the clock
as arguments. -/
def createThreadState (identity : IdentityState) (members : List String)
    (randomThreadId randomSecret : Bytes) (now : UInt64) : ClientResult ThreadState := do
  let members := if identity.userIdHex ∈ members then members else members ++ [identity.userIdHex]
  let threadId := Hex.encode randomThreadId
  let protoSuite : ProtoSuite := ⟨1, 1, 0x0001⟩
  let cfgHash ← buildThreadCfgHash sha256 threadId protoSuite
  let initialSecret := Hex.encode randomSecret
  let group ← buildGroupForMembers sha256 members cfgHash initialSecret protoSuite
  return {
    threadIdHex := threadId
    members := members
    createdAt := now
    protoMajor := protoSuite.major
    protoMinor := protoSuite.minor
    ciphersuiteId := protoSuite.ciphersuiteId
    cfgHashId := HashId.sha256.code
    cfgHashHex := Hex.encode cfgHash
    flags := 0
    initialSecretHex := initialSecret
    nextSeq := 0
    epoch := group.epoch }

end Groups

/-- One turn of the loop over added members, with the events so far. -/
def addThreadMember (threadIdHex : String) (epoch : UInt64)
    (acc : List String × List MlsThreadEvent) (member : String) :
    List String × List MlsThreadEvent :=
  if member ∈ acc.1 then acc
  else (acc.1 ++ [member], acc.2 ++ [⟨threadIdHex, epoch, .membershipUpdated, some member⟩])

/-- One turn of the loop over removed members: the first occurrence goes. -/
def removeThreadMember (threadIdHex : String) (epoch : UInt64)
    (acc : List String × List MlsThreadEvent) (member : String) :
    List String × List MlsThreadEvent :=
  match acc.1.idxOf? member with
  | some index =>
    (acc.1.eraseIdx index, acc.2 ++ [⟨threadIdHex, epoch, .membershipRemoved, some member⟩])
  | none => acc

/-- The events a commit emits, in order, and the state it leaves behind. -/
def applyThreadCommitWithEvents (threadState : ThreadState) (commit : Commit) :
    ClientResult (List MlsThreadEvent) × ThreadState :=
  if commit.epoch ≠ threadState.epoch + 1 then
    (.error (.returned (.mls
      (s!"out-of-order commit: expected epoch {(threadState.epoch + 1).toNat}" ++
        s!", received {commit.epoch.toNat}"))), threadState)
  else
    let added := commit.addedMembers.foldl
      (addThreadMember threadState.threadIdHex commit.epoch) (threadState.members, [])
    let removed := commit.removedMembers.foldl
      (removeThreadMember threadState.threadIdHex commit.epoch) added
    (.ok (removed.2 ++ [⟨threadState.threadIdHex, commit.epoch, .rekey, none⟩]),
      { threadState with members := removed.1, epoch := commit.epoch })

/-- What a ciphertext is bound to. -/
def buildAd (threadId : Bytes) (epoch : UInt32) (cfgHash : Bytes) (suite : ProtoSuite)
    (seq : UInt64) (senderUserid : Bytes) : Bytes :=
  threadId ++ u32Be epoch ++ cfgHash ++ u16Be suite.major ++ u16Be suite.minor ++
    u16Be suite.ciphersuiteId ++ u64Be seq ++ senderUserid

/-- The primitives behind a message: the hash, the cipher (key, nonce, message
and additional data; `none` is its error) and the signature (key and hash). -/
structure Crypto where
  sha256 : Bytes → Bytes
  encrypt : Bytes → Bytes → Bytes → Bytes → Option Bytes
  sign : Bytes → Bytes → Bytes

section Messages
variable (crypto : Crypto)

/-- The first 20 bytes of the digest; `none` is the panic of a shorter one. -/
def deriveSenderAdId (senderId : Bytes) : Option Bytes :=
  let digest := hashBytes crypto.sha256 .sha256 senderId
  if 20 ≤ digest.length then some (digest.take 20) else none

/-- The nonce is put before the ciphertext. -/
def encryptPayloadWithAead (groupSecret plaintext ad nonce : Bytes) : ClientResult Bytes :=
  let key := hashBytes crypto.sha256 .sha256 groupSecret
  if key.length ≠ 32 then .error (.returned (.crypto "Invalid Length"))
  else match crypto.encrypt key nonce plaintext ad with
    | none => .error (.returned (.crypto "aead::Error"))
    | some ciphertext => .ok (nonce ++ ciphertext)

def signingKeyFromHex (signingKeyHex : String) : ClientResult Bytes := do
  let keyBytes ← hexDecode signingKeyHex
  if keyBytes.length = 32 then .ok keyBytes else .error (.returned .signatureInvalid)

/-- The signature covers the envelope without it. -/
def buildEnvelope (identity : IdentityState) (threadState : ThreadState) (epoch : UInt32)
    (seq : UInt64) (ciphertext : Bytes) : ClientResult Envelope := do
  let threadId ← hexDecode threadState.threadIdHex
  let senderUserId ← hexDecode identity.userIdHex
  let envelope : Envelope := ⟨threadId, epoch, seq, senderUserId, ciphertext, none, ∅⟩
  let signingKey ← signingKeyFromHex identity.signingKeyHex
  let hash ← (hashCtap2CborValue crypto.sha256 .sha256 envelope).mapError coreFault
  return { envelope with signature := some (crypto.sign signingKey hash) }

/-- The additional data of a message. -/
def messageAd (identity : IdentityState) (threadState : ThreadState) (epoch : UInt32)
    (seq : UInt64) : ClientResult Bytes := do
  let threadIdBytes ← hexDecode threadState.threadIdHex
  let threadId ← (toFixed 32 threadIdBytes).mapError coreFault
  let cfgHashBytes ← hexDecode threadState.cfgHashHex
  let cfgHash ← (toFixed 32 cfgHashBytes).mapError coreFault
  let senderIdBytes ← hexDecode identity.userIdHex
  match deriveSenderAdId crypto senderIdBytes with
  | none => .error .panicked
  | some senderAdId => .ok (buildAd threadId epoch cfgHash threadState.protoSuite seq senderAdId)

/-- A sealed message, cut into chunks. -/
structure ThreadMessage where
  envelope : Envelope
  manifest : ChunkManifest
  chunks : List Chunk

/-- `ChunkingConfig::default().chunk_size`. -/
def defaultChunkSize : ℕ := 32 * 1024

/-- The part of `encrypt_and_chunk_message` after the thread has been updated. -/
def sealMessage (identity : IdentityState) (threadState : ThreadState) (groupSecret : Bytes)
    (epoch : UInt32) (seq : UInt64) (plaintext nonce : Bytes) : ClientResult ThreadMessage := do
  let ad ← messageAd crypto identity threadState epoch seq
  let ciphertext ← encryptPayloadWithAead crypto groupSecret plaintext ad nonce
  let envelope ← buildEnvelope crypto identity threadState epoch seq ciphertext
  let payload ← (toCtap2CanonicalBytes envelope).mapError coreFault
  match chunkData (hashBytes crypto.sha256 .sha256) defaultChunkSize payload with
  | none => .error .panicked
  | some chunks => .ok ⟨envelope, manifestOf chunks payload, chunks⟩

/-- `u64::MAX`. -/
def maxU64 : UInt64 := 0xffffffffffffffff

/-- `saturating_add(1)`. -/
def saturatingSucc (n : UInt64) : UInt64 := if n = maxU64 then n else n + 1

theorem toNat_maxU64 : maxU64.toNat = 2 ^ 64 - 1 := rfl

theorem toNat_add_one {n : UInt64} (h : n ≠ maxU64) : (n + 1).toNat = n.toNat + 1 := by
  have hlt := n.toNat_lt
  have hne : n.toNat ≠ 2 ^ 64 - 1 := fun he => h (UInt64.toNat_inj.mp (he.trans toNat_maxU64.symm))
  rw [UInt64.toNat_add, UInt64.toNat_one]
  omega

theorem toNat_saturatingSucc (n : UInt64) :
    (saturatingSucc n).toNat = min (n.toNat + 1) (2 ^ 64 - 1) := by
  have hlt := n.toNat_lt
  unfold saturatingSucc
  split_ifs with h
  · rw [h, toNat_maxU64]
    rfl
  · rw [toNat_add_one h]
    have hbound := (n + 1).toNat_lt
    rw [toNat_add_one h] at hbound
    omega

/-- Sending, with the random nonce as an argument: the message and the state it
leaves behind. The counter and the epoch are stored before anything that can
fail after the rebuild. -/
def encryptAndChunkMessage (identity : IdentityState) (threadState : ThreadState)
    (plaintext nonce : Bytes) : ClientResult ThreadMessage × ThreadState :=
  match rebuildThreadGroup crypto.sha256 threadState with
  | .error fault => (.error fault, threadState)
  | .ok group =>
    if group.epoch.toNat < 2 ^ 32 then
      let stored := { threadState with
        nextSeq := saturatingSucc threadState.nextSeq
        epoch := group.epoch }
      (sealMessage crypto identity stored group.secrets.groupSecret group.epoch.toUInt32
        threadState.nextSeq plaintext nonce, stored)
    else (.error (.returned .invalidAeadPayload), threadState)

def sendThreadMessage (identity : IdentityState) (threadState : ThreadState)
    (plaintext nonce : Bytes) : ClientResult ThreadMessage × ThreadState :=
  encryptAndChunkMessage crypto identity threadState plaintext nonce

end Messages

section Rebuild
variable {sha256 : Bytes → Bytes} {seed cfgHash randomThreadId : Bytes} {threadState : ThreadState}
  {group : Group} {initialSecretHex : String} {members : List String}

theorem hexDecode_eq_ok {text : String} {bytes : Bytes} :
    hexDecode text = .ok bytes ↔ Hex.decode text = some bytes := by
  unfold hexDecode
  cases Hex.decode text <;> simp

theorem buildMembers_replays {entries : List String} (h : Replays sha256 seed entries group)
    (members : List String) :
    ∃ group', members.foldlM (fun group member =>
        (settled (Group.addMember sha256 group member)).mapError mlsFault) group = .ok group' ∧
      Replays sha256 seed (entries ++ members) group' := by
  induction members generalizing entries group with
  | nil => exact ⟨group, rfl, by simpa using h⟩
  | cons member members ih =>
    obtain ⟨next, hsettled, hnext⟩ := h.addMember member
    obtain ⟨group', hrest, hreplays⟩ := ih hnext
    refine ⟨group', ?_, by simpa using hreplays⟩
    rw [List.foldlM_cons, mapError_eq_ok.mpr hsettled]
    exact hrest

variable (sha256) in
/-- The group builds when the configuration hash fits its extension. -/
theorem buildGroupForMembers_replays (hseed : Hex.decode initialSecretHex = some seed)
    (hshort : cfgHash.length ≤ 255) (members : List String) (protoSuite : ProtoSuite) :
    ∃ group, buildGroupForMembers sha256 members cfgHash initialSecretHex protoSuite = .ok group ∧
      Replays sha256 seed members group := by
  obtain ⟨created, hcreate, hreplays⟩ := Group.create_replays sha256
    ⟨protoSuite, 0, HashId.sha256.code, cfgHash, some seed⟩ rfl hshort rfl
  obtain ⟨group, hbuild, hgroup⟩ := buildMembers_replays hreplays members
  refine ⟨group, ?_, hgroup⟩
  rw [buildGroupForMembers, hexDecode_eq_ok.mpr hseed, ok_bind, mapError_eq_ok.mpr hcreate, ok_bind]
  exact hbuild

theorem cfgHash_le_of_build {protoSuite : ProtoSuite}
    (h : buildGroupForMembers sha256 members cfgHash initialSecretHex protoSuite = .ok group) :
    cfgHash.length ≤ 255 := by
  obtain ⟨initialSecret, -, h⟩ := bind_eq_ok.mp h
  obtain ⟨created, hcreate, -⟩ := bind_eq_ok.mp h
  by_contra hlong
  rw [mapError_eq_ok] at hcreate
  simp [Group.create, hashIdFromU16, HashId.code, GroupContext.rebuildExtensions, mlsExtensions,
    extCfgHashBytes, hlong] at hcreate

/-- The thread holds a readable secret and a configuration hash that fits. -/
structure Stored (seed : Bytes) (threadState : ThreadState) : Prop where
  secret : Hex.decode threadState.initialSecretHex = some seed
  cfgHash : ∃ cfgHash, Hex.decode threadState.cfgHashHex = some cfgHash ∧ cfgHash.length ≤ 255

variable (sha256) in
/-- A rebuilt group has one epoch for each stored member. -/
theorem Stored.rebuild (h : Stored seed threadState) :
    ∃ group, rebuildThreadGroup sha256 threadState = .ok group ∧
      Replays sha256 seed threadState.members group := by
  obtain ⟨cfgHash, hcfg, hshort⟩ := h.cfgHash
  obtain ⟨group, hbuild, hreplays⟩ := buildGroupForMembers_replays sha256 h.secret
    hshort threadState.members threadState.protoSuite
  refine ⟨group, ?_, hreplays⟩
  rw [rebuildThreadGroup, hexDecode_eq_ok.mpr hcfg, ok_bind, hbuild]

theorem stored_of_rebuild (h : rebuildThreadGroup sha256 threadState = .ok group) :
    ∃ seed, Stored seed threadState := by
  obtain ⟨cfgHash, hcfg, hbuild⟩ := bind_eq_ok.mp h
  have hshort := cfgHash_le_of_build hbuild
  obtain ⟨seed, hseed, -⟩ := bind_eq_ok.mp hbuild
  exact ⟨seed, hexDecode_eq_ok.mp hseed, cfgHash, hexDecode_eq_ok.mp hcfg, hshort⟩

theorem rebuild_replays (h : rebuildThreadGroup sha256 threadState = .ok group)
    (hs : Stored seed threadState) : Replays sha256 seed threadState.members group := by
  obtain ⟨group', hrebuild, hreplays⟩ := hs.rebuild sha256
  rw [h] at hrebuild
  rwa [Except.ok.inj hrebuild]

/-- A new thread can be rebuilt, and its epoch counts its members. -/
theorem stored_of_create {identity : IdentityState} {randomSecret : Bytes} {now : UInt64}
    (h : createThreadState sha256 identity members randomThreadId randomSecret now =
      .ok threadState) :
    Stored randomSecret threadState ∧
      threadState.epoch = UInt64.ofNat threadState.members.length := by
  obtain ⟨cfgHash, -, h⟩ := bind_eq_ok.mp h
  obtain ⟨group, hbuild, h⟩ := bind_eq_ok.mp h
  have hshort := cfgHash_le_of_build hbuild
  obtain ⟨group', hbuild', hreplays⟩ := buildGroupForMembers_replays sha256
    (Hex.decode_encode randomSecret) hshort
    (if identity.userIdHex ∈ members then members else members ++ [identity.userIdHex]) ⟨1, 1, 1⟩
  have hgroup : group = group' := Except.ok.inj (hbuild.symm.trans hbuild')
  rw [← Except.ok.inj h]
  refine ⟨⟨Hex.decode_encode randomSecret, cfgHash, Hex.decode_encode cfgHash, hshort⟩, ?_⟩
  rw [hgroup]
  exact hreplays.epoch

variable (sha256) in
theorem buildThreadCfgHash_eq {threadId bytes : Bytes}
    (h : toCtap2CanonicalBytes (⟨1, 1, 1, 0, threadId, [], ∅⟩ : ThreadConfig) = .ok bytes) :
    buildThreadCfgHash sha256 (Hex.encode threadId) ⟨1, 1, 1⟩ = .ok (sha256 bytes) := by
  rw [buildThreadCfgHash, hexDecode_eq_ok.mpr (Hex.decode_encode threadId), ok_bind,
    mapError_eq_ok, cfgHashForThreadConfig, mapError_eq_ok, hashCtap2CborValue, h]
  rfl

/-- Creation succeeds when the configuration hash fits its extension. -/
theorem createThreadState_eq
    (hcfg : buildThreadCfgHash sha256 (Hex.encode randomThreadId) ⟨1, 1, 1⟩ = .ok cfgHash)
    (hshort : cfgHash.length ≤ 255) (identity : IdentityState) (members : List String)
    (randomSecret : Bytes) (now : UInt64) :
    createThreadState sha256 identity members randomThreadId randomSecret now =
      .ok ⟨Hex.encode randomThreadId, Roster.pushNew members identity.userIdHex, now, 1, 1, 1, 1,
        Hex.encode cfgHash, 0, Hex.encode randomSecret, 0,
        UInt64.ofNat (Roster.pushNew members identity.userIdHex).length⟩ := by
  obtain ⟨group, hbuild, hreplays⟩ := buildGroupForMembers_replays sha256
    (Hex.decode_encode randomSecret) hshort (Roster.pushNew members identity.userIdHex) ⟨1, 1, 1⟩
  rw [createThreadState, hcfg, ok_bind]
  dsimp only
  rw [← Roster.pushNew, hbuild, ok_bind, hreplays.epoch]
  rfl

end Rebuild

section Steps
variable {threadState : ThreadState} {commit : Commit} {message : ThreadMessage} {epoch : UInt32}
  {seq : UInt64} {groupSecret : Bytes}

theorem foldl_addThreadMember (threadIdHex : String) (epoch : UInt64)
    (acc : List String × List MlsThreadEvent) (members : List String) :
    (members.foldl (addThreadMember threadIdHex epoch) acc).1 = Roster.pushAll acc.1 members := by
  induction members generalizing acc with
  | nil => rfl
  | cons member members ih =>
    rw [List.foldl_cons, ih, Roster.pushAll_cons, Roster.pushNew, addThreadMember]
    split <;> rfl

theorem foldl_removeThreadMember (threadIdHex : String) (epoch : UInt64)
    (acc : List String × List MlsThreadEvent) (members : List String) :
    (members.foldl (removeThreadMember threadIdHex epoch) acc).1 = acc.1.diff members := by
  induction members generalizing acc with
  | nil => rfl
  | cons member members ih =>
    rw [List.foldl_cons, ih, List.diff_cons, removeThreadMember, List.erase_eq_eraseIdx]
    cases acc.1.idxOf? member <;> rfl

/-- The members a thread stores after a commit. -/
def membersAfter (members : List String) (commit : Commit) : List String :=
  (Roster.pushAll members commit.addedMembers).diff commit.removedMembers

theorem applyThreadCommit_of_next (h : commit.epoch = threadState.epoch + 1) :
    (∃ events, (applyThreadCommitWithEvents threadState commit).1 = .ok events) ∧
      (applyThreadCommitWithEvents threadState commit).2 = { threadState with
        members := membersAfter threadState.members commit
        epoch := commit.epoch } := by
  rw [applyThreadCommitWithEvents, if_neg (not_not_intro h)]
  refine ⟨⟨_, rfl⟩, ?_⟩
  dsimp only
  rw [foldl_removeThreadMember, foldl_addThreadMember, membersAfter]

theorem applyThreadCommit_of_not_next (h : commit.epoch ≠ threadState.epoch + 1) :
    ∃ fault, applyThreadCommitWithEvents threadState commit = (.error fault, threadState) := by
  rw [applyThreadCommitWithEvents, if_pos h]
  exact ⟨_, rfl⟩

theorem next_of_isOk (h : (applyThreadCommitWithEvents threadState commit).1.isOk) :
    commit.epoch = threadState.epoch + 1 := by
  by_contra hne
  obtain ⟨fault, hrefused⟩ := applyThreadCommit_of_not_next hne
  rw [hrefused] at h
  cases h

variable {crypto : Crypto} {identity : IdentityState} {plaintext nonce : Bytes}

/-- The state after a message of the rebuilt group has been counted. -/
def ThreadState.counted (threadState : ThreadState) (group : Group) : ThreadState :=
  { threadState with nextSeq := saturatingSucc threadState.nextSeq, epoch := group.epoch }

variable (threadState crypto identity plaintext nonce) in
/-- A call that sends leaves the thread as it was or counts one message. -/
theorem encrypt_state : (encryptAndChunkMessage crypto identity threadState plaintext nonce).2 =
      threadState ∨
    ∃ group, rebuildThreadGroup crypto.sha256 threadState = .ok group ∧
      (encryptAndChunkMessage crypto identity threadState plaintext nonce).2 =
        threadState.counted group := by
  unfold encryptAndChunkMessage
  cases hgroup : rebuildThreadGroup crypto.sha256 threadState with
  | error fault => exact .inl rfl
  | ok group =>
    dsimp only
    split
    · exact .inr ⟨group, rfl, rfl⟩
    · exact .inl rfl

theorem encrypt_eq_ok
    (h : (encryptAndChunkMessage crypto identity threadState plaintext nonce).1 = .ok message) :
    ∃ group, rebuildThreadGroup crypto.sha256 threadState = .ok group ∧
      group.epoch.toNat < 2 ^ 32 ∧
      (encryptAndChunkMessage crypto identity threadState plaintext nonce).2 =
        threadState.counted group ∧
      sealMessage crypto identity (threadState.counted group) group.secrets.groupSecret
        group.epoch.toUInt32 threadState.nextSeq plaintext nonce = .ok message := by
  unfold encryptAndChunkMessage at h ⊢
  cases hgroup : rebuildThreadGroup crypto.sha256 threadState with
  | error fault =>
    rw [hgroup] at h
    cases h
  | ok group =>
    rw [hgroup] at h
    dsimp only at h ⊢
    split at h
    · rename_i hlt
      rw [if_pos hlt]
      exact ⟨group, rfl, hlt, rfl, h⟩
    · cases h

/-- The parts of a sealed message. -/
theorem seal_parts
    (h : sealMessage crypto identity threadState groupSecret epoch seq plaintext nonce =
      .ok message) :
    ∃ ad ciphertext payload, messageAd crypto identity threadState epoch seq = .ok ad ∧
      encryptPayloadWithAead crypto groupSecret plaintext ad nonce = .ok ciphertext ∧
      buildEnvelope crypto identity threadState epoch seq ciphertext = .ok message.envelope ∧
      toCtap2CanonicalBytes message.envelope = .ok payload ∧
      chunkData (hashBytes crypto.sha256 .sha256) defaultChunkSize payload = some message.chunks ∧
      message.manifest = manifestOf message.chunks payload := by
  obtain ⟨ad, had, h⟩ := bind_eq_ok.mp h
  obtain ⟨ciphertext, hciphertext, h⟩ := bind_eq_ok.mp h
  obtain ⟨envelope, henvelope, h⟩ := bind_eq_ok.mp h
  obtain ⟨payload, hpayload, h⟩ := bind_eq_ok.mp h
  split at h
  · cases h
  · rename_i chunks hchunks
    obtain rfl := Except.ok.inj h
    exact ⟨ad, ciphertext, payload, had, hciphertext, henvelope, mapError_eq_ok.mp hpayload,
      hchunks, rfl⟩

/-- The parts of a signed envelope. -/
theorem buildEnvelope_parts {ciphertext : Bytes} {envelope : Envelope}
    (h : buildEnvelope crypto identity threadState epoch seq ciphertext = .ok envelope) :
    ∃ threadId senderUserId signingKey hash,
      Hex.decode threadState.threadIdHex = some threadId ∧
      Hex.decode identity.userIdHex = some senderUserId ∧
      signingKeyFromHex identity.signingKeyHex = .ok signingKey ∧
      hashCtap2CborValue crypto.sha256 .sha256
        (⟨threadId, epoch, seq, senderUserId, ciphertext, none, ∅⟩ : Envelope) = .ok hash ∧
      envelope = ⟨threadId, epoch, seq, senderUserId, ciphertext,
        some (crypto.sign signingKey hash), ∅⟩ := by
  obtain ⟨threadId, hthread, h⟩ := bind_eq_ok.mp h
  obtain ⟨senderUserId, hsender, h⟩ := bind_eq_ok.mp h
  obtain ⟨signingKey, hkey, h⟩ := bind_eq_ok.mp h
  obtain ⟨hash, hhash, h⟩ := bind_eq_ok.mp h
  exact ⟨threadId, senderUserId, signingKey, hash, hexDecode_eq_ok.mp hthread,
    hexDecode_eq_ok.mp hsender, hkey, mapError_eq_ok.mp hhash, (Except.ok.inj h).symm⟩

/-- The envelope of a sealed message carries the position it was sealed for. -/
theorem seal_eq_ok
    (h : sealMessage crypto identity threadState groupSecret epoch seq plaintext nonce =
      .ok message) :
    message.envelope.epoch = epoch ∧ message.envelope.seq = seq ∧
      ∃ ad, messageAd crypto identity threadState epoch seq = .ok ad := by
  obtain ⟨ad, ciphertext, payload, had, -, henvelope, -⟩ := seal_parts h
  obtain ⟨_, _, _, _, -, -, -, -, hmessage⟩ := buildEnvelope_parts henvelope
  rw [hmessage]
  exact ⟨rfl, rfl, ad, had⟩

end Steps

section AdditionalData
variable {crypto : Crypto}

lemma toFixed_eq_ok {n : ℕ} {bytes fixed : Bytes} :
    toFixed n bytes = .ok fixed ↔ bytes.length = n ∧ bytes = fixed := by
  unfold toFixed
  split_ifs with hlength
  · simp [hlength]
  · simp [not_not.mp hlength]

theorem messageAd_eq_ok {identity : IdentityState} {threadState : ThreadState} {epoch : UInt32}
    {seq : UInt64} {ad : Bytes} (h : messageAd crypto identity threadState epoch seq = .ok ad) :
    ∃ threadId cfgHash sender : Bytes, threadId.length = 32 ∧ cfgHash.length = 32 ∧
      ad = buildAd threadId epoch cfgHash threadState.protoSuite seq sender := by
  obtain ⟨threadIdBytes, -, h⟩ := bind_eq_ok.mp h
  obtain ⟨threadId, hthread, h⟩ := bind_eq_ok.mp h
  obtain ⟨cfgHashBytes, -, h⟩ := bind_eq_ok.mp h
  obtain ⟨cfgHash, hcfg, h⟩ := bind_eq_ok.mp h
  obtain ⟨senderIdBytes, -, h⟩ := bind_eq_ok.mp h
  obtain ⟨hthread32, rfl⟩ := toFixed_eq_ok.mp (mapError_eq_ok.mp hthread)
  obtain ⟨hcfg32, rfl⟩ := toFixed_eq_ok.mp (mapError_eq_ok.mp hcfg)
  split at h
  · cases h
  · exact ⟨threadIdBytes, cfgHashBytes, _, hthread32, hcfg32, (Except.ok.inj h).symm⟩

/-- All fields before the sender have a fixed width, so additional data
determines the position. -/
theorem position_of_buildAd_eq {threadId threadId' cfgHash cfgHash' sender sender' : Bytes}
    {epoch epoch' : UInt32} {suite suite' : ProtoSuite} {seq seq' : UInt64}
    (hthread : threadId.length = threadId'.length) (hcfg : cfgHash.length = cfgHash'.length)
    (h : buildAd threadId epoch cfgHash suite seq sender =
      buildAd threadId' epoch' cfgHash' suite' seq' sender') : epoch = epoch' ∧ seq = seq' := by
  simp only [buildAd, List.append_assoc] at h
  obtain ⟨-, h⟩ := List.append_inj h hthread
  obtain ⟨hepoch, h⟩ := List.append_inj h (by simp [u32Be])
  obtain ⟨-, h⟩ := List.append_inj h hcfg
  obtain ⟨-, h⟩ := List.append_inj h (by simp [u16Be])
  obtain ⟨-, h⟩ := List.append_inj h (by simp [u16Be])
  obtain ⟨-, h⟩ := List.append_inj h (by simp [u16Be])
  obtain ⟨hseq, -⟩ := List.append_inj h (by simp [u64Be])
  exact ⟨UInt32.toNat_inj.mp (BigEndian.write_inj epoch.toNat_lt epoch'.toNat_lt hepoch),
    UInt64.toNat_inj.mp (BigEndian.write_inj seq.toNat_lt seq'.toNat_lt hseq)⟩

end AdditionalData

section Success
variable {crypto : Crypto} {identity : IdentityState} {threadState : ThreadState}

theorem Envelope.bytes_eq {threadId senderUserId ciphertext : Bytes} (epoch : UInt32)
    (seq : UInt64) (signature : Option Bytes) (hthread : threadId.length < 2 ^ 64)
    (hsender : senderUserId.length < 2 ^ 64) (hciphertext : ciphertext.length < 2 ^ 64)
    (hsignature : ∀ bytes ∈ signature, bytes.length < 2 ^ 64) :
    ∃ bytes, toCtap2CanonicalBytes
      (⟨threadId, epoch, seq, senderUserId, ciphertext, signature, ∅⟩ : Envelope) = .ok bytes := by
  have hepoch := epoch.toNat_lt
  have hseq := seq.toNat_lt
  refine ⟨_, encodeValue_of_fits ?_⟩
  refine fits_bare (by simp [Envelope.fields]) ?_
  simp only [Envelope.fields, List.forall_mem_cons, Option.mem_def, Option.some.injEq,
    forall_eq', Value.fits_bytes, Value.fits_integer, Option.map_eq_some_iff]
  refine ⟨hthread, by omega, by omega, hsender, hciphertext, ?_, by simp⟩
  rintro _ ⟨bytes, hbytes, rfl⟩
  exact (Value.fits_bytes bytes).mpr (hsignature bytes hbytes)

/-- What a sender and a thread need for messages to go out. -/
structure Equipped (crypto : Crypto) (identity : IdentityState) (threadState : ThreadState) :
    Prop where
  threadId : ∃ bytes, Hex.decode threadState.threadIdHex = some bytes ∧ bytes.length = 32
  cfgHash : ∃ bytes, Hex.decode threadState.cfgHashHex = some bytes ∧ bytes.length = 32
  sender : ∃ bytes, Hex.decode identity.userIdHex = some bytes ∧ bytes.length < 2 ^ 64 ∧
    20 ≤ (crypto.sha256 bytes).length
  signingKey : ∃ bytes, Hex.decode identity.signingKeyHex = some bytes ∧ bytes.length = 32 ∧
    ∀ hash, (crypto.sign bytes hash).length < 2 ^ 64

theorem Equipped.messageAd_ok (h : Equipped crypto identity threadState) (epoch : UInt32)
    (seq : UInt64) : ∃ ad, messageAd crypto identity threadState epoch seq = .ok ad := by
  obtain ⟨threadId, hthread, hthread32⟩ := h.threadId
  obtain ⟨cfgHash, hcfg, hcfg32⟩ := h.cfgHash
  obtain ⟨sender, hsender, -, hdigest⟩ := h.sender
  simp [messageAd, hexDecode, hthread, hcfg, hsender, toFixed, hthread32, hcfg32, Except.mapError,
    deriveSenderAdId, hashBytes_eq, hdigest]

theorem signingKeyFromHex_ok {signingKeyHex : String} {key : Bytes}
    (hkey : Hex.decode signingKeyHex = some key) (hlength : key.length = 32) :
    signingKeyFromHex signingKeyHex = .ok key := by
  rw [signingKeyFromHex, hexDecode_eq_ok.mpr hkey, ok_bind, if_pos hlength]

theorem Equipped.signingKey_ok (h : Equipped crypto identity threadState) :
    ∃ key, signingKeyFromHex identity.signingKeyHex = .ok key ∧
      ∀ hash, (crypto.sign key hash).length < 2 ^ 64 := by
  obtain ⟨key, hkey, hkey32, hsign⟩ := h.signingKey
  exact ⟨key, signingKeyFromHex_ok hkey hkey32, hsign⟩

theorem Equipped.envelope_ok (h : Equipped crypto identity threadState) (epoch : UInt32)
    (seq : UInt64) {ciphertext : Bytes} (hciphertext : ciphertext.length < 2 ^ 64) :
    ∃ envelope payload, buildEnvelope crypto identity threadState epoch seq ciphertext =
        .ok envelope ∧ toCtap2CanonicalBytes envelope = .ok payload := by
  obtain ⟨threadId, hthread, hthread32⟩ := h.threadId
  obtain ⟨sender, hsender, hsender64, -⟩ := h.sender
  obtain ⟨key, hkey, hsign⟩ := h.signingKey_ok
  have hthread64 : threadId.length < 2 ^ 64 := by omega
  obtain ⟨unsigned, hunsigned⟩ := Envelope.bytes_eq epoch seq none hthread64 hsender64 hciphertext
    (by simp)
  have hsigned : ∀ bytes ∈ some (crypto.sign key (hashBytes crypto.sha256 .sha256 unsigned)),
      bytes.length < 2 ^ 64 := by
    intro bytes hbytes
    rw [← Option.some.inj hbytes]
    exact hsign _
  obtain ⟨payload, hpayload⟩ :=
    Envelope.bytes_eq epoch seq _ hthread64 hsender64 hciphertext hsigned
  refine ⟨_, payload, ?_, hpayload⟩
  rw [buildEnvelope, hexDecode_eq_ok.mpr hthread, ok_bind, hexDecode_eq_ok.mpr hsender, ok_bind]
  dsimp only
  rw [hkey, ok_bind, hashCtap2CborValue, hunsigned, ok_bind]
  rfl

/-- A message is sealed under a key of the right length when the cipher takes it. -/
theorem Equipped.seals (h : Equipped crypto identity threadState) {epoch : UInt32} {seq : UInt64}
    {groupSecret plaintext nonce ad body : Bytes}
    (had : messageAd crypto identity threadState epoch seq = .ok ad)
    (hkey : (crypto.sha256 groupSecret).length = 32)
    (hcipher : crypto.encrypt (crypto.sha256 groupSecret) nonce plaintext ad = some body)
    (hlength : (nonce ++ body).length < 2 ^ 64) :
    ∃ message, sealMessage crypto identity threadState groupSecret epoch seq plaintext nonce =
      .ok message := by
  obtain ⟨envelope, payload, henvelope, hpayload⟩ := h.envelope_ok epoch seq hlength
  have haead : encryptPayloadWithAead crypto groupSecret plaintext ad nonce =
      .ok (nonce ++ body) := by
    simp [encryptPayloadWithAead, hashBytes_eq, hkey, hcipher]
  have hchunks := chunkData_eq (hashBytes crypto.sha256 .sha256)
    (by decide : 0 < defaultChunkSize) payload
  rw [sealMessage, had, ok_bind, haead, ok_bind, henvelope, ok_bind,
    mapError_eq_ok.mpr hpayload, ok_bind, hchunks]
  exact ⟨_, rfl⟩

/-- Sending succeeds under a key of the right length when the cipher does. -/
theorem Equipped.sends (h : Equipped crypto identity threadState) {plaintext nonce : Bytes}
    (seed : Bytes)
    (hseed : Hex.decode threadState.initialSecretHex = some seed)
    (hmembers : threadState.members.length < 2 ^ 32)
    (hkey : (crypto.sha256 (secretAt crypto.sha256 seed threadState.members.length)).length = 32)
    (hencrypt : ∀ key ad, key.length = 32 → ∃ ciphertext,
      crypto.encrypt key nonce plaintext ad = some ciphertext ∧
        (nonce ++ ciphertext).length < 2 ^ 64) :
    ∃ message, (encryptAndChunkMessage crypto identity threadState plaintext nonce).1 =
      .ok message := by
  obtain ⟨cfgHash, hcfg, hcfg32⟩ := h.cfgHash
  have hstored : Stored seed threadState := ⟨hseed, cfgHash, hcfg, by omega⟩
  obtain ⟨group, hrebuild, hreplays⟩ := hstored.rebuild crypto.sha256
  have hsmall : group.epoch.toNat < 2 ^ 32 := by
    have hword : threadState.members.length < 2 ^ 64 := by omega
    rwa [hreplays.epoch, UInt64.toNat_ofNat_of_lt' hword]
  have hcounted : Equipped crypto identity (threadState.counted group) :=
    ⟨h.threadId, h.cfgHash, h.sender, h.signingKey⟩
  obtain ⟨ad, had⟩ := hcounted.messageAd_ok group.epoch.toUInt32 threadState.nextSeq
  have hkey' : (crypto.sha256 group.secrets.groupSecret).length = 32 := by
    rwa [hreplays.secrets]
  obtain ⟨ciphertext, hcipher, hlength⟩ := hencrypt _ ad hkey'
  have hseal := hcounted.seals had hkey' hcipher hlength
  rw [encryptAndChunkMessage, hrebuild]
  dsimp only
  rw [if_pos hsmall]
  exact hseal

end Success
end Spex
