import Spex.ThreadCommits

/-!
# Runs of a thread and its secrets

A run sends messages and applies commits in any order. The secret of a message
is the one of the rebuilt group, which depends on the secret of the thread and on
the number of stored members only. So after a removal a message has a new secret
exactly when the thread has a number of members that it did not have before.
-/
namespace Spex
open Fallible Cbor Tabulated Transcript

/-- The calls of a run, with the random nonce of a message as an argument. -/
inductive Call where
  | send (identity : IdentityState) (plaintext nonce : Bytes)
  | commit (commit : Commit)

inductive Outcome where
  | sent (message : ThreadMessage)
  | committed (events : List MlsThreadEvent)
  | failed (fault : Fault ClientError)

def Outcome.ofResult {α : Type} (success : α → Outcome) : ClientResult α → Outcome
  | .ok value => success value
  | .error fault => .failed fault

def Outcome.isSent : Outcome → Bool
  | .sent _ => true
  | _ => false

/-- The call was a commit that removed a member. -/
def Outcome.removes : Outcome → Bool
  | .committed events => events.any fun event => event.kind = .membershipRemoved
  | _ => false

def perform (crypto : Crypto) (threadState : ThreadState) : Call → Outcome × ThreadState
  | .send identity plaintext nonce =>
    let (result, threadState) := sendThreadMessage crypto identity threadState plaintext nonce
    (.ofResult .sent result, threadState)
  | .commit commit =>
    let (result, threadState) := applyThreadCommitWithEvents threadState commit
    (.ofResult .committed result, threadState)

abbrev ThreadTurn := Turn ThreadState Call Outcome

def threadRun (crypto : Crypto) (threadState : ThreadState) (calls : List Call) :
    List ThreadTurn := transcript (perform crypto) threadState calls

section Frame
variable {crypto : Crypto} {seed : Bytes} {threadState : ThreadState}

variable (crypto threadState) in
theorem perform_send (identity : IdentityState) (plaintext nonce : Bytes) :
    perform crypto threadState (.send identity plaintext nonce) =
      (.ofResult .sent (encryptAndChunkMessage crypto identity threadState plaintext nonce).1,
        (encryptAndChunkMessage crypto identity threadState plaintext nonce).2) := rfl

theorem perform_commit_of_next {commit : Commit} (h : commit.epoch = threadState.epoch + 1) :
    (perform crypto threadState (.commit commit)).2 = { threadState with
      members := membersAfter threadState.members commit
      epoch := commit.epoch } := (applyThreadCommit_of_next h).2

/-- No call touches the stored secret or configuration hash. -/
theorem stored_perform (h : Stored seed threadState) (call : Call) :
    Stored seed (perform crypto threadState call).2 := by
  cases call with
  | send identity plaintext nonce =>
    change Stored seed (encryptAndChunkMessage crypto identity threadState plaintext nonce).2
    rcases encrypt_state threadState crypto identity plaintext nonce with
      hsame | ⟨group, -, hcounted⟩
    · rwa [hsame]
    · rw [hcounted]
      exact ⟨h.secret, h.cfgHash⟩
  | commit commit =>
    change Stored seed (applyThreadCommitWithEvents threadState commit).2
    by_cases hnext : commit.epoch = threadState.epoch + 1
    · rw [(applyThreadCommit_of_next hnext).2]
      exact ⟨h.secret, h.cfgHash⟩
    · obtain ⟨fault, hrefused⟩ := applyThreadCommit_of_not_next hnext
      rwa [hrefused]

theorem stored_of_mem (h : Stored seed threadState) {calls : List Call} {r : ThreadTurn}
    (hr : r ∈ threadRun crypto threadState calls) : Stored seed r.before := by
  refine (invariant (Stored seed) h ?_).1 r hr
  intro r hr hbefore
  rw [after_eq hr]
  exact stored_perform hbefore r.input

end Frame

section Secrets
variable {sha256 : Bytes → Bytes}

/-- The secret under which the thread would encrypt a message now. -/
def currentSecret (sha256 : Bytes → Bytes) (threadState : ThreadState) : Option Bytes :=
  (rebuildThreadGroup sha256 threadState).toOption.map fun group => group.secrets.groupSecret

def memberCount (threadState : ThreadState) : UInt64 := UInt64.ofNat threadState.members.length

variable (sha256) in
theorem Stored.currentSecret_eq {seed : Bytes} {threadState : ThreadState}
    (h : Stored seed threadState) : currentSecret sha256 threadState =
      some (secretAt sha256 seed threadState.members.length) := by
  obtain ⟨group, hrebuild, hreplays⟩ := h.rebuild sha256
  rw [currentSecret, hrebuild, Except.toOption, Option.map_some, hreplays.secrets]

/-- Whenever a message is sent after a removal, `value` differs from what it was
in every state up to the removal. -/
def ChangedByRemoval {β : Type} (value : ThreadState → β) (turns : List ThreadTurn) : Prop :=
  ∀ before removal after, turns = before ++ removal :: after → removal.outcome.removes →
    ∀ r ∈ before ++ [removal], ∀ r' ∈ after, r'.outcome.isSent → value r.before ≠ value r'.before

theorem ChangedByRemoval.of_imp {β γ : Type} {value : ThreadState → β} {value' : ThreadState → γ}
    {turns : List ThreadTurn}
    (himp : ∀ r ∈ turns, ∀ r' ∈ turns, value' r.before = value' r'.before →
      value r.before = value r'.before) (h : ChangedByRemoval value turns) :
    ChangedByRemoval value' turns := by
  rintro before removal after rfl hremoves r hr r' hr' hsent hsame
  refine h before removal after rfl hremoves r hr r' hr' hsent (himp r ?_ r' ?_ hsame)
  · rw [List.mem_append, List.mem_singleton] at hr
    simp only [List.mem_append, List.mem_cons]
    exact hr.imp_right .inl
  · simp [hr']

theorem changedByRemoval_pair {β : Type} {value : ThreadState → β} {first second : ThreadTurn} :
    ChangedByRemoval value [first, second] ↔
      (first.outcome.removes → second.outcome.isSent →
        value first.before ≠ value second.before) := by
  constructor
  · intro h hremoves hsent
    exact h [] first [second] rfl hremoves first (by simp) second (by simp) hsent
  · intro h before removal after hturns hremoves r hr r' hr' hsent
    cases before with
    | nil =>
      obtain ⟨rfl, rfl⟩ := List.cons.inj hturns
      rw [List.nil_append, List.mem_singleton] at hr
      rw [List.mem_singleton] at hr'
      subst hr hr'
      exact h hremoves hsent
    | cons turn before =>
      have hlength := congrArg List.length hturns
      have hnil : after = [] := by
        rw [← List.length_eq_zero_iff]
        simp at hlength
        omega
      simp [hnil] at hr'

/-- In a run of a new thread, a removal refreshes the secret of every later
message when the number of stored members at that message is new; with fewer than
`2 ^ 64` members, only then. -/
theorem removal_refreshes_secret_iff {crypto : Crypto}
    (hinj : Function.Injective crypto.sha256) {identity : IdentityState} {members : List String}
    {randomThreadId randomSecret : Bytes} {now : UInt64} {threadState : ThreadState}
    (hcreate : createThreadState crypto.sha256 identity members randomThreadId randomSecret now =
      .ok threadState) (calls : List Call) :
    (ChangedByRemoval memberCount (threadRun crypto threadState calls) →
      ChangedByRemoval (currentSecret crypto.sha256) (threadRun crypto threadState calls)) ∧
    ((∀ r ∈ threadRun crypto threadState calls, r.before.members.length < 2 ^ 64) →
      ChangedByRemoval (currentSecret crypto.sha256) (threadRun crypto threadState calls) →
      ChangedByRemoval memberCount (threadRun crypto threadState calls)) := by
  have hstored := (stored_of_create hcreate).1
  have hsecret : ∀ r ∈ threadRun crypto threadState calls,
      currentSecret crypto.sha256 r.before =
        some (secretAt crypto.sha256 randomSecret r.before.members.length) :=
    fun r hr => (stored_of_mem hstored hr).currentSecret_eq crypto.sha256
  refine ⟨ChangedByRemoval.of_imp ?_, fun hsize => ChangedByRemoval.of_imp ?_⟩
  · intro r hr r' hr' hsame
    rw [hsecret r hr, hsecret r' hr'] at hsame
    exact ofNat_eq_of_secretAt_eq hinj (Option.some.inj hsame)
  · intro r hr r' hr' hsame
    have hlength : r.before.members.length = r'.before.members.length := by
      have hword := congrArg UInt64.toNat hsame
      rwa [memberCount, memberCount, UInt64.toNat_ofNat_of_lt' (hsize r hr),
        UInt64.toNat_ofNat_of_lt' (hsize r' hr')] at hword
    rw [hsecret r hr, hsecret r' hr', hlength]

end Secrets

section Sample

/-- A message of the sample thread: its position, the nonce, what ChaCha20-Poly1305
makes of the text `hi`, the digest of the unsigned envelope, the Ed25519 signature
of the digest under the key `07..07`, and the hash of its only chunk. -/
structure SampleMessage where
  epoch : UInt8
  seq : UInt64
  nonce : Bytes
  ciphertext : Bytes
  digest : Bytes
  signature : Bytes
  chunkHash : Bytes

def SampleMessage.row (epoch : UInt8) (seq : UInt64) (nonce : UInt8)
    (ciphertext digest commitment scalar chunkHash : ℕ) : SampleMessage :=
  ⟨epoch, seq, List.replicate 12 nonce, BigEndian.write 18 ciphertext, BigEndian.write 32 digest,
    BigEndian.write 32 commitment ++ BigEndian.write 32 scalar, BigEndian.write 32 chunkHash⟩

def sampleMessages : List SampleMessage := [
  .row 1 0 0x33 0xe8f642dab53993551bdebe1933e0d0b15514
    0x6987b9d3b450ed4f61bd532b9a57222b12c17c22f6a606b6cbe8cf74c8d3fd21
    0xa5a257cf60360acae38f5a0cbc4ce6a2f79595737f8d2fef734ac8016b6a8ebf
    0x352841e968d586be674511bd7a22086d6131dd54bdef78f88bd4b2b464332f05
    0x019e6e3c398bf617a78253eb3a3443aa0ed5d219ea6ef28b110b6aec63a84a5f,
  .row 2 0 0x33 0x19c15bab7d02fb0f7135e9a79fbaa78521bb
    0x8d4addbe47a8daca3f02c81fe64ce537837612feef1227276ce9aa1922cd19c0
    0xd92748cf8f5f4fd7611b4cba2a00cc3c50962dd71bffde44be74caea4151f17d
    0x9cf886fbc2a64b3691d61ad2a2632a7bc455817870849e795b8a003706f01b08
    0x8c6804aa08164301eac718f1fac8d8f9ae4460313ee23f95cc491cd5c0b1449c,
  .row 3 1 0x33 0xda02d11d5d796975306ce1b807ad5ba52795
    0x4dc6a30e183c0cc2d7bc9dc08291deff52d45ecd8ce3def2a855895184817919
    0x310ae27871fe6c5c559f99cfe8bfdc6eefd1ed4c12b142180bd3237a5cc319f3
    0xeae2959c171efea93cafda900e888c633be8207495e0ad46c3e71cfed88f660d
    0x8222a4ec3dce25084bc91658a672fb123b3a739ac6247f89067dcc48b3c58030,
  .row 1 maxU64 0x33 0xe8f6d32030600ee66d7baeaab268bd3b5c49
    0x703becaa8702de5a33b0938b2d4884a4af488470ec429566715d141c7e8f1c90
    0xf01157a78086e13769f15ea30f391f4c54bca17820c40a711e0b45ff7f8aa79d
    0x32e22bc4ce028c65fee9d19e7d08a598578064ea98395a6a434642cc3b33320b
    0x33670d52fa999de8603106b7a4a5c111dfdb718b1a6dd74308ee0acc4bda6e92,
  .row 1 maxU64 0x44 0xc06ccdba10570113212f444c265408c30507
    0x9cb884d83a2fb291b76d30c28aba283b0d153dc0643cfb6431a9f0b255fcfc36
    0x3f4a8ef516ca7b917bdffb79937e745b1b7e6218c57f58b1a1c388ee6545a857
    0xe40883e56564ab7406289f4fecbc3e62f6c68f89e583e8f6a06e9fd7900d6b0e
    0xf7e492e8b3ed870e63b578708d8cda637f66d899f2a4e1dd99e623d479ee8eeb,
  .row 2 1 0x44 0x83c202c9db781f0a0cf377a199c6f42c03ec
    0x1caadaa56e73dde99d7e85f6407f161bd77b32232ee13ac4e51a725ade33f609
    0x7678921b3ad14ad6102c9fd916d2ddfd9b3c2c3673b10041d7d592697779ea52
    0xb67016169ac5c1d5dad59b4cae990361129c25de6b0ed3c8fae16ce55da53604
    0x8eefeaf9e34e041b1b3c078922baa7e0886fb385042e2bb0827b42c46fc71aaf,
  .row 2 0 0x44 0x83c2e198a8d2ce7558d653c9fcc87981defc
    0xa589b267912b8fc486fba0810c3457b7d498acdd0adfdd8dc79f023a57588eec
    0x724e62d2a28714a819908a4b3a988c3ed1b92d8f2dc3477810072203522ae96f
    0x8ae3c5ed32b1585de6278cadfd704b993c553055764c22c33d4d357c8b3fe00f
    0x4fedf1218a89ea132bea27eaa9ddf41b6c765b8c8ed7d4616e5df4decee06f14,
  .row 2 maxU64 0x33 0x19c1e696892b8f3f7ec263a751d11ea09b11
    0xd90dc47c8a3e5ea709923fc966352f9dbc26905d11f58adb73165d26660003eb
    0xc52282c2138507bbcd21b031fbe88e90162efa5c19f0c142f979b879bacf5ae1
    0x5ba58f8b2d68c40893b9b8ab87926d42881c09612f3f04bbed003a0b9b468308
    0x2290968613f857b858ecd53d6df51886b6cbdd103f152088572f0bae0cc93c8a]

def sampleText : Bytes := [0x68, 0x69]

def senderDigest : Bytes := BigEndian.write 32
  0xbceef655b5a034911f1c3718ce056531b45ef03b4c7b1f15629e867294011a7d

/-- The message keys under the group secrets of the epochs one to three. -/
def sampleKeys : List Bytes :=
  [BigEndian.write 32 0x757940c4a484de0d4453aa3059dcdbb3b115d351d5e7815bf214777e06da3225,
   BigEndian.write 32 0x640e6f520909308cdd842270da6136cbf0d247c3d95446ee3b1e90663dabf873,
   BigEndian.write 32 0x4fbf55f431cc8f86c48f77e02b8e97766b7cdc6e0945809efc6c9032645ba011]

namespace SampleMessage

def key (self : SampleMessage) : Bytes := sampleKeys.getD (self.epoch.toNat - 1) []

def ad (self : SampleMessage) : Bytes :=
  buildAd sampleThreadId self.epoch.toUInt32 sampleCfgHash ⟨1, 1, 1⟩ self.seq
    (senderDigest.take 20)

def fields (self : SampleMessage) : Bytes :=
  [0, 0x58, 0x20] ++ sampleThreadId ++ [1, self.epoch, 2] ++ encodeU64 0 self.seq ++
    [3, 0x41, 0xaa, 4, 0x58, 0x1e] ++ self.nonce ++ self.ciphertext

def digests (self : SampleMessage) : List (Bytes × Bytes) :=
  [(0xa5 :: self.fields, self.digest),
   (0xa6 :: self.fields ++ [5, 0x58, 0x40] ++ self.signature, self.chunkHash)]

end SampleMessage

def sampleDigests : List (Bytes × Bytes) :=
  groupDigests ++ [([0xaa], senderDigest)] ++ sampleSecrets.tail.zip sampleKeys ++
    sampleMessages.flatMap SampleMessage.digests

def sampleCrypto : Crypto where
  sha256 := tabulated sampleDigests
  encrypt key nonce plaintext ad :=
    let row := sampleMessages.find? fun m =>
      m.key = key ∧ m.nonce = nonce ∧ sampleText = plaintext ∧ m.ad = ad
    some (row.elim (plaintext ++ List.replicate 16 0) SampleMessage.ciphertext)
  sign key hash :=
    let row := sampleMessages.find? fun m => key = List.replicate 32 7 ∧ m.digest = hash
    row.elim (List.replicate 64 0) SampleMessage.signature

theorem elim_sampleMessages (p : SampleMessage → Bool) (fallback : Bytes)
    (field : SampleMessage → Bytes) {n : ℕ} (hfallback : fallback.length = n)
    (hfield : ∀ m ∈ sampleMessages, (field m).length = n) :
    ((sampleMessages.find? p).elim fallback field).length = n := by
  cases hrow : sampleMessages.find? p with
  | none => exact hfallback
  | some m => exact hfield m (List.mem_of_find?_eq_some hrow)

/-- The sample thread with other members, another counter and another epoch. -/
def sampleAt (members : List String) (nextSeq epoch : UInt64) : ThreadState :=
  { sampleThread with members, nextSeq, epoch }

theorem counted_sampleAt (members : List String) (nextSeq epoch : UInt64) {group : Group}
    (h : group.epoch = UInt64.ofNat members.length) :
    (sampleAt members nextSeq epoch).counted group =
      sampleAt members (saturatingSucc nextSeq) (UInt64.ofNat members.length) := by
  rw [ThreadState.counted, h]
  simp only [sampleAt]

theorem stored_sampleAt (members : List String) (nextSeq epoch : UInt64) :
    Stored sampleSecret (sampleAt members nextSeq epoch) :=
  ⟨Hex.decode_encode _, sampleCfgHash, Hex.decode_encode _, by decide⟩

theorem equipped_sampleAt (members : List String) (nextSeq epoch : UInt64) :
    Equipped sampleCrypto sampleIdentity (sampleAt members nextSeq epoch) where
  threadId := ⟨sampleThreadId, Hex.decode_encode _, by decide⟩
  cfgHash := ⟨sampleCfgHash, Hex.decode_encode _, by decide⟩
  sender := ⟨[0xaa], by decide, by decide, by decide⟩
  signingKey := by
    refine ⟨List.replicate 32 7, Hex.decode_encode _, by decide, fun hash => ?_⟩
    have hlength : (sampleCrypto.sign (List.replicate 32 7) hash).length = 64 :=
      elim_sampleMessages _ _ _ (by decide) (by decide)
    omega

/-- A send of the sample user in a run. -/
def sampleSend (byte : UInt8) : Call := .send sampleIdentity sampleText (List.replicate 12 byte)

theorem sample_encrypts {members : List String} (hcount : members.length ∈ [1, 2, 3])
    (nextSeq epoch : UInt64) (byte : UInt8) :
    ∃ message, (encryptAndChunkMessage sampleCrypto sampleIdentity
      (sampleAt members nextSeq epoch) sampleText (List.replicate 12 byte)).1 = .ok message := by
  have hkeys : ∀ count ∈ [1, 2, 3],
      (sampleCrypto.sha256 (secretAt sampleCrypto.sha256 sampleSecret count)).length = 32 := by
    decide
  refine (equipped_sampleAt members nextSeq epoch).sends sampleSecret (Hex.decode_encode _) ?_
    (hkeys _ hcount) ?_
  · simp only [List.mem_cons, List.not_mem_nil, or_false] at hcount
    change members.length < 2 ^ 32
    omega
  · intro key ad _
    refine ⟨_, rfl, ?_⟩
    rw [List.length_append, List.length_replicate,
      elim_sampleMessages _ _ _ (n := 18) (by decide) (by decide)]
    norm_num

theorem perform_sampleSend (members : List String) (hcount : members.length ∈ [1, 2, 3])
    (nextSeq epoch : UInt64) (byte : UInt8) :
    (perform sampleCrypto (sampleAt members nextSeq epoch) (sampleSend byte)).1.isSent ∧
      (perform sampleCrypto (sampleAt members nextSeq epoch) (sampleSend byte)).2 =
        sampleAt members (saturatingSucc nextSeq) (UInt64.ofNat members.length) := by
  obtain ⟨message, hmessage⟩ := sample_encrypts hcount nextSeq epoch byte
  obtain ⟨group, hrebuild, -, hstate, -⟩ := encrypt_eq_ok hmessage
  have hreplays := rebuild_replays hrebuild (stored_sampleAt members nextSeq epoch)
  have hcounted := hstate.trans (counted_sampleAt members nextSeq epoch hreplays.epoch)
  have hsend := perform_send sampleCrypto (sampleAt members nextSeq epoch) sampleIdentity
    sampleText (List.replicate 12 byte)
  rw [hmessage, hcounted] at hsend
  rw [sampleSend, hsend]
  exact ⟨rfl, rfl⟩

def removalCalls : List Call := [.commit sampleRemoval, sampleSend 0x33]

theorem perform_sampleRemoval (nextSeq : UInt64) :
    (perform sampleCrypto (sampleAt ["bb", "aa"] nextSeq 2) (.commit sampleRemoval)).2 =
      sampleAt ["aa"] nextSeq 3 :=
  perform_commit_of_next rfl

/-- A removal from the thread of two, then a message to the one member left. -/
theorem removal_refreshes_secret_sample :
    createThreadState sampleCrypto.sha256 sampleIdentity ["bb"] sampleThreadId sampleSecret
        1700000000 = .ok sampleThread ∧
      (∃ removal message, threadRun sampleCrypto sampleThread removalCalls = [removal, message] ∧
        removal.outcome.removes ∧ message.outcome.isSent) ∧
      ChangedByRemoval (currentSecret sampleCrypto.sha256)
        (threadRun sampleCrypto sampleThread removalCalls) := by
  have hcreate := sampleThread_created sampleCrypto.sha256 (by decide)
  have hinj : Function.Injective sampleCrypto.sha256 := tabulated_injective (by decide)
  refine ⟨hcreate, ?_, (removal_refreshes_secret_iff hinj hcreate removalCalls).1 ?_⟩
  · have hremoval : (perform sampleCrypto sampleThread (.commit sampleRemoval)).2 =
        sampleAt ["aa"] 0 3 := perform_sampleRemoval 0
    rw [threadRun, removalCalls, transcript_cons, transcript_cons, transcript_nil, hremoval]
    refine ⟨_, _, rfl, by decide, ?_⟩
    dsimp only
    exact (perform_sampleSend ["aa"] (by decide) 0 3 0x33).1
  · rw [threadRun, removalCalls, transcript_cons, transcript_cons, transcript_nil,
      changedByRemoval_pair]
    intro _ _
    decide

def sampleSwap : Commit := { epoch := 3, addedMembers := ["cc"], removedMembers := ["bb"] }

def swapCalls : List Call := [.commit sampleSwap, sampleSend 0x33]

theorem perform_sampleSwap : (perform sampleCrypto sampleThread (.commit sampleSwap)).2 =
    sampleAt ["aa", "cc"] 0 3 :=
  perform_commit_of_next rfl

/-- A commit that swaps one member for another leaves the secret as it was, and
the next message is encrypted under the secret that the removed member knows. -/
theorem swapped_member_keeps_secret :
    createThreadState sampleCrypto.sha256 sampleIdentity ["bb"] sampleThreadId sampleSecret
        1700000000 = .ok sampleThread ∧
      ¬ChangedByRemoval (currentSecret sampleCrypto.sha256)
        (threadRun sampleCrypto sampleThread swapCalls) := by
  refine ⟨sampleThread_created sampleCrypto.sha256 (by decide), ?_⟩
  rw [threadRun, swapCalls, transcript_cons, transcript_cons, transcript_nil,
    changedByRemoval_pair, perform_sampleSwap]
  dsimp only
  intro hchanged
  refine hchanged (by decide) (perform_sampleSend ["aa", "cc"] (by decide) 0 3 0x33).1 ?_
  have hbefore := (stored_sampleAt ["bb", "aa"] 0 2).currentSecret_eq sampleCrypto.sha256
  have hafter := (stored_sampleAt ["aa", "cc"] 0 3).currentSecret_eq sampleCrypto.sha256
  exact hbefore.trans hafter.symm

end Sample
end Spex
