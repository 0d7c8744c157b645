import Spex.GroupRecovery

/-!
# Messages of a group

A member encrypts for the group of its epoch under a key and a nonce that are
derived from the group secret, the sender's id and a message id. The receiver
compares the epoch, the configuration hash and the suite of the message with its
own group before it decrypts.
-/
namespace Spex
open Cbor Fallible

structure MemberSecret where
  memberId : String
  secret : Bytes
  deriving DecidableEq, Repr

structure GroupMessage where
  epoch : UInt64
  cfgHash : Bytes
  protoSuite : ProtoSuite
  body : Bytes
  deriving DecidableEq, Repr

/-- ChaCha20-Poly1305 without associated data: encryption under a key and a nonce
of a plaintext, decryption under them of a ciphertext. -/
structure Aead where
  encrypt : Bytes → Bytes → Bytes → Option Bytes
  decrypt : Bytes → Bytes → Bytes → Option Bytes

/-- Decryption succeeds exactly for the key, the nonce and the ciphertext that
were made together. -/
structure Aead.Ideal (aead : Aead) : Prop where
  decrypt_eq : ∀ {key nonce body plaintext}, aead.decrypt key nonce body = some plaintext ↔
    aead.encrypt key nonce plaintext = some body
  made_with : ∀ {key nonce plaintext key' nonce' plaintext' body},
    key.length = key'.length → nonce.length = nonce'.length →
    aead.encrypt key nonce plaintext = some body →
    aead.encrypt key' nonce' plaintext' = some body →
    key = key' ∧ nonce = nonce' ∧ plaintext = plaintext'

section Derivation
variable (sha256 : Bytes → Bytes)

/-- The secret of a member. -/
def deriveMemberSecret (hashId : HashId) (groupSecret : Bytes) (memberId : String) : Bytes :=
  hashBytes sha256 hashId (groupSecret ++ Value.utf8 memberId)

def deriveMessageMetadataHash (hashId : HashId) (groupSecret : Bytes) (senderId : String)
    (messageId : UInt64) (label : Bytes) : Bytes :=
  hashBytes sha256 hashId (groupSecret ++ Value.utf8 senderId ++ u64Be messageId ++ label)

/-- `hash.get(..count)`. -/
def firstBytes (count : ℕ) (hash : Bytes) : Option Bytes :=
  if count ≤ hash.length then some (hash.take count) else none

def keyLabel : Bytes := Value.utf8 "key"

def nonceLabel : Bytes := Value.utf8 "nonce"

def deriveAeadKey (hashId : HashId) (groupSecret : Bytes) (senderId : String)
    (messageId : UInt64) : Except MlsError Bytes :=
  (firstBytes 32 (deriveMessageMetadataHash sha256 hashId groupSecret senderId messageId
    keyLabel)).elim (.error .encryption) .ok

def deriveAeadNonce (hashId : HashId) (groupSecret : Bytes) (senderId : String)
    (messageId : UInt64) : Except MlsError Bytes :=
  (firstBytes 12 (deriveMessageMetadataHash sha256 hashId groupSecret senderId messageId
    nonceLabel)).elim (.error .encryption) .ok

end Derivation

namespace Group

def ensureMember (self : Group) (memberId : String) : Except MlsError Unit :=
  if self.members.any (· = memberId) then .ok () else .error (.unknownMember memberId)

/-- A message of this epoch and this configuration. -/
def validateMessage (self : Group) (message : GroupMessage) : Except ValidationError Unit :=
  if message.epoch ≠ self.epoch then .error (.epochMismatch self.epoch message.epoch)
  else if message.cfgHash ≠ self.context.cfgHash then .error .cfgHashMismatch
  else if message.protoSuite ≠ self.context.protoSuite then .error .protoSuiteMismatch
  else .ok ()

section Messages
variable (sha256 : Bytes → Bytes) (aead : Aead)

def distributeSecrets (self : Group) : List MemberSecret :=
  self.members.map fun member =>
    ⟨member, deriveMemberSecret sha256 self.hashId self.secrets.groupSecret member⟩

/-- Sealing by a member. -/
def encrypt (self : Group) (senderId : String) (messageId : UInt64) (plaintext : Bytes) :
    Except MlsError GroupMessage := do
  self.ensureMember senderId
  let key ← deriveAeadKey sha256 self.hashId self.secrets.groupSecret senderId messageId
  let nonce ← deriveAeadNonce sha256 self.hashId self.secrets.groupSecret senderId messageId
  let ciphertext ← (aead.encrypt key nonce plaintext).elim (.error .encryption) .ok
  return ⟨self.epoch, self.context.cfgHash, self.context.protoSuite, ciphertext⟩

/-- Opening what a member has sealed. -/
def decrypt (self : Group) (senderId : String) (messageId : UInt64) (message : GroupMessage) :
    Except MlsError Bytes := do
  self.ensureMember senderId
  (self.validateMessage message).mapError .validation
  let key ← deriveAeadKey sha256 self.hashId self.secrets.groupSecret senderId messageId
  let nonce ← deriveAeadNonce sha256 self.hashId self.secrets.groupSecret senderId messageId
  (aead.decrypt key nonce message.body).elim (.error .decryption) .ok

end Messages

variable {sha256 : Bytes → Bytes} {aead : Aead} {group : Group} {senderId : String}
  {messageId : UInt64} {plaintext : Bytes} {message : GroupMessage}

/-- A message carries the epoch of the group that it was encrypted for. -/
theorem epoch_of_encrypt
    (h : encrypt sha256 aead group senderId messageId plaintext = .ok message) :
    message.epoch = group.epoch := by
  obtain ⟨-, -, h⟩ := bind_eq_ok.mp h
  obtain ⟨key, -, h⟩ := bind_eq_ok.mp h
  obtain ⟨nonce, -, h⟩ := bind_eq_ok.mp h
  obtain ⟨body, -, h⟩ := bind_eq_ok.mp h
  rw [← Except.ok.inj h]

theorem epoch_of_validate (h : group.validateMessage message = .ok ()) :
    message.epoch = group.epoch := by
  rw [validateMessage] at h
  by_contra hne
  rw [if_pos hne] at h
  cases h

/-- A message is accepted at its own epoch only. -/
theorem epoch_of_decrypt
    (h : decrypt sha256 aead group senderId messageId message = .ok plaintext) :
    message.epoch = group.epoch := by
  obtain ⟨-, -, h⟩ := bind_eq_ok.mp h
  obtain ⟨_, hvalid, _⟩ := bind_eq_ok.mp h
  exact epoch_of_validate (mapError_eq_ok.mp hvalid)

end Group

section Tabulated
open Tabulated

/-- Encryption as a tabulated function of the key, the nonce and the plaintext. -/
def tabulatedAead (table : List (Bytes × Bytes)) : Aead where
  encrypt key nonce plaintext := some (tabulated table (key ++ nonce ++ plaintext))
  decrypt key nonce body := (preimage table body).bind fun input =>
    if key ++ nonce <+: input then some (input.drop (key ++ nonce).length) else none

theorem tabulatedAead_ideal {table : List (Bytes × Bytes)} (h : Proper table) :
    (tabulatedAead table).Ideal where
  decrypt_eq {key nonce body plaintext} := by
    have hiff : preimage table body = some (key ++ nonce ++ plaintext) ↔ _ := preimage_eq_some h
    simp only [tabulatedAead, Option.some.injEq, ← hiff, Option.bind_eq_some_iff]
    constructor
    · rintro ⟨input, hinput, hif⟩
      split_ifs at hif with hstart
      obtain ⟨rest, rfl⟩ := hstart
      rw [List.drop_left] at hif
      rw [hinput, Option.some.inj hif]
    · intro hinput
      refine ⟨_, hinput, ?_⟩
      rw [if_pos (List.prefix_append _ _), List.drop_left]
  made_with {key nonce plaintext key' nonce' plaintext' body} hkey hnonce hbody hbody' := by
    have heq := tabulated_injective h (Option.some.inj (hbody.trans hbody'.symm))
    obtain ⟨hstart, hplain⟩ := List.append_inj heq (by simp [hkey, hnonce])
    obtain ⟨hkeys, hnonces⟩ := List.append_inj hstart hkey
    exact ⟨hkeys, hnonces, hplain⟩

end Tabulated
end Spex
