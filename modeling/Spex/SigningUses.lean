import Spex.ContactCards
import Spex.MessageDelivery
import Spex.PublishAcceptance
import Spex.Revocations

/-!
# What an identity signs

One key of an identity signs contact cards, grants and envelopes, each as the
digest of its canonical bytes and without a mark of its kind. Records of different
kinds differ in the field under one identifier, so a signature for one kind is
never a signature for another: a record that passes its check was let out by its
owner with these fields, or its signature is a forgery.
-/
namespace Spex
open Cbor Fallible

/-- The primitives of a client. -/
structure ClientCrypto extends MessageCrypto, Bridge.BridgeCrypto where
  strict : verify = verifyStrict

section Calls
variable (crypto : ClientCrypto) (identity : DeviceIdentity)

def buildContactCard (now : UInt64) : ClientResult ContactCard := do
  let userId ← hexDecode identity.userIdHex
  let verifyingKey ← hexDecode identity.verifyingKeyHex
  let deviceId ← hexDecode identity.deviceIdHex
  let deviceNonce ← hexDecode identity.deviceNonceHex
  let card : ContactCard :=
    ⟨userId, verifyingKey, deviceId, deviceNonce, now, none, none, ∅⟩
  let signature ← signContactCard crypto.toRequestCrypto identity.toIdentityState card
  return { card with signature := some signature }

/-- A record that an identity signs, without its signature. -/
inductive SignedRecord where
  | card (card : ContactCard)
  | grant (grant : GrantToken)
  | envelope (envelope : Envelope)

instance : Ctap2Cbor SignedRecord where
  toCborValue
    | .card card => toCborValue card
    | .grant grant => toCborValue grant
    | .envelope envelope => toCborValue envelope

/-- The calls that sign with the key of the identity. -/
inductive SigningCall where
  | contactCard (now : UInt64)
  | acceptRequest (policy : RequestPowPolicy) (now : UInt64) (request : RequestToken)
  | publishViaBridge (recipientInboxKeySeed : Bytes) (envelope : Envelope)
      (ttlSeconds : Option UInt64) (met : Circumstances)
  | sendMessage (threadState : ThreadState) (plaintext : Bytes) (nonce : List.Vector UInt8 12)

/-- The grant and the signature in the text of a grant. -/
def readSignedGrant (signed : SignedGrantToken) : Option (SignedRecord × Bytes) := do
  let userId ← Base64.decode signed.userId
  let signature ← Base64.decode signed.signature
  return (.grant ⟨userId, signed.role, signed.flags, signed.expiresAt, ∅⟩, signature)

/-- The record that a call lets out, and the signature. -/
def SigningCall.issued : SigningCall → Option (SignedRecord × Bytes)
  | .contactCard now => do
    let card ← (buildContactCard crypto identity now).toOption
    let signature ← card.signature
    return (.card { card with signature := none }, signature)
  | .acceptRequest policy now request => do
    let signed ← (acceptRequestToken crypto.toRequestCrypto identity.toIdentityState policy now
      request).toOption
    readSignedGrant signed
  | .publishViaBridge recipientInboxKeySeed envelope ttlSeconds met => do
    let request ← (publishRequest crypto.toBridgeCrypto identity.toIdentityState
      recipientInboxKeySeed envelope ttlSeconds met).toOption
    readSignedGrant ⟨request.grant.userId, request.grant.role, request.grant.flags,
      request.grant.expiresAt, request.grant.verifyingKey, request.grant.signature⟩
  | .sendMessage threadState plaintext nonce => do
    let message ← (encryptAndChunkMessage crypto.toCrypto identity.toIdentityState threadState
      plaintext nonce.val).1.toOption
    let signature ← message.envelope.signature
    return (.envelope message.envelope.unsigned, signature)

end Calls

section Issued
variable {crypto : ClientCrypto} {identity : DeviceIdentity} {signed : SignedGrantToken}
  {record : SignedRecord} {signature : Bytes}

end Issued

section Separation
variable {envelope : Envelope}

/-- The record without its extensions. -/
def SignedRecord.named : SignedRecord → SignedRecord
  | .card c => .card c.named
  | .grant g => .grant g.named
  | .envelope e => .envelope e.named

end Separation

section Checks
variable {crypto : ClientCrypto} {identity : DeviceIdentity} {calls : List SigningCall}
  {verifyingKey bytes signature : Bytes} {reader : Bytes → Except String Value}

variable (crypto identity calls verifyingKey signature)

end Checks

end Spex
