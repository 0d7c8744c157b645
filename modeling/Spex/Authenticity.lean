import Spex.MessageLedger
import Spex.SigningUses

/-!
# Whose messages are recorded

Anyone may stage what they like for a client and hand it payloads of their own
making. Whatever the client records in the name of a contact, and whose signature
covers the fields it is read from, was sent by that contact to that thread, at that
epoch and position and with that ciphertext, or its signature is a forgery. If both ends
have the same secret and additional data, the text is the one that was sent.
-/
namespace Spex
open Cbor Fallible Batch Transcript

section Texts

end Texts

section Acceptance
variable {crypto : MessageCrypto} {client : LocalState} {arrival : ClientResult Envelope}
  {envelope : Envelope} {receipt : InboxMessageReceipt}

end Acceptance

section Runs
variable {crypto : ClientCrypto} {library : Ciborium} {manifestJson : Codec ChunkManifest}
  {sortUnstable : List Chunk → List Chunk} {state : MailState} {calls : List MailCall}
  {identity : DeviceIdentity} {uses : List SigningCall} {senderId verifyingKey : Bytes}

end Runs

section Sample

/-- The sample primitives of both ends, those of requests included. -/
def deliveryClient : ClientCrypto where
  toMessageCrypto := deliveryCrypto
  argon2id := sampleRequestCrypto.argon2id
  verifyKey := sampleRequestCrypto.verifyKey
  verifyStrict := deliveryCrypto.verify
  strict := rfl

end Sample

end Spex
