import Spex.Requests

/-!
# Local state of the client

What the client keeps between calls, as far as the modelled functions read or
write it: its identity, contacts and threads, the caches of messages for local
delivery, the grants it has given and the requests it has accepted.
-/
namespace Spex

/-- A map with text keys. -/
abbrev StringMap (α : Type) := String → Option α

/-- The identity with the key that others verify its signatures with. -/
structure LocalIdentity extends IdentityState where
  verifyingKeyHex : String
  deriving DecidableEq, Repr

structure ContactState where
  userIdHex : String
  verifyingKeyHex : String
  deriving DecidableEq, Repr

structure GrantState where
  tokenBase64 : String
  fromUserId : String
  role : UInt64
  createdAt : UInt64
  signatureBase64 : Option String
  deriving DecidableEq, Repr

structure LocalState where
  identity : Option LocalIdentity := none
  contacts : StringMap ContactState := fun _ => none
  threads : StringMap ThreadState := fun _ => none
  grants : List GrantState := []
  p2pInbox : StringMap (List String) := fun _ => none
  transportGossip : StringMap (List String) := fun _ => none
  transportChunkStore : StringMap String := fun _ => none
  acceptedRequestIds : List String := []

/-- Where the items of an inbox were found. -/
inductive InboxSource where
  | kademlia
  | bridge
  deriving DecidableEq, Repr

structure GrantAcceptanceOutcome where
  request : RequestToken
  grantTokenBase64 : String
  deriving DecidableEq, Repr

end Spex
