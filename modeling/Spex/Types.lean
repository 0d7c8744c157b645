import Spex.FieldMap

/-!
# Signed structures

The structures of `types.rs` and the CBOR map each is turned into before it is
hashed and signed. The named fields go under small identifiers; then every
extension is inserted under its own identifier, whatever is there already.
-/
namespace Spex
open Cbor Overlay

/-- Structures with a CBOR form. -/
class Ctap2Cbor (α : Type) where
  toCborValue : α → Value

export Ctap2Cbor (toCborValue)

/-- The canonical bytes of a record. -/
def toCtap2CanonicalBytes {α : Type} [Ctap2Cbor α] (self : α) : Except SpexError Bytes :=
  ctap2CanonicalValueBytes (toCborValue self)

/-- The map of the named fields with the extensions inserted after them. -/
def fieldsToValue (fields : List (UInt64 × Option Value)) (extensions : FieldMap) : Value :=
  FieldMap.toValue (overlay (FieldMap.ofFields fields) extensions)

/-- The version and the work that an invitation asks for. -/
structure InviteToken where
  major : UInt16
  minor : UInt16
  requiresPuzzle : Bool
  extensions : FieldMap

/-- The named fields by their keys. -/
def InviteToken.fields (self : InviteToken) : List (UInt64 × Option Value) :=
  [(0, some (.integer self.major.toNat)),
   (1, some (.integer self.minor.toNat)),
   (2, some (.bool self.requiresPuzzle))]

instance : Ctap2Cbor InviteToken where
  toCborValue self := fieldsToValue self.fields self.extensions

/-- The keys of a device, with the signature of their owner. -/
structure ContactCard where
  userId : Bytes
  verifyingKey : Bytes
  deviceId : Bytes
  deviceNonce : Bytes
  issuedAt : UInt64
  invite : Option InviteToken
  signature : Option Bytes
  extensions : FieldMap

def ContactCard.fields (self : ContactCard) : List (UInt64 × Option Value) :=
  [(0, some (.bytes self.userId)),
   (1, some (.bytes self.verifyingKey)),
   (2, some (.bytes self.deviceId)),
   (3, some (.bytes self.deviceNonce)),
   (4, some (.integer self.issuedAt.toNat)),
   (5, self.invite.map toCborValue),
   (6, self.signature.map .bytes)]

instance : Ctap2Cbor ContactCard where
  toCborValue self := fieldsToValue self.fields self.extensions

/-- A role for a user, up to a time. -/
structure GrantToken where
  userId : Bytes
  role : UInt64
  flags : Option UInt64
  expiresAt : Option UInt64
  extensions : FieldMap

def GrantToken.fields (self : GrantToken) : List (UInt64 × Option Value) :=
  [(0, some (.bytes self.userId)),
   (1, some (.integer self.role.toNat)),
   (2, self.flags.map fun flags => .integer flags.toNat),
   (3, self.expiresAt.map fun expiresAt => .integer expiresAt.toNat)]

instance : Ctap2Cbor GrantToken where
  toCborValue self := fieldsToValue self.fields self.extensions

/-- The parameters of a thread, with the grants of its members. -/
structure ThreadConfig where
  protoMajor : UInt16
  protoMinor : UInt16
  ciphersuiteId : UInt16
  flags : UInt8
  threadId : Bytes
  grants : List GrantToken
  extensions : FieldMap

def ThreadConfig.fields (self : ThreadConfig) : List (UInt64 × Option Value) :=
  [(0, some (.integer self.protoMajor.toNat)),
   (1, some (.integer self.protoMinor.toNat)),
   (2, some (.integer self.ciphersuiteId.toNat)),
   (3, some (.integer self.flags.toNat)),
   (4, some (.bytes self.threadId)),
   (5, some (.array (self.grants.map toCborValue)))]

instance : Ctap2Cbor ThreadConfig where
  toCborValue self := fieldsToValue self.fields self.extensions

/-- A sealed message at its place in a thread. -/
structure Envelope where
  threadId : Bytes
  epoch : UInt32
  seq : UInt64
  senderUserId : Bytes
  ciphertext : Bytes
  signature : Option Bytes
  extensions : FieldMap

def Envelope.fields (self : Envelope) : List (UInt64 × Option Value) :=
  [(0, some (.bytes self.threadId)),
   (1, some (.integer self.epoch.toNat)),
   (2, some (.integer self.seq.toNat)),
   (3, some (.bytes self.senderUserId)),
   (4, some (.bytes self.ciphertext)),
   (5, self.signature.map .bytes)]

instance : Ctap2Cbor Envelope where
  toCborValue self := fieldsToValue self.fields self.extensions

/-- `to_fixed`: a byte string of exactly `n` bytes. -/
def toFixed (n : ℕ) (bytes : Bytes) : Except SpexError Bytes :=
  if bytes.length ≠ n then .error (.invalidLength "fixed array") else .ok bytes

end Spex
