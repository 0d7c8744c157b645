import Spex.Isolation

/-!
# Requests with forged grants

Anybody can send a request with a grant that names another identity. The bridge
rejects it, but logs it for that identity and lowers its reputation, and the next
requests of the identity pay for it. A run with inserted requests looks like the
run without them if no logged row of an inserted request is counted later and no
inserted request changes a score.
-/
namespace Spex.Bridge
open Transcript Selection

def Event.grant (event : Event) : Option GrantTokenPayload :=
  match event.action with
  | .putCard _ _ payload => some payload.grant
  | .putSlot _ _ payload => some payload.grant
  | .putInbox _ _ payload => some payload.grant
  | .advance _ | .fail _ => none

section Inserted
variable {crypto : BridgeCrypto} {limits : RateLimitConfig}

end Inserted

section Sample

end Sample

end Spex.Bridge
