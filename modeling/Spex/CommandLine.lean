import Spex.RequestHandshake
import Spex.SigningUses
import Spex.StateFile
import Spex.ThreadSends

/-!
# The command line

Every call of the program is a process of its own: it loads the state from the
encrypted file, runs one command on it, and saves the state if the command has
succeeded. What a command prints, hands to a transport or writes to another file is
out by then, whether the state is saved or not.
-/
namespace Spex.Cli
open Fallible StateFile Transcript

/-- A contact as it is stored. -/
structure KnownContact extends ContactState where
  fingerprint : String
  deviceIdHex : String
  lastSeenAt : UInt64
  deriving DecidableEq, Repr

/-- An item of the local inbox. -/
structure InboxItem where
  receivedAt : UInt64
  payloadBase64 : String
  deriving DecidableEq, Repr

/-- The local state with all its fields; the messages of a thread stand under its key. -/
structure CliState where
  identity : Option DeviceIdentity := none
  contacts : StringMap KnownContact := fun _ => none
  threads : StringMap ThreadState := fun _ => none
  messages : String → List MessageState := fun _ => []
  inbox : List InboxItem := []
  requests : List RequestState := []
  grants : List GrantState := []
  logBase64 : String := ""
  transportOutbox : List TransportOutboxItem := []
  p2pInbox : StringMap (List String) := fun _ => none
  transportGossip : StringMap (List String) := fun _ => none
  transportChunkStore : StringMap String := fun _ => none
  keyRotations : List KeyRotationState := []
  acceptedRequestIds : List String := []

section Views
variable (state : CliState)

/-- What the functions of the client read. -/
def CliState.client : LocalState where
  identity := state.identity.map (·.toLocalIdentity)
  contacts user := (state.contacts user).map (·.toContactState)
  threads := state.threads
  grants := state.grants
  p2pInbox := state.p2pInbox
  transportGossip := state.transportGossip
  transportChunkStore := state.transportChunkStore
  acceptedRequestIds := state.acceptedRequestIds

/-- The part of the state that sending works on. -/
def CliState.outgoing : OutgoingState where
  client := state.client
  messages := state.messages
  transportOutbox := state.transportOutbox

/-- The part that the commands of the log work on. -/
def CliState.log : LogState := ⟨state.identity, state.logBase64, state.keyRotations⟩

/-- The part that requests are filed in. -/
def CliState.requesting : RequestingState := { state.client with requests := state.requests }

/-- The state after a function of the client, which never changes the identity or the
contacts. -/
def CliState.putClient (client : LocalState) : CliState :=
  { state with
    threads := client.threads
    grants := client.grants
    p2pInbox := client.p2pInbox
    transportGossip := client.transportGossip
    transportChunkStore := client.transportChunkStore
    acceptedRequestIds := client.acceptedRequestIds }

/-- The state after messages have been taken in. -/
def CliState.putMail (mail : MailState) : CliState :=
  { state.putClient mail.client with messages := mail.messages }

/-- The state after a message has been sent. -/
def CliState.putOutgoing (outgoing : OutgoingState) : CliState :=
  { state.putMail outgoing.toMailState with transportOutbox := outgoing.transportOutbox }

/-- The state after the log has changed. -/
def CliState.putLog (log : LogState) : CliState :=
  { state with
    identity := log.identity
    logBase64 := log.logBase64
    keyRotations := log.keyRotations }

end Views

/-- The errors of the client, those of the state file, and a process that does not end
and is stopped from outside. -/
inductive CliError where
  | client (error : ClientError)
  | file (error : StateFileError)
  | unfinished
  deriving DecidableEq, Repr

abbrev CliResult (α : Type) := Except (Fault CliError) α

/-- A failure of the client library. -/
def fromClient {α : Type} (result : ClientResult α) : CliResult α :=
  result.mapError (Fault.map .client)

/-- A failure to read or write a file. -/
def fromFile {α : Type} (result : Except String α) : CliResult α :=
  result.mapError fun message => .returned (.file (.io message))

/-- What leaves the process before it ends: printed lines, envelopes handed to the
bridge with the inbox they are for, messages announced to peers, and files. -/
structure Effects where
  lines : List String := []
  handed : List (Bytes × Envelope) := []
  announced : List ThreadMessageDispatch := []
  written : List (String × String) := []

/-- Nothing but lines of output. -/
def Effects.print (lines : List String) : Effects := { lines }

/-- What a command has come to. -/
structure Ran where
  result : CliResult CliState
  effects : Effects

/-- A command that prints and writes only once it has succeeded. -/
def Ran.ofResult (result : CliResult (CliState × Effects)) : Ran where
  result := result.map Prod.fst
  effects := (result.toOption.map Prod.snd).getD {}

/-- The primitives and the libraries of the client. -/
structure CliEnv extends ClientCrypto where
  library : Ciborium
  logCodec : LogCodec
  manifestJson : Codec ChunkManifest
  requestJson : Codec RequestToken
  grantJson : SignedGrantToken → Bytes
  sortUnstable : List Chunk → List Chunk

section Identities
variable (env : CliEnv) (state : CliState)

/-- The text that a user compares to recognise a key. -/
def fingerprintHex (bytes : Bytes) : String := Hex.encode (hashBytes env.sha256 .sha256 bytes)

/-- What is printed in place of a private value: the start of its hash. -/
def digestPrefix (value : String) : String :=
  String.ofList ((Hex.encode (hashBytes env.sha256 .sha256 (Value.utf8 value))).toList.take 16)

/-- A fresh identity from random bytes. -/
def createIdentity (seed userId deviceId deviceNonce : Bytes) : DeviceIdentity where
  userIdHex := Hex.encode userId
  signingKeyHex := Hex.encode seed
  verifyingKeyHex := Hex.encode (env.verifyKey seed)
  deviceIdHex := Hex.encode deviceId
  deviceNonceHex := Hex.encode deviceNonce

/-- The identity, or the error of a command that needs one. -/
def requireIdentity : ClientResult DeviceIdentity :=
  state.identity.elim (.error (.returned .missingIdentity)) .ok

/-- An identity that is there already is replaced. -/
def identityNew (seed userId deviceId deviceNonce : Bytes) : Ran := .ofResult do
  let identity := createIdentity env seed userId deviceId deviceNonce
  let verifyingKey ← fromClient (hexDecode identity.verifyingKeyHex)
  return ({ state with identity := some identity }, .print [
    "identity created",
    "user_id digest: " ++ digestPrefix env identity.userIdHex,
    "fingerprint: " ++ fingerprintHex env verifyingKey])

/-- The lines before the new fingerprint are printed even if it cannot be computed. -/
def identityRotate (seed deviceNonce : Bytes) (rotatedAt revokedAt issuedAt : UInt64) : Ran :=
  match rotateIdentityInState env.sha256 env.logCodec env.verifyKey state.log seed deviceNonce
    rotatedAt revokedAt issuedAt with
  | (.error fault, _) => ⟨.error (fault.map .client), {}⟩
  | (.ok rotation, log) =>
    let lines := ["identity rotated",
      "new user_id digest: " ++ digestPrefix env rotation.newIdentity.userIdHex]
    match hexDecode rotation.newIdentity.verifyingKeyHex with
    | .error fault => ⟨.error (fault.map .client), .print lines⟩
    | .ok verifyingKey => ⟨.ok (state.putLog log),
        .print (lines ++ ["new fingerprint: " ++ fingerprintHex env verifyingKey])⟩

end Identities

section Cards
variable (env : CliEnv) (state : CliState)

/-- A signed card for the identity, as its owner hands it out. -/
def createContactCardPayload (identity : DeviceIdentity) (now : UInt64) : ClientResult String := do
  let card ← buildContactCard env.toClientCrypto identity now
  let cardBytes ← (toCtap2CanonicalBytes card).mapError coreFault
  return Base64.encode cardBytes

/-- The contact as saved, and what was known of it before. -/
structure ContactRedeemOutcome where
  contact : KnownContact
  previousFingerprint : Option String
  keyChanged : Bool
  deriving DecidableEq, Repr

/-- The card replaces what is known of its user, also when the key is another. -/
def redeemContactCardToState (payload : String) (now : UInt64) :
    ClientResult (ContactRedeemOutcome × CliState) := do
  let card ← redeemContactCardPayload env.library.fromReader env.toBridgeCrypto payload
  let userIdHex := Hex.encode card.userId
  let fingerprint := fingerprintHex env card.verifyingKey
  let previousFingerprint := (state.contacts userIdHex).map (·.fingerprint)
  let keyChanged := (previousFingerprint.map fun existing => decide (existing ≠ fingerprint)).getD
    false
  let contact : KnownContact :=
    ⟨⟨userIdHex, Hex.encode card.verifyingKey⟩, fingerprint, Hex.encode card.deviceId, now⟩
  return (⟨contact, previousFingerprint, keyChanged⟩,
    { state with contacts := Function.update state.contacts userIdHex (some contact) })

/-- The display of `ClientFailureReason::KeyChanged`. -/
def keyChangedReason : String := "Identity key has changed since last contact."

/-- A changed key is reported and does not stop the command. -/
def ContactRedeemOutcome.failureReason (self : ContactRedeemOutcome) : Option String :=
  if self.keyChanged then some keyChangedReason else none

def alert (reason previous fingerprint : String) : String :=
  "ALERT: " ++ reason ++ " (old " ++ previous ++ ", new " ++ fingerprint ++ ")"

/-- The line about a changed key, if there is one. -/
def ContactRedeemOutcome.alerts (self : ContactRedeemOutcome) : List String :=
  match self.failureReason, self.previousFingerprint with
  | some reason, some previous => [alert reason previous self.contact.fingerprint]
  | _, _ => []

/-- What is told of a generated text: its length and its digest. -/
def generated (what text : String) : String :=
  what ++ " generated (base64_len: " ++ toString text.utf8ByteSize ++ ", sha256: " ++
    digestPrefix env text ++ ")"

def cardCreate (now : UInt64) : Ran := .ofResult do
  let identity ← fromClient (requireIdentity state)
  let payload ← fromClient (createContactCardPayload env identity now)
  return (state, .print [generated env "card" payload])

/-- The alerts come before the line that the contact is saved. -/
def cardRedeem (card : String) (now : UInt64) : Ran := .ofResult do
  let (outcome, state) ← fromClient (redeemContactCardToState env state card now)
  return (state, .print (outcome.alerts ++ [
    "contact saved digest: " ++ digestPrefix env outcome.contact.userIdHex,
    "fingerprint: " ++ outcome.contact.fingerprint]))

end Cards

section Requests
variable (env : CliEnv) (state : CliState)

def requestSend (toUserId : String) (role : UInt64) (nonce : PowNonce) (now : UInt64) : Ran :=
  .ofResult <| match createRequestForState env.toRequestCrypto env.requestJson state.requesting
    toUserId role nonce now with
  | (.error fault, _) => .error (fault.map .client)
  | (.ok outcome, requesting) => .ok ({ state with requests := requesting.requests },
      .print [generated env "request" outcome.tokenBase64])

/-- `accept_request_for_state`, with the default policy. -/
def grantAccept (request : String) (now clock : UInt64) : Ran := .ofResult <|
  match acceptRequestForStateWithPolicy env.toRequestCrypto env.requestJson env.grantJson
    state.client ⟨request, {}, now, clock⟩ with
  | (.error fault, _) => .error (fault.map .client)
  | (.ok outcome, client) => .ok (state.putClient client,
      .print [generated env "grant" outcome.grantTokenBase64])

/-- A request that is denied is read and not remembered. -/
def grantDeny (request : String) : Ran := .ofResult do
  let requestToken ← fromClient (parseRequestToken env.requestJson request)
  return (state, .print ["request denied (role " ++ toString requestToken.role ++ ")"])

end Requests

section Threads
variable (env : CliEnv) (state : CliState)

/-- `create_thread_for_state`, with the draws and the clock as arguments. -/
def createThreadForState (members : List String) (randomThreadId randomSecret : Bytes)
    (now : UInt64) : ClientResult (String × CliState) := do
  let identity ← requireIdentity state
  let thread ← createThreadState env.sha256 identity.toIdentityState members randomThreadId
    randomSecret now
  return (thread.threadIdHex, { state with
    threads := Function.update state.threads thread.threadIdHex (some thread)
    messages := Function.update state.messages thread.threadIdHex [] })

def threadNew (members : List String) (randomThreadId randomSecret : Bytes) (now : UInt64) :
    Ran := .ofResult do
  let (threadId, state) ← fromClient (createThreadForState env state members randomThreadId
    randomSecret now)
  return (state, .print ["thread: " ++ threadId])

/-- The flags that ask for peers. -/
structure PeerFlags where
  p2p : Bool
  peer : List String
  bootstrap : List String
  listenAddr : List String

/-- Any of the options for peers asks for them. -/
def shouldUseP2p (flags : PeerFlags) : Bool :=
  flags.p2p || !flags.peer.isEmpty || !flags.bootstrap.isEmpty || !flags.listenAddr.isEmpty

/-- What a send draws and reads from its clocks, what the bridge answers for each inbox,
and what the node answers when it is built and when it publishes. -/
structure SendCourse where
  nonce : List.Vector UInt8 12
  publishedAt : UInt64
  sentAt : UInt64
  bridge : ℕ → ClientResult Unit
  transport : ClientResult Unit
  publish : ClientResult Unit

/-- The loop over the inboxes of the recipients, from the one with a given number on. -/
def publishEach (answers : ℕ → ClientResult Unit) (envelope : Envelope) :
    ℕ → List Bytes → ClientResult Unit × List (Bytes × Envelope)
  | _, [] => (.ok (), [])
  | n, recipient :: recipients =>
    match answers n with
    | .error fault => (.error fault, [(recipient, envelope)])
    | .ok () =>
      let published := publishEach answers envelope (n + 1) recipients
      (published.1, (recipient, envelope) :: published.2)

/-- The part of `msg send` for the bridge. -/
def sendToBridge (bridgeUrl : Option String) (course : SendCourse)
    (dispatch : ThreadMessageDispatch) : ClientResult Unit × Effects :=
  match bridgeUrl with
  | none => (.ok (), {})
  | some _ =>
    match publishEach course.bridge dispatch.envelope 0 dispatch.recipientInboxKeys with
    | (.error fault, handed) => (.error fault, { handed })
    | (.ok (), handed) => (.ok (), { handed, lines := ["bridge: published envelope to " ++
        toString dispatch.recipientInboxKeys.length ++ " inboxes"] })

/-- The part of `msg send` for the peers. -/
def sendToPeers (flags : PeerFlags) (course : SendCourse) (dispatch : ThreadMessageDispatch) :
    ClientResult Unit × Effects :=
  if shouldUseP2p flags then
    match course.transport, course.publish with
    | .error fault, _ => (.error fault, {})
    | .ok (), .error fault => (.error fault, { announced := [dispatch] })
    | .ok (), .ok () => (.ok (), { announced := [dispatch], lines := [
        "p2p: published manifest to " ++ toString dispatch.recipientInboxKeys.length ++
          " inboxes"] })
  else (.ok (), {})

/-- The state is saved only after the message has been handed to the bridge and the peers. -/
def msgSend (thread text : String) (bridgeUrl : Option String) (flags : PeerFlags)
    (course : SendCourse) : Ran :=
  match sendThreadMessageForState env.toCrypto env.manifestJson state.outgoing thread text
    course.nonce.val course.publishedAt course.sentAt with
  | (.error fault, _) => ⟨.error (fault.map .client), {}⟩
  | (.ok dispatch, outgoing) =>
    match sendToBridge bridgeUrl course dispatch with
    | (.error fault, handed) => ⟨.error (fault.map .client), handed⟩
    | (.ok (), handed) =>
      match sendToPeers flags course dispatch with
      | (.error fault, announced) => ⟨.error (fault.map .client),
          { handed with announced := announced.announced }⟩
      | (.ok (), announced) => ⟨.ok (state.putOutgoing outgoing),
          { handed with
            announced := announced.announced
            lines := handed.lines ++ announced.lines ++ ["message published via transport (" ++
              toString dispatch.chunkCount ++ " chunks)"] }⟩

end Threads

section Inboxes
variable (env : CliEnv) (state : CliState)

/-- The bridge is asked when the peers fail or have nothing. -/
def recoverPayloadsWithFallback (recovered : Except TransportError (List Bytes))
    (inboxKey : Bytes) (bridge : Option Bridge.View) : Option (ClientResult InboxScanResponse) :=
  let fallback (otherwise : ClientResult InboxScanResponse) := match bridge with
    | some bridge => (scanInbox bridge inboxKey).map (Except.mapError transportFault)
    | none => some otherwise
  match recovered with
  | .error err => fallback (.error (transportFault err))
  | .ok [] => fallback (.ok ⟨[], .kademlia⟩)
  | .ok payloads => some (.ok ⟨payloads, .kademlia⟩)

/-- What a poll meets: the node when it is built, what it recovers, the bridge, and the
clock for each message. -/
structure PollCourse where
  transport : ClientResult Unit
  recovered : Except TransportError (List Bytes)
  bridge : Bridge.View
  clock : ℕ → UInt64

def sourceName : InboxSource → String
  | .kademlia => "Kademlia"
  | .bridge => "Bridge"

/-- A message is reported by the digest of its sender and its length. -/
def receiptLines (receipts : List InboxMessageReceipt) (source : InboxSource) : List String :=
  receipts.map (fun receipt => "message: sender_digest=" ++
    digestPrefix env receipt.senderUserIdHex ++ " chars=" ++
      toString receipt.text.toList.length) ++
    ["inbox: " ++ toString receipts.length ++ " items (source: " ++ sourceName source ++ ")"]

/-- The end of a poll: what was recorded is printed. -/
def recordedRan (source : InboxSource) :
    ClientResult (List InboxMessageReceipt) × MailState → CliResult (CliState × Effects)
  | (.error fault, _) => .error (fault.map .client)
  | (.ok receipts, mail) => .ok (state.putMail mail, .print (receiptLines env receipts source))

/-- The messages that the peers or the bridge hold. -/
def pollPeers (inboxKey : Bytes) (bridge : Option Bridge.View) (course : PollCourse) :
    CliResult (CliState × Effects) := do
  fromClient course.transport
  let response ← (recoverPayloadsWithFallback course.recovered inboxKey bridge).elim
    (.error (.returned .unfinished)) fromClient
  recordedRan env state response.source (ingestInboxPayloads env.toMessageCrypto env.library
    course.clock state.outgoing.toMailState response.items)

/-- The messages that were staged locally, or else those on the bridge. -/
def pollCaches (inboxKey : Bytes) (bridge : Option Bridge.View) (course : PollCourse) :
    CliResult (CliState × Effects) := do
  let received := if transportInboxHasItems env.sha256 state.client inboxKey
    then
      let received := receiveTransportMessages env.toMessageCrypto env.library env.manifestJson
        env.sortUnstable state.client inboxKey
      (some received.1, received.2)
    else receiveInboxMessages env.toMessageCrypto env.library state.client inboxKey bridge
  let response ← received.1.elim (.error (.returned .unfinished)) fromClient
  recordedRan env state response.source (recordInboxMessages course.clock
    ⟨received.2, state.messages⟩ response.items)

/-- Without a key, the local inbox is counted and emptied. -/
def inboxPoll (inboxKey : Option String) (bridgeUrl : Option String) (flags : PeerFlags)
    (course : PollCourse) : Ran := .ofResult <|
  match inboxKey with
  | none => .ok ({ state with inbox := [] },
      .print ["local inbox: " ++ toString state.inbox.length ++ " items"])
  | some inboxKey => do
    let inboxKey ← fromClient (hexDecode inboxKey)
    let bridge := bridgeUrl.map fun _ => course.bridge
    if shouldUseP2p flags then pollPeers env state inboxKey bridge course
    else pollCaches env state inboxKey bridge course

end Inboxes

section Logs
variable (env : CliEnv) (state : CliState)

/-- The entry that announces a recovery key. -/
def createRecoveryEntry (identity : DeviceIdentity) (recoveryKey : Bytes) (now : UInt64) :
    ClientResult RecoveryKey := do
  let userId ← hexDecode identity.userIdHex
  return ⟨userId, recoveryKey, now⟩

/-- The entry for the keys of the identity as they are. -/
def createCheckpointEntry (identity : DeviceIdentity) (now : UInt64) :
    ClientResult KeyCheckpoint := do
  let userId ← hexDecode identity.userIdHex
  let verifyingKey ← hexDecode identity.verifyingKeyHex
  let deviceId ← hexDecode identity.deviceIdHex
  return ⟨userId, verifyingKey, deviceId, now⟩

/-- The entry that revokes a key, by hash, with the recovery key if one is given. -/
def createRevocationEntry (identity : DeviceIdentity) (revokedKeyHex : String)
    (recoveryHex reason : Option String) (now : UInt64) : ClientResult RevocationDeclaration := do
  let revokedKey ← hexDecode revokedKeyHex
  let recoveryKeyHash ← recoveryHex.mapM fun value =>
    (hexDecode value).map (hashBytes env.sha256 .sha256)
  let userId ← hexDecode identity.userIdHex
  return ⟨userId, hashBytes env.sha256 .sha256 revokedKey, now, recoveryKeyHash, reason⟩

/-- Appending an entry at hand, and the log that was saved. -/
def appendAndSave (entry : CheckpointEntry) : ClientResult (CheckpointLog × CliState) := do
  let log ← loadCheckpointLog env.sha256 env.logCodec state.log
  let log ← appendEntry env.sha256 log entry
  let saved ← saveCheckpointLog env.logCodec state.log log
  return (log, state.putLog saved)

def appended (log : CheckpointLog) : String :=
  "checkpoint appended (len: " ++ toString log.entries.length ++ ")"

/-- The current keys are appended to the log. -/
def logAppendCheckpoint (now : UInt64) : Ran := .ofResult do
  let identity ← fromClient (requireIdentity state)
  let entry ← fromClient (createCheckpointEntry identity now)
  let (log, state) ← fromClient (appendAndSave env state (.key entry))
  return (state, .print [appended log])

/-- A recovery key is announced in the log and printed as a digest. -/
def logCreateRecoveryKey (recoveryKey : Bytes) (now : UInt64) : Ran := .ofResult do
  let identity ← fromClient (requireIdentity state)
  let entry ← fromClient (createRecoveryEntry identity recoveryKey now)
  let (log, state) ← fromClient (appendAndSave env state (.recovery entry))
  let recoveryHex := Hex.encode entry.recoveryKey
  return (state, .print ["recovery key generated (hex_len: " ++
    toString recoveryHex.utf8ByteSize ++ ", sha256: " ++ digestPrefix env recoveryHex ++ ")",
    appended log])

/-- How long a recovery key is good for. -/
def recoveryMaxAgeSeconds : UInt64 := 60 * 60 * 24 * 365

/-- The log is saved only if it has changed; the two readings of the clock are for the
declaration and for the age of the recovery key. -/
def logRevokeKey (keyHex : String) (recoveryHex reason : Option String)
    (revokedAt now : UInt64) : Ran := .ofResult do
  let identity ← fromClient (requireIdentity state)
  let log ← fromClient (loadCheckpointLog env.sha256 env.logCodec state.log)
  let entry ← fromClient (createRevocationEntry env identity keyHex recoveryHex reason revokedAt)
  let outcome := appendRevocationEntryChecked env.sha256 log identity entry recoveryMaxAgeSeconds
    now
  let changed ← fromClient outcome.1
  let count := toString outcome.2.entries.length
  if changed then
    let saved ← fromClient (saveCheckpointLog env.logCodec state.log outcome.2)
    return (state.putLog saved, .print ["revocation appended (len: " ++ count ++ ")"])
  else return (state, .print ["revocation already present (len: " ++ count ++ ")"])

/-- `written` is the answer of the file system. -/
def logExport (path : String) (written : Except String Unit) : Ran := .ofResult do
  let log ← fromClient (loadCheckpointLog env.sha256 env.logCodec state.log)
  let encoded ← fromClient ((log.exportBase64 env.logCodec).mapError logFault)
  fromFile written
  return (state, { lines := ["log exported"], written := [(path, encoded)] })

/-- The records come from the database of the bridge, as JSON. -/
def logExportAbuse (path : String) (records : ClientResult (List String))
    (written : Except String Unit) : Ran := .ofResult do
  let records ← fromClient records
  fromFile written
  return (state, {
    lines := ["abuse log exported (records: " ++ toString records.length ++ ")"]
    written := [(path, String.intercalate "\n" records)] })

/-- Reading a log from the text of a file. -/
def readLog (contents : Except String String) : CliResult CheckpointLog := do
  let encoded ← fromFile contents
  fromClient ((CheckpointLog.importBase64 env.sha256 env.logCodec (trim encoded)).mapError logFault)

/-- The log of the file replaces the one of the state. -/
def logImport (contents : Except String String) : Ran := .ofResult do
  let log ← readLog env contents
  let saved ← fromClient (saveCheckpointLog env.logCodec state.log log)
  return (state.putLog saved,
    .print ["log imported (len: " ++ toString log.entries.length ++ ")"])

def consistencyName : LogConsistency → String
  | .identical => "identical"
  | .localBehind => "local-behind"
  | .localAhead => "local-ahead"
  | .diverged => "diverged"

/-- The log of the file is compared with the one of the state. -/
def logGossipVerify (contents : Except String String) : Ran := .ofResult do
  let remote ← readLog env contents
  let local' ← fromClient (loadCheckpointLog env.sha256 env.logCodec state.log)
  let consistency := local'.compareWith remote
  let localRoot ← fromClient ((local'.merkleRoot env.sha256).mapError logFault)
  let remoteRoot ← fromClient ((remote.merkleRoot env.sha256).mapError logFault)
  return (state, .print [
    "local entries: " ++ toString local'.entries.length,
    "remote entries: " ++ toString remote.entries.length,
    "local root: " ++ Hex.encode localRoot,
    "remote root: " ++ Hex.encode remoteRoot,
    "consistency: " ++ consistencyName consistency])

def logInfo : Ran := .ofResult do
  let log ← fromClient (loadCheckpointLog env.sha256 env.logCodec state.log)
  let root ← fromClient ((log.merkleRoot env.sha256).mapError logFault)
  return (state, .print ["entries: " ++ toString log.entries.length, "root: " ++ Hex.encode root])

end Logs

/-- The commands, with what they draw, what their clocks say and what the files and the
network answer. -/
inductive Command where
  | identityNew (seed userId deviceId deviceNonce : Bytes)
  | identityRotate (seed deviceNonce : Bytes) (rotatedAt revokedAt issuedAt : UInt64)
  | cardCreate (now : UInt64)
  | cardRedeem (card : String) (now : UInt64)
  | requestSend (toUserId : String) (role : UInt64) (nonce : PowNonce) (now : UInt64)
  | grantAccept (request : String) (now clock : UInt64)
  | grantDeny (request : String)
  | threadNew (members : List String) (randomThreadId randomSecret : Bytes) (now : UInt64)
  | msgSend (thread text : String) (bridgeUrl : Option String) (flags : PeerFlags)
      (course : SendCourse)
  | inboxPoll (inboxKey bridgeUrl : Option String) (flags : PeerFlags) (course : PollCourse)
  | logAppendCheckpoint (now : UInt64)
  | logCreateRecoveryKey (recoveryKey : Bytes) (now : UInt64)
  | logRevokeKey (keyHex : String) (recoveryHex reason : Option String) (revokedAt now : UInt64)
  | logExport (path : String) (written : Except String Unit)
  | logExportAbuse (path : String) (records : ClientResult (List String))
      (written : Except String Unit)
  | logImport (contents : Except String String)
  | logGossipVerify (contents : Except String String)
  | logInfo

/-- What a command makes of a state. -/
def Command.run (env : CliEnv) (state : CliState) : Command → Ran
  | .identityNew seed userId deviceId deviceNonce =>
    Cli.identityNew env state seed userId deviceId deviceNonce
  | .identityRotate seed deviceNonce rotatedAt revokedAt issuedAt =>
    Cli.identityRotate env state seed deviceNonce rotatedAt revokedAt issuedAt
  | .cardCreate now => Cli.cardCreate env state now
  | .cardRedeem card now => Cli.cardRedeem env state card now
  | .requestSend toUserId role nonce now => Cli.requestSend env state toUserId role nonce now
  | .grantAccept request now clock => Cli.grantAccept env state request now clock
  | .grantDeny request => Cli.grantDeny env state request
  | .threadNew members randomThreadId randomSecret now =>
    Cli.threadNew env state members randomThreadId randomSecret now
  | .msgSend thread text bridgeUrl flags course =>
    Cli.msgSend env state thread text bridgeUrl flags course
  | .inboxPoll inboxKey bridgeUrl flags course =>
    Cli.inboxPoll env state inboxKey bridgeUrl flags course
  | .logAppendCheckpoint now => Cli.logAppendCheckpoint env state now
  | .logCreateRecoveryKey recoveryKey now => Cli.logCreateRecoveryKey env state recoveryKey now
  | .logRevokeKey keyHex recoveryHex reason revokedAt now =>
    Cli.logRevokeKey env state keyHex recoveryHex reason revokedAt now
  | .logExport path written => Cli.logExport env state path written
  | .logExportAbuse path records written => Cli.logExportAbuse state path records written
  | .logImport contents => Cli.logImport env state contents
  | .logGossipVerify contents => Cli.logGossipVerify env state contents
  | .logInfo => Cli.logInfo env state

section Processes

/-- The state file, if there is one, and the keyring. -/
structure Disk where
  contents : Option String
  keyring : Keyring

/-- The libraries behind the state file, with the reader of a file that is not
encrypted. -/
structure StateLibraries extends Libraries CliState where
  fromText : String → Except String CliState

/-- What becomes of a write to the state file: it is done, it fails before anything is
written, or it fails and leaves something else. -/
inductive WriteAnswer where
  | done
  | refused (message : String)
  | torn (message left : String)

/-- One call of the program, with what the file system says about reading a state file
that exists and about its directory. -/
structure Invocation where
  command : Command
  unreadable : Option String := none
  directory : Except String Unit := .ok ()
  loadRng : SysRng
  saveRng : SysRng
  answer : WriteAnswer

/-- What a call of the program shows of itself. -/
structure CliOutcome where
  result : CliResult Unit
  effects : Effects

/-- A failure to decrypt or encrypt the file of the state. -/
def fromState {α : Type} (result : StateResult α) : CliResult α :=
  result.mapError (Fault.map .file)

variable (libraries : StateLibraries) (environment : Environment)

/-- A file that is not encrypted is read as it is, and a missing one as a fresh state. -/
def loadState (rng : SysRng) (unreadable : Option String) (disk : Disk) :
    CliResult CliState × Disk :=
  match disk.contents with
  | none => (.ok {}, disk)
  | some contents =>
    match unreadable with
    | some message => (.error (.returned (.file (.io message))), disk)
    | none =>
      match parseEncryptedStateFile libraries.toLibraries contents with
      | some encrypted =>
        let decrypted := decryptStateFile libraries.toLibraries environment rng encrypted
          disk.keyring
        (fromState decrypted.1, { disk with keyring := decrypted.2 })
      | none => (fromState ((libraries.fromText contents).mapError jsonFault), disk)

/-- The file is written over, so a write that stops midway leaves it torn. -/
def saveState (rng : SysRng) (directory : Except String Unit) (answer : WriteAnswer)
    (state : CliState) (disk : Disk) : CliResult Unit × Disk :=
  match directory with
  | .error message => (.error (.returned (.file (.io message))), disk)
  | .ok () =>
    match encryptStateFile libraries.toLibraries environment rng state disk.keyring with
    | (.error fault, keyring) => (.error (fault.map .file), { disk with keyring })
    | (.ok contents, keyring) =>
      match answer with
      | .done => (.ok (), ⟨some contents, keyring⟩)
      | .refused message => (.error (.returned (.file (.io message))), { disk with keyring })
      | .torn message left => (.error (.returned (.file (.io message))), ⟨some left, keyring⟩)

/-- A command that fails is not saved. -/
def runCli (env : CliEnv) (disk : Disk) (invocation : Invocation) : CliOutcome × Disk :=
  match loadState libraries environment invocation.loadRng invocation.unreadable disk with
  | (.error fault, disk) => (⟨.error fault, {}⟩, disk)
  | (.ok state, disk) =>
    let ran := invocation.command.run env state
    match ran.result with
    | .error fault => (⟨.error fault, ran.effects⟩, disk)
    | .ok state =>
      let saved := saveState libraries environment invocation.saveRng invocation.directory
        invocation.answer state disk
      (⟨saved.1, ran.effects⟩, saved.2)

/-- Calls of the program, one after the other. -/
def cliRun (env : CliEnv) (disk : Disk) (invocations : List Invocation) :
    List (Turn Disk Invocation CliOutcome) :=
  transcript (runCli libraries environment env) disk invocations

end Processes
end Spex.Cli
