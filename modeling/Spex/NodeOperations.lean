import Spex.QueryBudget
import Spex.Staging

/-!
# Publishing and recovering on a node

A node announces the manifest of a payload on the topic of every inbox, and recovers
payloads from the manifests that it hears while it waits for an inbox. The node hears the
messages of every topic that it has subscribed to, whatever inbox it waits for. Its
counters say how the operations ended.
-/
namespace Spex.P2p
open Fallible Transcript Timers

inductive Operation where
  | publish
  | query
  | recovery
  deriving DecidableEq, Repr

/-- The counters of an operation, which are `u64`, as long as none has wrapped. -/
structure OperationCounters where
  success : ℕ := 0
  timeout : ℕ := 0
  retries : ℕ := 0
  attempts : ℕ := 0
  latencyMs : List ℕ := []
  deriving DecidableEq, Repr

/-- The counters that the operations of a node write. -/
structure P2pMetricsSnapshot where
  operations : Operation → OperationCounters := fun _ => {}
  reassembleFailures : ℕ := 0
  verificationFailures : ℕ := 0

namespace P2pMetricsSnapshot
variable (metrics : P2pMetricsSnapshot) (operation : Operation)

/-- One operation is counted, the others are left alone. -/
def count (change : OperationCounters → OperationCounters) : P2pMetricsSnapshot :=
  { metrics with operations :=
      Function.update metrics.operations operation (change (metrics.operations operation)) }

def recordAttempt : P2pMetricsSnapshot :=
  metrics.count operation fun counters => { counters with attempts := counters.attempts + 1 }

def recordRetry : P2pMetricsSnapshot :=
  metrics.count operation fun counters => { counters with retries := counters.retries + 1 }

def recordTimeout : P2pMetricsSnapshot :=
  metrics.count operation fun counters => { counters with timeout := counters.timeout + 1 }

/-- A success also notes how long it took. -/
def recordSuccess (latency : ℕ) : P2pMetricsSnapshot :=
  metrics.count operation fun counters => { counters with
    success := counters.success + 1
    latencyMs := counters.latencyMs ++ [latency] }

def recordReassembleFailure : P2pMetricsSnapshot :=
  { metrics with reassembleFailures := metrics.reassembleFailures + 1 }

def recordVerificationFailure : P2pMetricsSnapshot :=
  { metrics with verificationFailures := metrics.verificationFailures + 1 }

/-- `record_retry` so many times. -/
def recordRetries (n : ℕ) : P2pMetricsSnapshot :=
  n.repeat (fun metrics => metrics.recordRetry operation) metrics

end P2pMetricsSnapshot

/-- A message on a topic of the network. -/
structure GossipMessage where
  topic : String
  data : Bytes
  deriving DecidableEq, Repr

/-- A node with its subscriptions, the messages that the network has taken from it, the
records that it has put into the table, and its snapshot file. -/
structure RunningNode (Peer : Type) extends TransportNode Peer where
  metrics : P2pMetricsSnapshot := {}
  subscriptions : List String := []
  sent : List GossipMessage := []
  provided : List (Bytes × Bytes) := []
  disk : SnapshotDisk

inductive OperationError where
  | node (error : NodeError)
  | gossipPublish (message : String)
  deriving DecidableEq, Repr

/-- What the nodes of a network have in common: the JSON of manifests, the hash of the
topics, and the hash and the order of chunks. -/
structure WireFormat where
  manifestJson : Codec ChunkManifest
  sha256 : Bytes → Bytes
  hashBytes : Bytes → Bytes
  sortUnstable : List Chunk → List Chunk

/-- The libraries and the configuration of a node. -/
structure NodeEnv (Peer : Type) extends WireFormat where
  libp2p : Libp2p Peer
  snapshotJson : Codec PersistedBootstrapState
  iterate : List PersistedPeer → List PersistedPeer
  config : P2pNodeConfig Peer

/-- The topic of an inbox names the hash of its key. -/
def inboxGossipTopic (hashedKey : Bytes) : String := "spex/transport/" ++ Hex.encode hashedKey

/-- `max_retries` of `adaptive_retry`. -/
def maxRetries : ℕ := 6

section Definitions
variable {Peer QueryId : Type} [DecidableEq QueryId] (env : NodeEnv Peer)

def WireFormat.inboxTopic (wire : WireFormat) (inboxKey : Bytes) : String :=
  inboxGossipTopic (deriveInboxScanKey wire.sha256 .sha256 inboxKey)

/-- The state of the node is written to disk. -/
def NodeEnv.persist (node : RunningNode Peer) (now : Moment) :
    Except (Fault OperationError) SnapshotDisk :=
  (persistState env.libp2p env.snapshotJson env.iterate env.config node.toTransportNode now
    node.disk).mapError (Fault.map .node)

/-- The answer to a call of `publish`; without peers also whether the deadline is ahead. -/
inductive PublishAnswer where
  | accepted
  | noPeersSubscribed (inTime : Bool)
  | failed (message : String)
  deriving DecidableEq, Repr

/-- What the network answers while a manifest is announced to an inbox: to the
subscription, and to every call of `publish`. -/
structure InboxCourse where
  inboxKey : Bytes
  subscribeError : Option String := none
  answers : ℕ → PublishAnswer := fun _ => .accepted

def publishTimedOut : OperationError :=
  .node (.libp2p "manifest publish timed out waiting for peers")

/-- The loop around `publish`, with the retries that are left. -/
def announceLoop (message : GossipMessage) (answers : ℕ → PublishAnswer) (left attempts : ℕ)
    (node : RunningNode Peer) : Except (Fault OperationError) Unit × RunningNode Peer :=
  match answers attempts, left with
  | .accepted, _ => (.ok (), { node with sent := node.sent ++ [message] })
  | .noPeersSubscribed true, left + 1 =>
    announceLoop message answers left (attempts + 1)
      { node with metrics := node.metrics.recordRetry .publish }
  | .noPeersSubscribed _, _ => (.error (.returned publishTimedOut),
      { node with metrics := node.metrics.recordTimeout .publish })
  | .failed text, _ => (.error (.returned (.gossipPublish text)), node)

/-- One turn of the loop over the inboxes. -/
def announce (payload : Bytes) (course : InboxCourse) (node : RunningNode Peer) :
    Except (Fault OperationError) Unit × RunningNode Peer :=
  match course.subscribeError with
  | some text => (.error (.returned (.node (.libp2p text))), node)
  | none =>
    let topic := env.inboxTopic course.inboxKey
    announceLoop ⟨topic, payload⟩ course.answers maxRetries 0
      { node with subscriptions := node.subscriptions.insert topic }

/-- The inboxes are announced to one after the other, up to the first failure. -/
def announceEach (payload : Bytes) :
    List InboxCourse → RunningNode Peer → Except (Fault OperationError) Unit × RunningNode Peer
  | [], node => (.ok (), node)
  | course :: courses, node =>
    match announce env payload course node with
    | (.error err, node) => (.error err, node)
    | (.ok (), node) => announceEach payload courses node

/-- The records of the chunks. What the table answers to them is ignored. -/
def putRecords (chunks : List Chunk) (node : RunningNode Peer) : RunningNode Peer :=
  { node with provided := node.provided ++ chunks.map fun chunk => (chunk.hash, chunk.data) }

/-- What `publish_to_inboxes` does before the first inbox. -/
def beginPublish (courses : List InboxCourse) (manifest : ChunkManifest) (chunks : List Chunk)
    (node : RunningNode Peer) : RunningNode Peer :=
  putRecords chunks { node with
    knownManifests := node.knownManifests ++ [manifest]
    metrics := node.metrics.recordAttempt .publish
    knownIndexKeys := courses.foldl (fun keys course => keys.insert (Hex.encode course.inboxKey))
      node.knownIndexKeys }

/-- What `publish_to_inboxes` does after the last inbox. -/
def finishPublish (now : Moment) (latency : ℕ) (node : RunningNode Peer) :
    Except (Fault OperationError) Unit × RunningNode Peer :=
  match env.persist node now with
  | .error fault => (.error fault, node)
  | .ok disk => (.ok (), { node with disk, metrics := node.metrics.recordSuccess .publish latency })

/-- The chunks are stored before the manifest is announced. -/
def publishToInboxes (courses : List InboxCourse) (manifest : ChunkManifest) (chunks : List Chunk)
    (now : Moment) (latency : ℕ) (node : RunningNode Peer) :
    Except (Fault OperationError) Unit × RunningNode Peer :=
  match announceEach env (env.manifestJson.toVec manifest) courses
      (beginPublish courses manifest chunks node) with
  | (.error fault, node) => (.error fault, node)
  | (.ok (), node) => finishPublish env now latency node

/-- What the network does while the chunks of a manifest are fetched. -/
structure FetchCourse (QueryId : Type) where
  ids : List QueryId
  events : List (FetchEvent QueryId)
  deadline : ℕ
  latency : ℕ

/-- The run of the loop that fetches the chunks. -/
def FetchCourse.run (course : FetchCourse QueryId) (hashBytes : Bytes → Bytes)
    (manifest : ChunkManifest) : FetchRun QueryId :=
  fetchRun hashBytes manifest maxRetries course.deadline course.ids course.events

/-- `fetch_manifest_chunks` with its counters, `none` while it waits for an event. -/
def fetchChunks (manifest : ChunkManifest) (course : FetchCourse QueryId)
    (node : RunningNode Peer) : Option (Except NodeError ChunkStore × RunningNode Peer) :=
  let retries := (reissuedIn maxRetries course.deadline
    (course.run env.hashBytes manifest)).length
  let metrics := (node.metrics.recordAttempt .query).recordRetries .query retries
  (fetchManifestChunks env.hashBytes manifest maxRetries course.deadline course.ids
    course.events).map fun result =>
    match result with
    | .ok store => (.ok store, { node with metrics := metrics.recordSuccess .query course.latency })
    | .error err => (.error err, { node with metrics := metrics.recordTimeout .query })

/-- One turn of the loop over the messages that were heard. -/
def recoverMessage (data : Bytes) (course : FetchCourse QueryId) (node : RunningNode Peer) :
    Option (Option Bytes × RunningNode Peer) :=
  match env.manifestJson.fromSlice data with
  | none => some (none, { node with metrics := node.metrics.recordVerificationFailure })
  | some manifest =>
    (fetchChunks env manifest course node).map fun
    | (.error _, node) => (none, { node with metrics := node.metrics.recordVerificationFailure })
    | (.ok store, node) =>
      match reassemblePayloadFromStore env.hashBytes env.sortUnstable manifest store with
      | .error _ => (none, { node with metrics := node.metrics.recordReassembleFailure })
      | .ok payload => (some payload, node)

/-- The payload of a message, if there is one, once its chunks have been fetched. -/
def payloadOf (wire : WireFormat) (data : Bytes) (course : FetchCourse QueryId) :
    Option (Option Bytes) :=
  match wire.manifestJson.fromSlice data with
  | none => some none
  | some manifest =>
    (fetchManifestChunks wire.hashBytes manifest maxRetries course.deadline course.ids
      course.events).map fun
    | .error _ => none
    | .ok store =>
      (reassemblePayloadFromStore wire.hashBytes wire.sortUnstable manifest store).toOption

/-- The payloads of the messages whose manifest could be recovered. -/
def recoverMessages : List (Bytes × FetchCourse QueryId) → RunningNode Peer →
    Option (List Bytes × RunningNode Peer)
  | [], node => some ([], node)
  | (data, course) :: messages, node =>
    (recoverMessage env data course node).bind fun (payload, node) =>
      (recoverMessages messages node).map fun (payloads, node) =>
        (payload.toList ++ payloads, node)

/-- What happens while a node waits for the messages of an inbox: the messages that reach
it, each with the fetch of its chunks, and the resubscriptions. -/
structure RecoveryCourse (QueryId : Type) where
  subscribeError : Option String := none
  resubscriptions : ℕ := 0
  arrivals : List (GossipMessage × FetchCourse QueryId)
  now : Moment
  latency : ℕ

/-- The messages that a node hears: those of its topics. -/
def heard (subscriptions : List String) (arrivals : List (GossipMessage × FetchCourse QueryId)) :
    List (Bytes × FetchCourse QueryId) :=
  (arrivals.filter fun arrival => subscriptions.any (· = arrival.1.topic)).map fun arrival =>
    (arrival.1.data, arrival.2)

/-- The node that waits for the messages of an inbox. -/
def beginRecovery (inboxKey : Bytes) (resubscriptions : ℕ) (node : RunningNode Peer) :
    RunningNode Peer :=
  { node with
    knownIndexKeys := node.knownIndexKeys.insert (Hex.encode inboxKey)
    subscriptions := node.subscriptions.insert (env.inboxTopic inboxKey)
    metrics := (node.metrics.recordAttempt .recovery).recordRetries .recovery resubscriptions }

/-- A recovery that finds nothing counts as a timeout. -/
def finishRecovery (now : Moment) (latency : ℕ) (payloads : List Bytes)
    (node : RunningNode Peer) : Except (Fault OperationError) (List Bytes) × RunningNode Peer :=
  let metrics := if payloads.isEmpty then node.metrics.recordTimeout .recovery
    else node.metrics.recordSuccess .recovery latency
  let node := { node with metrics }
  match env.persist node now with
  | .error fault => (.error fault, node)
  | .ok disk => (.ok payloads, { node with disk })

/-- The key is remembered even if the node cannot subscribe. -/
def recoverPayloadsForInbox (inboxKey : Bytes) (course : RecoveryCourse QueryId)
    (node : RunningNode Peer) :
    Option (Except (Fault OperationError) (List Bytes) × RunningNode Peer) :=
  match course.subscribeError with
  | some text => some (.error (.returned (.node (.libp2p text))), { node with
      knownIndexKeys := node.knownIndexKeys.insert (Hex.encode inboxKey) })
  | none =>
    let node := beginRecovery env inboxKey course.resubscriptions node
    (recoverMessages env (heard node.subscriptions course.arrivals) node).map
      fun (payloads, node) => finishRecovery env course.now course.latency payloads node

/-- A payload is fetched by its manifest, without an announcement. -/
def recoverPayloadFromManifest (manifest : ChunkManifest) (course : FetchCourse QueryId)
    (node : RunningNode Peer) :
    Option (Except (Fault OperationError) Bytes × RunningNode Peer) :=
  (fetchChunks env manifest course node).map fun
    | (.error err, node) => (.error (.returned (.node err)), node)
    | (.ok store, node) =>
      ((reassemblePayloadFromStore env.hashBytes env.sortUnstable manifest store).mapError
        fun err => .returned (.node (.transport err)), node)

/-- The calls of a client of the node. -/
inductive NodeCall (QueryId : Type) where
  | publishToInboxes (courses : List InboxCourse) (manifest : ChunkManifest) (chunks : List Chunk)
      (now : Moment) (latency : ℕ)
  | publishChunks (chunks : List Chunk)
  | recoverPayloadsForInbox (inboxKey : Bytes) (course : RecoveryCourse QueryId)
  | recoverPayloadFromManifest (manifest : ChunkManifest) (course : FetchCourse QueryId)

/-- The payloads that a call returns. -/
abbrev NodeReply := Except (Fault OperationError) (List Bytes)

/-- A call, and its reply once it has returned. -/
def runCall (node : RunningNode Peer) :
    NodeCall QueryId → Option (NodeReply × RunningNode Peer)
  | .publishToInboxes courses manifest chunks now latency =>
    let (result, node) := publishToInboxes env courses manifest chunks now latency node
    some (result.map fun _ => [], node)
  | .publishChunks chunks => some (.ok [], putRecords chunks node)
  | .recoverPayloadsForInbox inboxKey course => recoverPayloadsForInbox env inboxKey course node
  | .recoverPayloadFromManifest manifest course =>
    (recoverPayloadFromManifest env manifest course node).map fun (result, node) =>
      (result.map fun payload => [payload], node)

/-- A node takes no step while a call waits. -/
def nodeStep (node : RunningNode Peer) (call : NodeCall QueryId) :
    Option NodeReply × RunningNode Peer :=
  match runCall env node call with
  | none => (none, node)
  | some (reply, node) => (some reply, node)

end Definitions

section Calls
variable {Peer QueryId : Type} [DecidableEq QueryId] {env : NodeEnv Peer}
  {node node' : RunningNode Peer} {manifest : ChunkManifest} {reply : NodeReply}

theorem publish_of_runCall {courses : List InboxCourse} {chunks : List Chunk} {now : Moment}
    {latency : ℕ} (h : runCall env node
      (.publishToInboxes courses manifest chunks now latency : NodeCall QueryId) =
        some (reply, node')) :
    ∃ result, publishToInboxes env courses manifest chunks now latency node = (result, node') ∧
      reply = result.map fun _ => [] := by
  obtain ⟨rfl, rfl⟩ := Prod.mk.inj (Option.some.inj h)
  exact ⟨_, rfl, rfl⟩

theorem fetch_of_runCall {course : FetchCourse QueryId}
    (h : runCall env node (.recoverPayloadFromManifest manifest course) = some (reply, node')) :
    ∃ fetched, fetchChunks env manifest course node = some (fetched, node') := by
  obtain ⟨⟨result, next⟩, hrecover, hreply⟩ := Option.map_eq_some_iff.mp h
  obtain ⟨⟨fetched, last⟩, hfetch, hresult⟩ := Option.map_eq_some_iff.mp hrecover
  obtain ⟨-, rfl⟩ := Prod.mk.inj hreply
  cases fetched <;> obtain ⟨-, rfl⟩ := Prod.mk.inj hresult <;> exact ⟨_, hfetch⟩

theorem nodeStep_cases {call : NodeCall QueryId} {outcome : Option NodeReply}
    (h : nodeStep env node call = (outcome, node')) :
    outcome = none ∧ node' = node ∨
      ∃ reply, outcome = some reply ∧ runCall env node call = some (reply, node') := by
  unfold nodeStep at h
  cases hcall : runCall env node call with
  | none =>
    rw [hcall] at h
    obtain ⟨rfl, rfl⟩ := Prod.mk.inj h
    exact .inl ⟨rfl, rfl⟩
  | some result =>
    rw [hcall] at h
    obtain ⟨rfl, rfl⟩ := Prod.mk.inj h
    exact .inr ⟨result.1, rfl, rfl⟩

end Calls

end Spex.P2p
