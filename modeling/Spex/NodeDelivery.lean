import Spex.NodeMetrics
import Spex.PoisonedSnapshots

/-!
# From the announcement of a payload to its recovery

A node that publishes a payload announces its manifest on the topic of every inbox and
provides the chunks. A node that waits for one inbox recovers the payloads of all the
manifests it hears, on every topic it has subscribed to in any call before. A manifest
that is heard gives the payload that was published or none, whatever the network answers.
-/
namespace Spex.P2p
open Fallible Transcript Timers

section Messages
variable {Peer QueryId : Type} [DecidableEq QueryId] {env : NodeEnv Peer}
  {node node' : RunningNode Peer}

/-- A recovery waits for the fetches of its messages and for nothing else. -/
theorem isSome_recoverMessage (data : Bytes) (course : FetchCourse QueryId)
    (node : RunningNode Peer) : (recoverMessage env data course node).isSome =
      (payloadOf env.toWireFormat data course).isSome := by
  unfold recoverMessage payloadOf
  cases env.manifestJson.fromSlice data with
  | none => rfl
  | some manifest => simp [fetchChunks]

theorem recoverMessages_returns {messages : List (Bytes × FetchCourse QueryId)}
    (h : ∀ message ∈ messages, (payloadOf env.toWireFormat message.1 message.2).isSome)
    (node : RunningNode Peer) :
    ∃ payloads node', recoverMessages env messages node = some (payloads, node') := by
  induction messages generalizing node with
  | nil => exact ⟨[], node, rfl⟩
  | cons message messages ih =>
    rw [List.forall_mem_cons, ← isSome_recoverMessage message.1 message.2 node,
      Option.isSome_iff_exists] at h
    obtain ⟨⟨⟨payload, next⟩, hfirst⟩, hrest⟩ := h
    obtain ⟨payloads, node', hmessages⟩ := ih hrest next
    refine ⟨payload.toList ++ payloads, node', ?_⟩
    rw [recoverMessages, hfirst, Option.bind_some]
    dsimp only
    rw [hmessages]
    rfl

/-- A node without a snapshot file recovers once the fetches of the messages return. -/
theorem recoverPayloadsForInbox_returns (env : NodeEnv Peer) (inboxKey : Bytes)
    (course : RecoveryCourse QueryId) (node : RunningNode Peer)
    (hpath : env.config.persistencePath = none) (hsubscribe : course.subscribeError = none)
    (harrivals : ∀ arrival ∈ course.arrivals,
      (payloadOf env.toWireFormat arrival.1.data arrival.2).isSome) :
    ∃ payloads node', recoverPayloadsForInbox env inboxKey course node =
      some (.ok payloads, node') := by
  have hheard : ∀ message ∈ heard (beginRecovery env inboxKey course.resubscriptions
      node).subscriptions course.arrivals,
      (payloadOf env.toWireFormat message.1 message.2).isSome := by
    intro message hmessage
    obtain ⟨arrival, harrival, rfl⟩ := List.mem_map.mp hmessage
    exact harrivals arrival (List.mem_of_mem_filter harrival)
  obtain ⟨payloads, next, hmessages⟩ := recoverMessages_returns hheard
    (beginRecovery env inboxKey course.resubscriptions node)
  have hpersist : ∀ node : RunningNode Peer, env.persist node course.now = .ok node.disk := by
    intro node
    rw [NodeEnv.persist, persistState, hpath]
    rfl
  refine ⟨payloads, ?_⟩
  simp only [recoverPayloadsForInbox, hsubscribe, hmessages, Option.map_some, finishRecovery,
    hpersist]
  exact ⟨_, rfl⟩

/-- What a recovery returns: the payloads of the messages on all topics of the node. -/
theorem recoverPayloadsForInbox_eq_some {inboxKey : Bytes} {course : RecoveryCourse QueryId}
    {reply : NodeReply}
    (h : recoverPayloadsForInbox env inboxKey course node = some (reply, node'))
    (hsubscribe : course.subscribeError = none) :
    node'.subscriptions = node.subscriptions.insert (env.inboxTopic inboxKey) ∧
      ∀ payloads, reply = .ok payloads → payloads =
        (heard (node.subscriptions.insert (env.inboxTopic inboxKey)) course.arrivals).filterMap
          fun message => (payloadOf env.toWireFormat message.1 message.2).join := by
  unfold recoverPayloadsForInbox at h
  rw [hsubscribe] at h
  obtain ⟨⟨recovered, next⟩, hmessages, hfinish⟩ := Option.map_eq_some_iff.mp h
  obtain ⟨hrecovered, delta, rfl, -⟩ := recoverMessages_counts hmessages
  obtain ⟨-, hsame, hreply⟩ := finishRecovery_cases hfinish
  refine ⟨hsame, fun payloads hok => ?_⟩
  rw [hreply payloads hok, hrecovered]
  rfl

end Messages

section Announcements
variable {Peer QueryId : Type} [DecidableEq QueryId] {env : NodeEnv Peer}

/-- What an announcement leaves behind: the topics and messages from before, and more. -/
structure Extends (before after : RunningNode Peer) : Prop where
  subscriptions : ∀ topic ∈ before.subscriptions, topic ∈ after.subscriptions
  sent : ∀ message ∈ before.sent, message ∈ after.sent
  provided : ∀ entry ∈ before.provided, entry ∈ after.provided

theorem Extends.refl (node : RunningNode Peer) : Extends node node := by
  constructor <;> exact fun _ h => h

theorem Extends.trans {a b c : RunningNode Peer} (h : Extends a b) (h' : Extends b c) :
    Extends a c where
  subscriptions topic htopic := h'.subscriptions topic (h.subscriptions topic htopic)
  sent message hmessage := h'.sent message (h.sent message hmessage)
  provided entry hentry := h'.provided entry (h.provided entry hentry)

theorem announceLoop_extends (message : GossipMessage) (answers : ℕ → PublishAnswer)
    (left attempts : ℕ) (node : RunningNode Peer) :
    Extends node (announceLoop message answers left attempts node).2 ∧
      ((announceLoop message answers left attempts node).1 = .ok () →
        message ∈ (announceLoop message answers left attempts node).2.sent) := by
  fun_induction announceLoop message answers left attempts node with
  | case1 => exact ⟨⟨fun _ h => h, by simp +contextual, fun _ h => h⟩, by simp⟩
  | case2 attempts node left hretried ih =>
    exact ⟨⟨ih.1.subscriptions, ih.1.sent, ih.1.provided⟩, ih.2⟩
  | case3 => exact ⟨⟨fun _ h => h, fun _ h => h, fun _ h => h⟩, by simp⟩
  | case4 => exact ⟨.refl _, by simp⟩

/-- An inbox that was announced to: the node has subscribed to its topic, and the network
has taken the message. -/
def AnnouncedTo (env : NodeEnv Peer) (payload : Bytes) (node : RunningNode Peer)
    (course : InboxCourse) : Prop :=
  env.inboxTopic course.inboxKey ∈ node.subscriptions ∧
    ⟨env.inboxTopic course.inboxKey, payload⟩ ∈ node.sent

variable (env) in
theorem announce_extends (payload : Bytes) (course : InboxCourse) (node : RunningNode Peer) :
    Extends node (announce env payload course node).2 ∧
      ((announce env payload course node).1 = .ok () →
        AnnouncedTo env payload (announce env payload course node).2 course) := by
  unfold announce
  cases course.subscribeError with
  | some text => exact ⟨.refl node, by simp⟩
  | none =>
    dsimp only
    obtain ⟨hextends, hsent⟩ := announceLoop_extends ⟨env.inboxTopic course.inboxKey, payload⟩
      course.answers maxRetries 0
      { node with subscriptions := node.subscriptions.insert (env.inboxTopic course.inboxKey) }
    refine ⟨⟨?_, hextends.sent, hextends.provided⟩, fun hok => ⟨?_, hsent hok⟩⟩
    · exact fun topic htopic => hextends.subscriptions topic (List.mem_insert_of_mem htopic)
    · exact hextends.subscriptions _ List.mem_insert_self

variable (env) in
theorem announceEach_extends (payload : Bytes) (courses : List InboxCourse)
    (node : RunningNode Peer) :
    Extends node (announceEach env payload courses node).2 ∧
      ((announceEach env payload courses node).1 = .ok () → ∀ course ∈ courses,
        AnnouncedTo env payload (announceEach env payload courses node).2 course) := by
  induction courses generalizing node with
  | nil => exact ⟨.refl node, by simp⟩
  | cons course courses ih =>
    obtain ⟨hfirst, hannounced⟩ := announce_extends env payload course node
    unfold announceEach
    rcases hannounce : announce env payload course node with ⟨result, next⟩
    rw [hannounce] at hfirst hannounced
    cases result with
    | error fault => exact ⟨hfirst, by simp⟩
    | ok =>
      obtain ⟨hrest, hall⟩ := ih next
      obtain ⟨htopic, hmessage⟩ := hannounced rfl
      refine ⟨hfirst.trans hrest, fun hok => List.forall_mem_cons.mpr ⟨?_, hall hok⟩⟩
      exact ⟨hrest.subscriptions _ htopic, hrest.sent _ hmessage⟩

variable (env) in
theorem finishPublish_extends (now : Moment) (latency : ℕ) (node : RunningNode Peer) :
    Extends node (finishPublish env now latency node).2 := by
  unfold finishPublish
  cases env.persist node now with
  | error fault => exact .refl node
  | ok disk => exact ⟨fun _ h => h, fun _ h => h, fun _ h => h⟩

variable {courses : List InboxCourse} {manifest : ChunkManifest} {chunks : List Chunk}
  {now : Moment} {latency : ℕ} {node node' : RunningNode Peer}

theorem beginPublish_extends (courses : List InboxCourse) (manifest : ChunkManifest)
    (chunks : List Chunk) (node : RunningNode Peer) :
    Extends node (beginPublish courses manifest chunks node) :=
  ⟨fun _ h => h, fun _ h => h, fun _ h => List.mem_append_left _ h⟩

/-- A publish that succeeds has announced the manifest to every inbox and provides every
chunk. -/
theorem publishToInboxes_extends {result : Except (Fault OperationError) Unit}
    (h : publishToInboxes env courses manifest chunks now latency node = (result, node')) :
    Extends node node' ∧ (∀ chunk ∈ chunks, (chunk.hash, chunk.data) ∈ node'.provided) ∧
      (result = .ok () →
        ∀ course ∈ courses, AnnouncedTo env (env.manifestJson.toVec manifest) node' course) := by
  obtain ⟨hextends, hannounced⟩ := announceEach_extends env (env.manifestJson.toVec manifest)
    courses (beginPublish courses manifest chunks node)
  have hbegin := beginPublish_extends courses manifest chunks node
  have hprovided : ∀ chunk ∈ chunks, (chunk.hash, chunk.data) ∈
      (beginPublish courses manifest chunks node).provided :=
    fun chunk hchunk => List.mem_append_right _ (List.mem_map_of_mem hchunk)
  unfold publishToInboxes at h
  rcases hannounce : announceEach env (env.manifestJson.toVec manifest) courses
    (beginPublish courses manifest chunks node) with ⟨announced, next⟩
  rw [hannounce] at h hextends hannounced
  dsimp only at h hextends hannounced
  cases announced with
  | error fault =>
    obtain ⟨rfl, rfl⟩ := Prod.mk.inj h
    exact ⟨hbegin.trans hextends, fun chunk hchunk => hextends.provided _ (hprovided chunk hchunk),
      by simp⟩
  | ok =>
    have hfinish : Extends next node' := by
      have hextends' := finishPublish_extends env now latency next
      rwa [show finishPublish env now latency next = (result, node') from h] at hextends'
    have hend := hextends.trans hfinish
    refine ⟨hbegin.trans hend, fun chunk hchunk => hend.provided _ (hprovided chunk hchunk), ?_⟩
    intro _ course hcourse
    obtain ⟨htopic, hmessage⟩ := hannounced rfl course hcourse
    exact ⟨hfinish.subscriptions _ htopic, hfinish.sent _ hmessage⟩

end Announcements

section Subscriptions
variable {Peer QueryId : Type} [DecidableEq QueryId] {env : NodeEnv Peer}
  {node node' : RunningNode Peer} {inboxKey : Bytes} {reply : NodeReply} {call : NodeCall QueryId}

/-- A call that has subscribed its node to the topic of an inbox. -/
def SubscribesTo (inboxKey : Bytes) (call : NodeCall QueryId) (reply : NodeReply) : Prop :=
  match call, reply with
  | .publishToInboxes courses _ _ _ _, .ok _ => ∃ course ∈ courses, course.inboxKey = inboxKey
  | .recoverPayloadsForInbox key course, _ => key = inboxKey ∧ course.subscribeError = none
  | _, _ => False

theorem recoverPayloadsForInbox_subscriptions {course : RecoveryCourse QueryId}
    (h : recoverPayloadsForInbox env inboxKey course node = some (reply, node')) :
    ∀ topic ∈ node.subscriptions, topic ∈ node'.subscriptions := by
  intro topic htopic
  cases hsubscribe : course.subscribeError with
  | some text =>
    unfold recoverPayloadsForInbox at h
    rw [hsubscribe] at h
    obtain ⟨-, rfl⟩ := Prod.mk.inj (Option.some.inj h)
    exact htopic
  | none =>
    rw [(recoverPayloadsForInbox_eq_some h hsubscribe).1]
    exact List.mem_insert_of_mem htopic

/-- No call ends a subscription. -/
theorem runCall_subscriptions (h : runCall env node call = some (reply, node')) :
    ∀ topic ∈ node.subscriptions, topic ∈ node'.subscriptions := by
  cases call with
  | publishToInboxes courses manifest chunks now latency =>
    obtain ⟨result, hpublish, -⟩ := publish_of_runCall h
    exact (publishToInboxes_extends hpublish).1.subscriptions
  | publishChunks chunks =>
    obtain ⟨-, rfl⟩ := Prod.mk.inj (Option.some.inj h)
    exact fun _ htopic => htopic
  | recoverPayloadsForInbox inboxKey course => exact recoverPayloadsForInbox_subscriptions h
  | recoverPayloadFromManifest manifest course =>
    obtain ⟨fetched, hfetch⟩ := fetch_of_runCall h
    obtain ⟨-, delta, rfl, -⟩ := fetchChunks_counts hfetch
    exact fun _ htopic => htopic

/-- A call that subscribes to an inbox leaves its topic subscribed. -/
theorem subscribed_of_call (h : runCall env node call = some (reply, node'))
    (hcall : SubscribesTo inboxKey call reply) : env.inboxTopic inboxKey ∈ node'.subscriptions := by
  cases call with
  | publishToInboxes courses manifest chunks now latency =>
    obtain ⟨result, hpublish, rfl⟩ := publish_of_runCall h
    cases result with
    | error fault => exact hcall.elim
    | ok =>
      obtain ⟨course, hcourse, rfl⟩ := hcall
      exact ((publishToInboxes_extends hpublish).2.2 rfl course hcourse).1
  | publishChunks chunks => exact hcall.elim
  | recoverPayloadsForInbox key course =>
    obtain ⟨rfl, hsubscribe⟩ := hcall
    rw [(recoverPayloadsForInbox_eq_some h hsubscribe).1]
    exact List.mem_insert_self
  | recoverPayloadFromManifest manifest course => exact hcall.elim

/-- Whatever a node does afterwards, it hears the topic of an inbox that it has once
subscribed to. -/
theorem subscribed_run {calls : List (NodeCall QueryId)}
    {turn : Turn (RunningNode Peer) (NodeCall QueryId) (Option NodeReply)}
    (hturn : turn ∈ transcript (nodeStep env) node calls) (hreply : turn.outcome = some reply)
    (hcall : SubscribesTo inboxKey turn.input reply) :
    env.inboxTopic inboxKey ∈ (final (nodeStep env) node calls).subscriptions := by
  refine persists (fun node => env.inboxTopic inboxKey ∈ node.subscriptions) ?_ hturn ?_
  · intro later hlater hbefore
    rcases nodeStep_cases (step_of_mem hlater) with ⟨-, hafter⟩ | ⟨reply, -, hrun⟩
    · rwa [hafter]
    · exact runCall_subscriptions hrun _ hbefore
  · rcases nodeStep_cases (step_of_mem hturn) with ⟨hnone, -⟩ | ⟨returned, hreturned, hrun⟩
    · simp [hreply] at hnone
    · obtain rfl := Option.some.inj (hreply.symm.trans hreturned)
      exact subscribed_of_call hrun hcall

end Subscriptions

section Fetching
variable {QueryId : Type} [DecidableEq QueryId] {hashBytes : Bytes → Bytes}
  {manifest : ChunkManifest}

/-- A fetch that returns and in which no query is retired without its chunk. -/
structure FetchCourse.Finds (course : FetchCourse QueryId) (hashBytes : Bytes → Bytes)
    (manifest : ChunkManifest) : Prop where
  nodup : course.ids.Nodup
  length : course.ids.length = manifest.chunks.length
  turns : ∀ turn ∈ course.run hashBytes manifest, turn.outcome = true →
    Fresh turn.before turn.input ∧
      Retires hashBytes maxRetries course.deadline turn.before turn.input
  ends : ∃ store, fetchManifestChunks hashBytes manifest maxRetries course.deadline course.ids
    course.events = some (.ok store)

theorem FetchCourse.Finds.store {course : FetchCourse QueryId}
    (h : course.Finds hashBytes manifest) :
    ∃ store, fetchManifestChunks hashBytes manifest maxRetries course.deadline course.ids
        course.events = some (.ok store) ∧
      ∀ hash ∈ manifest.hashes, ∃ data, store hash = some data ∧ hashBytes data = hash := by
  obtain ⟨store, hstore⟩ := h.ends
  refine ⟨store, hstore, ?_⟩
  obtain ⟨state, hfinal, hpending, rfl⟩ := fetchManifestChunks_eq_ok hstore
  intro hash hhash
  rcases hfinal ▸ tracked_run h.nodup h.length h.turns hash hhash with ⟨id, hmem⟩ | hstored
  · simp [hpending] at hmem
  · obtain ⟨data, hdata⟩ := Option.ne_none_iff_exists'.mp hstored
    have hsound := hfinal ▸ (sound_run h.nodup h.length).2
    exact ⟨data, hdata, (hsound.stored hash data hdata).2⟩

variable {sortUnstable : List Chunk → List Chunk} {chunkSize : ℕ} {payload : Bytes}
  {pieces : List Chunk}

/-- A store with data for every hash of a published manifest gives its payload. -/
theorem reassemble_published (hinj : Function.Injective hashBytes)
    (hsort : SortsByIndex sortUnstable)
    (hpieces : chunkData hashBytes chunkSize payload = some pieces)
    (hdistinct : (pieces.map Chunk.hash).Nodup) {store : ChunkStore}
    (hstore : ∀ hash ∈ (manifestOf pieces payload).hashes,
      ∃ data, store hash = some data ∧ hashBytes data = hash) :
    reassemblePayloadFromStore hashBytes sortUnstable (manifestOf pieces payload) store =
      .ok payload := by
  obtain ⟨slices, rfl, rfl⟩ := chunkData_eq_some hashBytes hpieces
  have hown : ∀ chunk ∈ addressed hashBytes slices, chunk.hash = hashBytes chunk.data :=
    fun chunk hchunk => hash_of_mem_addressed hashBytes hchunk
  have hvalid := validate_addressed (map_hash_addressed hashBytes slices ▸ hdistinct)
  have hsame : recoverChunksFromStore hashBytes
      (manifestOf (addressed hashBytes slices) slices.flatten) store =
      .ok (addressed hashBytes slices) := by
    rw [← recoverChunksFromStore_of_nodup hvalid hown hdistinct]
    apply recoverChunksFromStore_congr
    intro descriptor hdescriptor
    obtain ⟨chunk, hchunk, rfl⟩ := List.mem_map.mp hdescriptor
    obtain ⟨data, hdata, hhash⟩ := hstore chunk.hash (List.mem_map_of_mem hdescriptor)
    rw [storeOf_hash hdistinct hchunk, hdata, hinj (hhash.trans (hown chunk hchunk))]
  rw [reassemblePayloadFromStore, hsame, ok_bind]
  exact reassembleChunksWithManifest_of_nodup hvalid hown hdistinct
    (reassembleChunks_addressed hashBytes hsort slices)

/-- Whatever store it is recovered from, a published manifest gives no other payload. -/
theorem eq_of_reassembled (hinj : Function.Injective hashBytes)
    (hsort : SortsByIndex sortUnstable)
    (hpieces : chunkData hashBytes chunkSize payload = some pieces)
    {store : ChunkStore} {recovered : Bytes}
    (h : reassemblePayloadFromStore hashBytes sortUnstable (manifestOf pieces payload) store =
      .ok recovered) : recovered = payload := by
  obtain ⟨slices, rfl, rfl⟩ := chunkData_eq_some hashBytes hpieces
  obtain ⟨chunks, -, hjoin⟩ := bind_eq_ok.mp h
  obtain ⟨ordered, hmatch, rfl⟩ := reassembleChunksWithManifest_eq_ok hjoin
  have hown : List.Forall₂ (Matches hashBytes)
      (manifestOf (addressed hashBytes slices) slices.flatten).chunks
      (addressed hashBytes slices) :=
    matches_manifestOf (fun chunk hchunk => hash_of_mem_addressed hashBytes hchunk) _
  rw [eq_of_matches hinj hmatch hown, reassembleChunks_addressed hashBytes hsort]

end Fetching

section Delivery
variable {Peer QueryId : Type} [DecidableEq QueryId] {wire : WireFormat} {chunkSize : ℕ}
  {payload : Bytes} {pieces : List Chunk} {fetch : FetchCourse QueryId}

/-- The announcement of a payload gives this payload or none. -/
theorem eq_of_payloadOf (hinj : Function.Injective wire.hashBytes)
    (hsort : SortsByIndex wire.sortUnstable)
    (hpieces : chunkData wire.hashBytes chunkSize payload = some pieces) {recovered : Bytes}
    (h : payloadOf wire (wire.manifestJson.toVec (manifestOf pieces payload)) fetch =
      some (some recovered)) : recovered = payload := by
  unfold payloadOf at h
  rw [wire.manifestJson.fromSlice_toVec] at h
  obtain ⟨result, -, hresult⟩ := Option.map_eq_some_iff.mp h
  cases result with
  | error err => simp at hresult
  | ok store => exact eq_of_reassembled hinj hsort hpieces (toOption_eq_some.mp hresult)

theorem payloadOf_finds (hinj : Function.Injective wire.hashBytes)
    (hsort : SortsByIndex wire.sortUnstable)
    (hpieces : chunkData wire.hashBytes chunkSize payload = some pieces)
    (hdistinct : (pieces.map Chunk.hash).Nodup)
    (hfinds : fetch.Finds wire.hashBytes (manifestOf pieces payload)) :
    payloadOf wire (wire.manifestJson.toVec (manifestOf pieces payload)) fetch =
      some (some payload) := by
  obtain ⟨store, hstore, hdata⟩ := hfinds.store
  unfold payloadOf
  rw [wire.manifestJson.fromSlice_toVec]
  dsimp only
  rw [hstore, Option.map_some]
  dsimp only
  rw [reassemble_published hinj hsort hpieces hdistinct hdata]
  rfl

theorem subscribed_of_ok {env : NodeEnv Peer} {inboxKey : Bytes} {course : RecoveryCourse QueryId}
    {node node' : RunningNode Peer} {payloads : List Bytes}
    (h : recoverPayloadsForInbox env inboxKey course node = some (.ok payloads, node')) :
    course.subscribeError = none := by
  unfold recoverPayloadsForInbox at h
  cases hsubscribe : course.subscribeError with
  | none => rfl
  | some text =>
    rw [hsubscribe] at h
    simp at h

omit [DecidableEq QueryId] in
theorem mem_heard {subscriptions : List String} {message : GossipMessage}
    {arrivals : List (GossipMessage × FetchCourse QueryId)}
    (harrival : (message, fetch) ∈ arrivals) (htopic : message.topic ∈ subscriptions) :
    (message.data, fetch) ∈ heard subscriptions arrivals := by
  refine List.mem_map.mpr ⟨(message, fetch), List.mem_filter.mpr ⟨harrival, ?_⟩, rfl⟩
  simpa using htopic

variable (QueryId) in
/-- A payload that is published is recovered by every node that hears its announcement
while it waits for any inbox and fetches the chunks, if it has subscribed to the inbox in
this call or in any call before. Whatever the network answers, the announcement gives no
other payload. -/
theorem announced_payload_recovered (env : NodeEnv Peer)
    (hinj : Function.Injective env.hashBytes) (hsort : SortsByIndex env.sortUnstable)
    (chunkSize : ℕ) (payload : Bytes) (pieces : List Chunk)
    (hpieces : chunkData env.hashBytes chunkSize payload = some pieces)
    (hdistinct : (pieces.map Chunk.hash).Nodup) (courses : List InboxCourse) (now : Moment)
    (latency : ℕ) (publisher publisher' : RunningNode Peer)
    (hpublish : publishToInboxes env courses (manifestOf pieces payload) pieces now latency
      publisher = (.ok (), publisher'))
    (inbox : InboxCourse) (hinbox : inbox ∈ courses) :
    ∃ message ∈ publisher'.sent, message.topic = env.inboxTopic inbox.inboxKey ∧
      (∀ chunk ∈ pieces, (chunk.hash, chunk.data) ∈ publisher'.provided) ∧
      (∀ (fetch : FetchCourse QueryId) recovered,
        payloadOf env.toWireFormat message.data fetch = some (some recovered) →
          recovered = payload) ∧
      ∀ (env' : NodeEnv Peer) (receiver receiver' : RunningNode Peer)
        (calls : List (NodeCall QueryId)) (key : Bytes) (course : RecoveryCourse QueryId)
        (payloads : List Bytes) (fetch : FetchCourse QueryId),
        env'.toWireFormat = env.toWireFormat →
        recoverPayloadsForInbox env' key course (final (nodeStep env') receiver calls) =
          some (.ok payloads, receiver') →
        (key = inbox.inboxKey ∨ ∃ turn ∈ transcript (nodeStep env') receiver calls, ∃ reply,
          turn.outcome = some reply ∧ SubscribesTo inbox.inboxKey turn.input reply) →
        (message, fetch) ∈ course.arrivals →
        fetch.Finds env.hashBytes (manifestOf pieces payload) → payload ∈ payloads := by
  obtain ⟨-, hprovided, hannounced⟩ := publishToInboxes_extends hpublish
  obtain ⟨-, hsent⟩ := hannounced rfl inbox hinbox
  refine ⟨_, hsent, rfl, hprovided, ?_, ?_⟩
  · intro fetch recovered hrecovered
    exact eq_of_payloadOf hinj hsort hpieces hrecovered
  · intro env' receiver receiver' calls key course payloads fetch henv hrecover hlistens harrival
      hfinds
    have htopic : env.inboxTopic inbox.inboxKey ∈
        (final (nodeStep env') receiver calls).subscriptions.insert (env'.inboxTopic key) := by
      rw [← henv]
      rcases hlistens with rfl | ⟨turn, hturn, reply, hreply, hcall⟩
      · exact List.mem_insert_self
      · exact List.mem_insert_of_mem (subscribed_run hturn hreply hcall)
    have hheard := mem_heard harrival htopic
    rw [(recoverPayloadsForInbox_eq_some hrecover (subscribed_of_ok hrecover)).2 payloads rfl,
      List.mem_filterMap]
    refine ⟨_, hheard, ?_⟩
    rw [henv, payloadOf_finds hinj hsort hpieces hdistinct hfinds, Option.join_some]

end Delivery

section Sample

/-- A node that keeps no snapshot. -/
noncomputable def relayEnv : NodeEnv ℕ where
  manifestJson := Codec.nonempty.some
  sha256 := sampleHash
  hashBytes := sampleHash
  sortUnstable := sortByIndex
  libp2p := sampleLibp2p
  snapshotJson := sampleJson
  iterate := id
  config := {}

def relayNode : RunningNode ℕ := { disk := { active := none } }

def relayPieces : List Chunk := addressed sampleHash [[1]]

/-- The fetch of one chunk whose query is issued again once. -/
def relayFetch : FetchCourse ℕ := ⟨[0], retriedEvents, 10, 40⟩

theorem relayFetch_finds : relayFetch.Finds sampleHash (manifestOf relayPieces [1]) :=
  ⟨by decide, by decide, by decide, ⟨_, rfl⟩⟩

/-- The announcement to the inbox 2, after three answers that nobody has subscribed. -/
def relayCourse : InboxCourse where
  inboxKey := [2]
  answers attempts := if attempts < 3 then .noPeersSubscribed true else .accepted

/-- A node that has once waited for the inbox 2 and now waits for the inbox 3. -/
def relayCalls : List (NodeCall ℕ) :=
  [.recoverPayloadsForInbox [2] ⟨none, 1, [], sampleMoment, 0⟩]

/-- It recovers the payload of the inbox 2. -/
theorem other_inbox_recovered :
    ∃ publisher' receiver' payloads,
      publishToInboxes relayEnv [relayCourse] (manifestOf relayPieces [1]) relayPieces sampleMoment
        9 relayNode = (.ok (), publisher') ∧
      recoverPayloadsForInbox relayEnv [3] ⟨none, 2, publisher'.sent.map fun message =>
        (message, relayFetch), sampleMoment, 60⟩
        (final (nodeStep relayEnv) relayNode relayCalls) = some (.ok payloads, receiver') ∧
      [1] ∈ payloads := by
  obtain ⟨publisher', hpublish, hsent⟩ : ∃ publisher', publishToInboxes relayEnv [relayCourse]
      (manifestOf relayPieces [1]) relayPieces sampleMoment 9 relayNode = (.ok (), publisher') ∧
      publisher'.sent = [⟨relayEnv.inboxTopic [2],
        relayEnv.manifestJson.toVec (manifestOf relayPieces [1])⟩] := ⟨_, rfl, rfl⟩
  have hpayload : payloadOf relayEnv.toWireFormat
      (relayEnv.manifestJson.toVec (manifestOf relayPieces [1])) relayFetch = some (some [1]) :=
    payloadOf_finds sampleHash_injective sortsByIndex_sortOn (rfl : chunkData sampleHash 1 [1] = _)
      (by decide) relayFetch_finds
  obtain ⟨payloads, receiver', hrecover⟩ := recoverPayloadsForInbox_returns relayEnv [3]
    ⟨none, 2, publisher'.sent.map fun message => (message, relayFetch), sampleMoment, 60⟩
    (final (nodeStep relayEnv) relayNode relayCalls) rfl rfl (by simp [hsent, hpayload])
  obtain ⟨message, hmessage, -, -, -, hdelivered⟩ := announced_payload_recovered ℕ
    relayEnv sampleHash_injective sortsByIndex_sortOn 1 [1] relayPieces rfl (by decide) _ _ _ _ _
    hpublish relayCourse (List.mem_singleton_self _)
  refine ⟨publisher', receiver', payloads, hpublish, hrecover, ?_⟩
  refine hdelivered relayEnv relayNode receiver' relayCalls [3] _ payloads relayFetch rfl hrecover
    (.inr ⟨_, List.mem_singleton_self _, _, rfl, rfl, rfl⟩) (List.mem_map_of_mem hmessage)
    relayFetch_finds

end Sample

end Spex.P2p
