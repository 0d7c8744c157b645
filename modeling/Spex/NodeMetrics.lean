import Spex.NodeOperations

/-!
# What the counters of a node say

Every operation adds to the counters, so what a call counts is a snapshot of its own. A
query or a recovery that was begun has ended in one way when the call returns; a publish
may also fail without a timeout. The rates are computed in machine words, and none
exceeds the whole.
-/
namespace Spex.P2p
open Fallible Transcript Timers

section Deltas

namespace OperationCounters

/-- Counters and what is counted after them. -/
def plus (counters delta : OperationCounters) : OperationCounters where
  success := counters.success + delta.success
  timeout := counters.timeout + delta.timeout
  retries := counters.retries + delta.retries
  attempts := counters.attempts + delta.attempts
  latencyMs := counters.latencyMs ++ delta.latencyMs

theorem plus_assoc (a b c : OperationCounters) : (a.plus b).plus c = a.plus (b.plus c) := by
  simp [plus, Nat.add_assoc]

@[simp] theorem plus_zero (a : OperationCounters) : a.plus {} = a := by simp [plus]

@[simp] theorem zero_plus (a : OperationCounters) : plus {} a = a := by simp [plus]

end OperationCounters

namespace P2pMetricsSnapshot

def plus (metrics delta : P2pMetricsSnapshot) : P2pMetricsSnapshot where
  operations operation := (metrics.operations operation).plus (delta.operations operation)
  reassembleFailures := metrics.reassembleFailures + delta.reassembleFailures
  verificationFailures := metrics.verificationFailures + delta.verificationFailures

/-- What is counted for one operation. -/
def entry (operation : Operation) (delta : OperationCounters) : P2pMetricsSnapshot where
  operations := Function.update (fun _ => {}) operation delta

theorem plus_assoc (a b c : P2pMetricsSnapshot) : (a.plus b).plus c = a.plus (b.plus c) := by
  simp [plus, OperationCounters.plus_assoc, Nat.add_assoc]

@[simp] theorem plus_zero (a : P2pMetricsSnapshot) : a.plus {} = a := by simp [plus]

theorem count_eq_plus (metrics : P2pMetricsSnapshot) (operation : Operation)
    (delta : OperationCounters) {change : OperationCounters → OperationCounters}
    (hchange : ∀ counters, change counters = counters.plus delta) :
    metrics.count operation change = metrics.plus (entry operation delta) := by
  have hoperations : Function.update metrics.operations operation
      (change (metrics.operations operation)) =
      fun other => (metrics.operations other).plus ((entry operation delta).operations other) := by
    funext other
    by_cases hother : other = operation
    · subst hother
      simp [entry, hchange]
    · simp [entry, Function.update_of_ne hother]
  simp [count, plus, hoperations, entry]

variable (metrics : P2pMetricsSnapshot) (operation : Operation)

theorem recordAttempt_eq : metrics.recordAttempt operation =
    metrics.plus (entry operation { attempts := 1 }) :=
  count_eq_plus metrics operation _ fun _ => by simp [OperationCounters.plus]

theorem recordRetry_eq : metrics.recordRetry operation =
    metrics.plus (entry operation { retries := 1 }) :=
  count_eq_plus metrics operation _ fun _ => by simp [OperationCounters.plus]

theorem recordTimeout_eq : metrics.recordTimeout operation =
    metrics.plus (entry operation { timeout := 1 }) :=
  count_eq_plus metrics operation _ fun _ => by simp [OperationCounters.plus]

theorem recordSuccess_eq (latency : ℕ) : metrics.recordSuccess operation latency =
    metrics.plus (entry operation { success := 1, latencyMs := [latency] }) :=
  count_eq_plus metrics operation _ fun _ => by simp [OperationCounters.plus]

theorem entry_plus (first second : OperationCounters) :
    (entry operation first).plus (entry operation second) =
      entry operation (first.plus second) := by
  have hoperations : (fun other => ((entry operation first).operations other).plus
      ((entry operation second).operations other)) =
      (entry operation (first.plus second)).operations := by
    funext other
    by_cases hother : other = operation
    · subst hother
      simp [entry]
    · simp [entry, Function.update_of_ne hother]
  simp only [plus, hoperations]
  rfl

theorem recordRetries_eq (n : ℕ) : metrics.recordRetries operation n =
    metrics.plus (entry operation { retries := n }) := by
  induction n with
  | zero =>
    have hnone : entry operation { retries := 0 } = {} := by simp [entry]
    rw [hnone, plus_zero]
    rfl
  | succ n ih =>
    have hsucc : metrics.recordRetries operation (n + 1) =
        (metrics.recordRetries operation n).recordRetry operation := rfl
    rw [hsucc, ih, recordRetry_eq, plus_assoc, entry_plus]
    rfl

/-- Every query and every recovery that was begun has ended, and every operation that
succeeded has its latency. -/
structure Settled (metrics : P2pMetricsSnapshot) : Prop where
  query : (metrics.operations .query).attempts =
    (metrics.operations .query).success + (metrics.operations .query).timeout
  recovery : (metrics.operations .recovery).attempts =
    (metrics.operations .recovery).success + (metrics.operations .recovery).timeout
  latency : ∀ operation,
    (metrics.operations operation).latencyMs.length = (metrics.operations operation).success

theorem Settled.plus {metrics delta : P2pMetricsSnapshot} (h : Settled metrics)
    (hdelta : Settled delta) : Settled (metrics.plus delta) := by
  have hquery := h.query
  have hquery' := hdelta.query
  have hrecovery := h.recovery
  have hrecovery' := hdelta.recovery
  constructor
  · simp only [P2pMetricsSnapshot.plus, OperationCounters.plus]
    omega
  · simp only [P2pMetricsSnapshot.plus, OperationCounters.plus]
    omega
  · intro operation
    simp only [P2pMetricsSnapshot.plus, OperationCounters.plus, List.length_append, h.latency,
      hdelta.latency]

end P2pMetricsSnapshot

end Deltas

section Counting
variable {Peer QueryId : Type} [DecidableEq QueryId] {env : NodeEnv Peer}
  {node node' : RunningNode Peer} {reply : NodeReply} {manifest : ChunkManifest}
  {course : FetchCourse QueryId} {delta : P2pMetricsSnapshot} {call : NodeCall QueryId}
open P2pMetricsSnapshot

/-- An announcement counts its retries, and a timeout only if it fails. -/
def CountsAnnouncement (before : P2pMetricsSnapshot)
    (result : Except (Fault OperationError) Unit × RunningNode Peer) : Prop :=
  ∃ retries timeouts, result.2.metrics =
      before.plus (entry .publish { retries := retries, timeout := timeouts }) ∧
    timeouts ≤ 1 ∧ (result.1 = .ok () → timeouts = 0)

theorem CountsAnnouncement.same {metrics : P2pMetricsSnapshot}
    {result : Except (Fault OperationError) Unit × RunningNode Peer}
    (h : result.2.metrics = metrics) : CountsAnnouncement metrics result :=
  ⟨0, 0, by simp [entry, h], by simp, by simp⟩

/-- One attempt that has ended. -/
def OperationCounters.Ended (delta : OperationCounters) : Prop :=
  delta.attempts = delta.success + delta.timeout ∧ delta.latencyMs.length = delta.success

/-- A fetch counts one attempt that either succeeds or times out. -/
theorem fetchChunks_counts {result : Except NodeError ChunkStore}
    (h : fetchChunks env manifest course node = some (result, node')) :
    fetchManifestChunks env.hashBytes manifest maxRetries course.deadline course.ids
      course.events = some result ∧
    ∃ delta, node' = { node with metrics := node.metrics.plus (entry .query delta) } ∧
      delta.Ended := by
  obtain ⟨fetched, hloop, hresult⟩ := Option.map_eq_some_iff.mp h
  cases fetched with
  | ok store =>
    obtain ⟨rfl, rfl⟩ := Prod.mk.inj hresult
    rw [recordAttempt_eq, recordRetries_eq, recordSuccess_eq, plus_assoc, plus_assoc, entry_plus,
      entry_plus]
    exact ⟨hloop, _, rfl, rfl, rfl⟩
  | error err =>
    obtain ⟨rfl, rfl⟩ := Prod.mk.inj hresult
    rw [recordAttempt_eq, recordRetries_eq, recordTimeout_eq, plus_assoc, plus_assoc, entry_plus,
      entry_plus]
    exact ⟨hloop, _, rfl, rfl, rfl⟩

/-- What the messages of a recovery count: queries that have ended, and one failure for
every message without a payload. -/
structure CountsMessages (delta : P2pMetricsSnapshot) (messages payloads : ℕ) : Prop where
  publish : delta.operations .publish = {}
  query : (delta.operations .query).Ended
  recovery : delta.operations .recovery = {}
  messages : payloads + delta.verificationFailures + delta.reassembleFailures = messages

theorem CountsMessages.plus {delta' : P2pMetricsSnapshot} {messages messages' : ℕ}
    {payloads payloads' : ℕ} (h : CountsMessages delta messages payloads)
    (h' : CountsMessages delta' messages' payloads') :
    CountsMessages (delta.plus delta') (messages + messages') (payloads + payloads') := by
  obtain ⟨hpublish, ⟨hattempts, hlatency⟩, hrecovery, hmessages⟩ := h
  obtain ⟨hpublish', ⟨hattempts', hlatency'⟩, hrecovery', hmessages'⟩ := h'
  refine ⟨?_, ⟨?_, ?_⟩, ?_, ?_⟩
  · simp [P2pMetricsSnapshot.plus, hpublish, hpublish']
  · simp only [P2pMetricsSnapshot.plus, OperationCounters.plus]
    omega
  · simp only [P2pMetricsSnapshot.plus, OperationCounters.plus, List.length_append]
    omega
  · simp [P2pMetricsSnapshot.plus, hrecovery, hrecovery']
  · simp only [P2pMetricsSnapshot.plus]
    omega

/-- What a message gives does not depend on the node, which only counts. -/
theorem recoverMessage_counts {data : Bytes} {payload : Option Bytes}
    (h : recoverMessage env data course node = some (payload, node')) :
    payloadOf env.toWireFormat data course = some payload ∧
      ∃ delta, node' = { node with metrics := node.metrics.plus delta } ∧
        CountsMessages delta 1 payload.toList.length := by
  unfold recoverMessage at h
  unfold payloadOf
  cases hparse : env.manifestJson.fromSlice data with
  | none =>
    rw [hparse] at h
    obtain ⟨rfl, rfl⟩ := Prod.mk.inj (Option.some.inj h)
    refine ⟨rfl, { verificationFailures := 1 }, ?_, rfl, ⟨rfl, rfl⟩, rfl, rfl⟩
    simp [recordVerificationFailure, P2pMetricsSnapshot.plus]
  | some manifest =>
    rw [hparse] at h
    obtain ⟨⟨fetched, next⟩, hfetch, hresult⟩ := Option.map_eq_some_iff.mp h
    obtain ⟨hloop, delta, rfl, hended⟩ := fetchChunks_counts hfetch
    dsimp only
    rw [hloop, Option.map_some]
    cases fetched with
    | error err =>
      obtain ⟨rfl, rfl⟩ := Prod.mk.inj hresult
      refine ⟨rfl, { entry .query delta with verificationFailures := 1 }, ?_, rfl, hended, rfl, rfl⟩
      simp [recordVerificationFailure, P2pMetricsSnapshot.plus, entry]
    | ok store =>
      dsimp only at hresult ⊢
      cases hpayload : reassemblePayloadFromStore env.hashBytes env.sortUnstable manifest store with
      | error err =>
        rw [hpayload] at hresult
        obtain ⟨rfl, rfl⟩ := Prod.mk.inj hresult
        refine ⟨rfl, { entry .query delta with reassembleFailures := 1 }, ?_, rfl, hended, rfl, rfl⟩
        simp [recordReassembleFailure, P2pMetricsSnapshot.plus, entry]
      | ok recovered =>
        rw [hpayload] at hresult
        obtain ⟨rfl, rfl⟩ := Prod.mk.inj hresult
        exact ⟨rfl, entry .query delta, rfl, rfl, hended, rfl, rfl⟩

theorem recoverMessages_counts {messages : List (Bytes × FetchCourse QueryId)}
    {payloads : List Bytes} (h : recoverMessages env messages node = some (payloads, node')) :
    payloads = messages.filterMap
        (fun message => (payloadOf env.toWireFormat message.1 message.2).join) ∧
      ∃ delta, node' = { node with metrics := node.metrics.plus delta } ∧
        CountsMessages delta messages.length payloads.length := by
  induction messages generalizing node payloads with
  | nil =>
    obtain ⟨rfl, rfl⟩ := Prod.mk.inj (Option.some.inj h)
    exact ⟨rfl, {}, by rw [plus_zero], rfl, ⟨rfl, rfl⟩, rfl, rfl⟩
  | cons message messages ih =>
    obtain ⟨⟨payload, next⟩, hfirst, hafter⟩ := Option.bind_eq_some_iff.mp h
    obtain ⟨⟨rest, last⟩, hrest, hresult⟩ := Option.map_eq_some_iff.mp hafter
    obtain ⟨rfl, rfl⟩ := Prod.mk.inj hresult
    obtain ⟨hpayload, delta, rfl, hcounts⟩ := recoverMessage_counts hfirst
    obtain ⟨hpayloads, delta', rfl, hcounts'⟩ := ih hrest
    refine ⟨?_, delta.plus delta', by rw [plus_assoc], ?_⟩
    · rw [List.filterMap_cons, hpayload, Option.join_some, hpayloads]
      cases payload <;> rfl
    · rw [List.length_cons, List.length_append, Nat.add_comm messages.length]
      exact hcounts.plus hcounts'

theorem finishRecovery_cases {now : Moment} {latency : ℕ} {payloads : List Bytes}
    (h : finishRecovery env now latency payloads node = (reply, node')) :
    (∃ delta, node'.metrics = node.metrics.plus (entry .recovery delta) ∧ delta.attempts = 0 ∧
      delta.success + delta.timeout = 1 ∧ delta.latencyMs.length = delta.success) ∧
    node'.subscriptions = node.subscriptions ∧
    ∀ returned, reply = .ok returned → returned = payloads := by
  have hmetrics : ∃ delta, (if payloads.isEmpty then node.metrics.recordTimeout .recovery
      else node.metrics.recordSuccess .recovery latency) =
        node.metrics.plus (entry .recovery delta) ∧ delta.attempts = 0 ∧
          delta.success + delta.timeout = 1 ∧ delta.latencyMs.length = delta.success := by
    split_ifs
    · exact ⟨_, recordTimeout_eq _ _, rfl, rfl, rfl⟩
    · exact ⟨_, recordSuccess_eq _ _ _, rfl, rfl, rfl⟩
  dsimp only [finishRecovery] at h
  split at h
  · obtain ⟨rfl, rfl⟩ := Prod.mk.inj h
    exact ⟨hmetrics, rfl, by simp⟩
  · obtain ⟨rfl, rfl⟩ := Prod.mk.inj h
    exact ⟨hmetrics, rfl, by simp [eq_comm]⟩

/-- A call of `publish_to_inboxes`. -/
def NodeCall.announces : NodeCall QueryId → Bool
  | .publishToInboxes .. => true
  | _ => false

/-- What a call counts. -/
structure CountsCall (call : NodeCall QueryId) (reply : NodeReply) (delta : P2pMetricsSnapshot) :
    Prop where
  settled : Settled delta
  attempts : (delta.operations .publish).attempts = if call.announces then 1 else 0
  success : (delta.operations .publish).success = if call.announces ∧ reply.isOk then 1 else 0
  ended : (delta.operations .publish).success + (delta.operations .publish).timeout ≤
    (delta.operations .publish).attempts

end Counting

section Rates

namespace P2pMetricsSnapshot
variable (metrics : P2pMetricsSnapshot)

/-- A sum over the operations that stops at the largest word. -/
def total (field : OperationCounters → ℕ) : ℕ :=
  min (min (field (metrics.operations .publish) + field (metrics.operations .query)) (2 ^ 64 - 1) +
    field (metrics.operations .recovery)) (2 ^ 64 - 1)

end P2pMetricsSnapshot

end Rates

/-- What a node was called to do, with what each call gave. -/
abbrev NodeRun (Peer QueryId : Type) :=
  List (Turn (RunningNode Peer) (NodeCall QueryId) (Option NodeReply))

section Runs
variable {Peer QueryId : Type} [DecidableEq QueryId] {env : NodeEnv Peer}
  {metrics : P2pMetricsSnapshot} {run : NodeRun Peer QueryId} {call : NodeCall QueryId}
  {node : RunningNode Peer}
open P2pMetricsSnapshot

/-- The calls of `publish_to_inboxes` that have returned. -/
def publishesIn (run : NodeRun Peer QueryId) : ℕ :=
  run.countP fun turn => turn.input.announces && turn.outcome.isSome

/-- Those that have succeeded. -/
def publishedIn (run : NodeRun Peer QueryId) : ℕ :=
  run.countP fun turn => turn.input.announces && turn.outcome.any Except.isOk

/-- The counters of a node add up with the calls that it has served. -/
structure Accounts (run : NodeRun Peer QueryId) (metrics : P2pMetricsSnapshot) : Prop where
  settled : Settled metrics
  attempts : (metrics.operations .publish).attempts = publishesIn run
  success : (metrics.operations .publish).success = publishedIn run
  ended : (metrics.operations .publish).success + (metrics.operations .publish).timeout ≤
    (metrics.operations .publish).attempts

omit [DecidableEq QueryId] in
theorem Accounts.plus {delta : P2pMetricsSnapshot} {reply : NodeReply} {node' : RunningNode Peer}
    (h : Accounts run metrics) (hcall : CountsCall call reply delta) :
    Accounts (run ++ [⟨node, call, some reply, node'⟩]) (metrics.plus delta) := by
  refine ⟨h.settled.plus hcall.settled, ?_, ?_, ?_⟩
  · simp [P2pMetricsSnapshot.plus, OperationCounters.plus, h.attempts, hcall.attempts, publishesIn,
      List.countP_append, List.countP_singleton]
  · simp [P2pMetricsSnapshot.plus, OperationCounters.plus, h.success, hcall.success, publishedIn,
      List.countP_append, List.countP_singleton]
  · have hbefore := h.ended
    have hended := hcall.ended
    simp only [P2pMetricsSnapshot.plus, OperationCounters.plus]
    omega

end Runs

end Spex.P2p
