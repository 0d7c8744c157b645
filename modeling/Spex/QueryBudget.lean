import Spex.FetchLoop
import Spex.Quota

/-!
# How many queries a fetch issues

A fetch issues one query for every chunk of the manifest, and issues a query again only
if it ends without a record. Whatever the network answers, and in whatever order, the
queries that were issued are those that were answered and those that are still pending,
and no hash is asked for again more often than the retry policy says.
-/
namespace Spex.P2p
open Transcript

section Definitions
variable {QueryId : Type} [DecidableEq QueryId] (maxRetries deadline : ℕ)

/-- The hash of the pending query that an event is about. -/
def asked (state : FetchState QueryId) (event : FetchEvent QueryId) : Option Bytes :=
  event.progress.bind fun progress => Table.get state.pending progress.1

/-- The hash that is asked for again. -/
def reissue (state : FetchState QueryId) (event : FetchEvent QueryId) : Option Bytes :=
  match event.progress with
  | some (id, .getRecord .finishedWithNoAdditionalRecord) =>
    (Table.get state.pending id).filter fun hash =>
      event.handledAt < deadline ∧ state.retries hash < maxRetries
  | _ => none

/-- The hashes of the queries that the turns of a run answer. -/
def answeredIn (run : FetchRun QueryId) : List Bytes :=
  run.filterMap fun turn => if turn.outcome then asked turn.before turn.input else none

/-- The hashes that are asked for again in a run, each with a `record_retry`. -/
def reissuedIn (run : FetchRun QueryId) : List Bytes :=
  run.filterMap fun turn =>
    if turn.outcome then reissue maxRetries deadline turn.before turn.input else none

variable {maxRetries deadline}

theorem answeredIn_append (run : FetchRun QueryId) (state next : FetchState QueryId)
    (event : FetchEvent QueryId) (handled : Bool) :
    answeredIn (run ++ [⟨state, event, handled, next⟩]) =
      answeredIn run ++ if handled then (asked state event).toList else [] := by
  cases hasked : asked state event <;> cases handled <;> simp [answeredIn, hasked]

theorem reissuedIn_append (run : FetchRun QueryId) (state next : FetchState QueryId)
    (event : FetchEvent QueryId) (handled : Bool) :
    reissuedIn maxRetries deadline (run ++ [⟨state, event, handled, next⟩]) =
      reissuedIn maxRetries deadline run ++
        if handled then (reissue maxRetries deadline state event).toList else [] := by
  cases hreissue : reissue maxRetries deadline state event <;> cases handled <;>
    simp [reissuedIn, hreissue]

end Definitions

section Steps
variable {QueryId : Type} [DecidableEq QueryId] {hashBytes : Bytes → Bytes}
  {manifest : ChunkManifest} {maxRetries deadline : ℕ} {state next : FetchState QueryId}
  {event : FetchEvent QueryId} {id : QueryId}

/-- What an event does to the table of queries and to the counters of retries: the query
that it is about leaves the table, and the query that is issued again enters it. -/
structure Accounted (maxRetries deadline : ℕ) (state : FetchState QueryId)
    (event : FetchEvent QueryId) (next : FetchState QueryId) : Prop where
  length : next.pending.length + (asked state event).toList.length =
    state.pending.length + (reissue maxRetries deadline state event).toList.length
  pending : ∀ query ∈ next.pending,
    query ∈ state.pending ∨ query.2 ∈ reissue maxRetries deadline state event
  retries : ∀ hash, next.retries hash =
    state.retries hash + (reissue maxRetries deadline state event).toList.count hash
  reissued : ∀ hash ∈ reissue maxRetries deadline state event,
    (∃ id, (id, hash) ∈ state.pending) ∧ state.retries hash < maxRetries

theorem asked_eq {result : QueryResult} (hprogress : event.progress = some (id, result)) :
    asked state event = Table.get state.pending id := by simp [asked, hprogress]

/-- An event that changes no query before it takes its own off the table. -/
theorem Accounted.of_kept {result : QueryResult} (hprogress : event.progress = some (id, result))
    (hreissue : reissue maxRetries deadline state event = none)
    (hnodup : (state.pending.map Prod.fst).Nodup)
    (hpending : next.pending = Table.erase state.pending id)
    (hretries : next.retries = state.retries) : Accounted maxRetries deadline state event next := by
  refine ⟨?_, ?_, by simp [hreissue, hretries], by simp [hreissue]⟩
  · rw [asked_eq hprogress, hreissue, hpending]
    cases hget : Table.get state.pending id with
    | none => simp [Table.erase_of_get_eq_none hget]
    | some hash =>
      have hmem := (Table.get_eq_some hnodup).mp hget
      exact Table.length_erase hnodup (List.mem_map_of_mem hmem)
  · intro query hquery
    rw [hpending] at hquery
    exact .inl (Table.mem_erase.mp hquery).1

/-- An event that issues its query again takes the old one off the table. -/
theorem Accounted.of_issued {hash : Bytes}
    (hprogress : event.progress = some (id, .getRecord .finishedWithNoAdditionalRecord))
    (hmem : (id, hash) ∈ state.pending) (hintime : event.handledAt < deadline)
    (hleft : state.retries hash < maxRetries) (hnodup : (state.pending.map Prod.fst).Nodup)
    (hfresh : Fresh state event)
    (hpending : next.pending = Table.erase (Table.insert state.pending event.newId hash) id)
    (hretries : next.retries = Function.update state.retries hash (state.retries hash + 1)) :
    Accounted maxRetries deadline state event next := by
  have hget := (Table.get_eq_some hnodup).mpr hmem
  have hkey : id ∈ (Table.insert state.pending event.newId hash).map Prod.fst :=
    List.mem_map_of_mem (Table.mem_insert.mpr (.inl ⟨hmem, hfresh.ne_of_mem hmem⟩))
  have hreissue : reissue maxRetries deadline state event = some hash := by
    simp [reissue, hprogress, hget, Option.filter, hintime, hleft]
  constructor
  · have hlength := Table.length_erase (Table.nodup_insert hnodup) hkey
    rw [← hpending, Table.insert_of_notMem hfresh] at hlength
    simpa [asked_eq hprogress, hget, hreissue] using hlength
  · rintro ⟨other, kept⟩ hquery
    rw [hpending, Table.mem_erase, Table.mem_insert] at hquery
    rcases hquery.1 with ⟨hold, -⟩ | ⟨-, hnew⟩
    · exact .inl hold
    · exact .inr (by rw [hreissue, hnew]; rfl)
  · intro other
    rw [hretries, hreissue]
    by_cases hother : other = hash
    · simp [hother]
    · simp [Ne.symm hother, Function.update_of_ne hother]
  · intro other hother
    rw [hreissue, Option.mem_some_iff] at hother
    exact hother ▸ ⟨⟨id, hmem⟩, hleft⟩

variable (hashBytes manifest maxRetries deadline) in
theorem handleEvent_accounted (hnodup : (state.pending.map Prod.fst).Nodup)
    (hfresh : Fresh state event) : Accounted maxRetries deadline state event
      (handleEvent hashBytes manifest maxRetries deadline state event) := by
  unfold handleEvent
  cases hprogress : event.progress with
  | none =>
    have hasked : asked state event = none := by simp [asked, hprogress]
    have hreissue : reissue maxRetries deadline state event = none := by simp [reissue, hprogress]
    constructor <;> simp [hasked, hreissue]
  | some progress =>
    obtain ⟨id, result⟩ := progress
    dsimp only
    cases result with
    | failed => exact .of_kept hprogress (by simp [reissue, hprogress]) hnodup rfl rfl
    | getRecord answer =>
      cases answer with
      | foundRecord key value =>
        exact .of_kept hprogress (by simp [reissue, hprogress]) hnodup rfl rfl
      | finishedWithNoAdditionalRecord =>
        rw [recordProgress]
        rcases retryQuery_cases maxRetries deadline event id hnodup with
          ⟨hash, hmem, hintime, hleft, heq⟩ | ⟨hnot, heq⟩
        · rw [heq]
          exact .of_issued hprogress hmem hintime hleft hnodup hfresh rfl rfl
        · rw [heq]
          refine .of_kept hprogress ?_ hnodup rfl rfl
          simp only [reissue, hprogress, Option.filter_eq_none_iff, decide_eq_true_eq]
          intro hash hget
          exact hnot hash ((Table.get_eq_some hnodup).mp hget)

end Steps

section Runs
variable {QueryId : Type} [DecidableEq QueryId] {hashBytes : Bytes → Bytes}
  {manifest : ChunkManifest} {maxRetries deadline : ℕ} {answered reissued : List Bytes}
  {state : FetchState QueryId} {event : FetchEvent QueryId}

/-- The queries that were answered, those that were issued again and those that are
pending add up. -/
structure Balanced (hashBytes : Bytes → Bytes) (manifest : ChunkManifest) (maxRetries : ℕ)
    (answered reissued : List Bytes) (state : FetchState QueryId) : Prop where
  sound : Sound hashBytes manifest state
  known : ∀ query ∈ state.pending, query.2 ∈ manifest.hashes
  queries : state.pending.length + answered.length = manifest.chunks.length + reissued.length
  counted : ∀ hash, reissued.count hash = state.retries hash
  bounded : ∀ hash, state.retries hash ≤ maxRetries
  reissued : ∀ hash ∈ reissued, hash ∈ manifest.hashes

theorem balanced_start {ids : List QueryId} (hnodup : ids.Nodup)
    (hlength : ids.length = manifest.chunks.length) :
    Balanced hashBytes manifest maxRetries [] [] (startQueries manifest ids) := by
  have hpending := startQueries_pending hnodup hlength
  refine ⟨sound_start hnodup hlength, ?_, ?_, ?_, ?_, by simp⟩
  · rw [hpending]
    exact fun query hquery => (List.of_mem_zip hquery).2
  · simp [hpending, ChunkManifest.hashes, hlength]
  · simp [startQueries]
  · simp [startQueries]

theorem Balanced.handle {next : FetchState QueryId}
    (h : Balanced hashBytes manifest maxRetries answered reissued state)
    (hsound : Sound hashBytes manifest next)
    (hnext : Accounted maxRetries deadline state event next) :
    Balanced hashBytes manifest maxRetries (answered ++ (asked state event).toList)
      (reissued ++ (reissue maxRetries deadline state event).toList) next := by
  have hknown : ∀ hash ∈ reissue maxRetries deadline state event, hash ∈ manifest.hashes := by
    intro hash hhash
    obtain ⟨⟨id, hmem⟩, -⟩ := hnext.reissued hash hhash
    exact h.known _ hmem
  refine ⟨hsound, ?_, ?_, ?_, ?_, ?_⟩
  · intro query hquery
    rcases hnext.pending query hquery with hold | hnew
    · exact h.known query hold
    · exact hknown query.2 hnew
  · have hbefore := h.queries
    have hstep := hnext.length
    rw [List.length_append, List.length_append]
    omega
  · intro hash
    rw [List.count_append, h.counted, hnext.retries]
  · intro hash
    rw [hnext.retries]
    cases hreissue : reissue maxRetries deadline state event with
    | none => simpa using h.bounded hash
    | some other =>
      have hleft := (hnext.reissued other hreissue).2
      have hbound := h.bounded hash
      rw [Option.toList_some, List.count_singleton]
      split_ifs with hother
      · rwa [← beq_iff_eq.mp hother]
      · exact hbound
  · intro hash hhash
    rcases List.mem_append.mp hhash with hold | hnew
    · exact h.reissued hash hold
    · exact hknown hash (Option.mem_toList.mp hnew)

/-- If every new query has an id of its own, the queries of a run add up. -/
theorem balanced_run {ids : List QueryId} {events : List (FetchEvent QueryId)}
    (hnodup : ids.Nodup) (hlength : ids.length = manifest.chunks.length)
    (hfresh : ∀ turn ∈ fetchRun hashBytes manifest maxRetries deadline ids events,
      turn.outcome = true → Fresh turn.before turn.input) :
    Balanced hashBytes manifest maxRetries
      (answeredIn (fetchRun hashBytes manifest maxRetries deadline ids events))
      (reissuedIn maxRetries deadline
        (fetchRun hashBytes manifest maxRetries deadline ids events))
      (final (fetchTurn hashBytes manifest maxRetries deadline) (startQueries manifest ids)
        events) := by
  revert hfresh
  refine history (fun past state =>
    (∀ turn ∈ past, turn.outcome = true → Fresh turn.before turn.input) →
      Balanced hashBytes manifest maxRetries (answeredIn past)
        (reissuedIn maxRetries deadline past) state) ?_ ?_
  · intro _
    exact balanced_start hnodup hlength
  · intro past state event hpast hfresh
    rw [List.forall_mem_append, List.forall_mem_singleton] at hfresh
    obtain ⟨hearlier, hlast⟩ := hfresh
    have hbalanced := hpast hearlier
    rw [answeredIn_append, reissuedIn_append]
    rcases hturn : fetchTurn hashBytes manifest maxRetries deadline state event with
      ⟨handled, next⟩
    rw [hturn] at hlast
    rcases fetchTurn_cases hturn with ⟨rfl, rfl⟩ | ⟨rfl, rfl⟩ | ⟨rfl, rfl⟩
    · simpa using hbalanced
    · have hsound : Sound hashBytes manifest { state with expired := true } :=
        ⟨hbalanced.sound.nodup, hbalanced.sound.stored⟩
      simpa using { hbalanced with sound := hsound }
    · exact hbalanced.handle (sound_handleEvent maxRetries deadline event hbalanced.sound)
        (handleEvent_accounted hashBytes manifest maxRetries deadline hbalanced.sound.nodup
          (hlast rfl))

/-- The queries that a fetch of the manifest may issue. -/
def queryBudget (manifest : ChunkManifest) (maxRetries : ℕ) : ℕ :=
  manifest.chunks.length + maxRetries * manifest.hashes.toFinset.card

/-- Whatever the network answers, a fetch issues a query for every chunk and asks for a
hash again at most as often as the policy says; each query is answered at most once, and
a fetch whose queries are all answered ends. -/
theorem fetch_queries_bounded (hashBytes : Bytes → Bytes) (manifest : ChunkManifest)
    (maxRetries deadline : ℕ) (ids : List QueryId) (events : List (FetchEvent QueryId))
    (hnodup : ids.Nodup) (hlength : ids.length = manifest.chunks.length)
    (hfresh : ∀ turn ∈ fetchRun hashBytes manifest maxRetries deadline ids events,
      turn.outcome = true → Fresh turn.before turn.input) :
    let run := fetchRun hashBytes manifest maxRetries deadline ids events
    let state := final (fetchTurn hashBytes manifest maxRetries deadline)
      (startQueries manifest ids) events
    state.pending.length + (answeredIn run).length =
        manifest.chunks.length + (reissuedIn maxRetries deadline run).length ∧
      (∀ hash, (reissuedIn maxRetries deadline run).count hash ≤ maxRetries) ∧
      (reissuedIn maxRetries deadline run).length ≤
        maxRetries * manifest.hashes.toFinset.card ∧
      (queryBudget manifest maxRetries ≤ (answeredIn run).length →
        fetchManifestChunks hashBytes manifest maxRetries deadline ids events =
          some (.ok state.store)) := by
  intro run state
  have hbalanced : Balanced hashBytes manifest maxRetries (answeredIn run)
      (reissuedIn maxRetries deadline run) state := balanced_run hnodup hlength hfresh
  have hqueries := hbalanced.queries
  have hcount : ∀ hash, (reissuedIn maxRetries deadline run).count hash ≤ maxRetries :=
    fun hash => (hbalanced.counted hash).trans_le (hbalanced.bounded hash)
  have hreissued : (reissuedIn maxRetries deadline run).length ≤
      maxRetries * manifest.hashes.toFinset.card := by
    refine Quota.length_le_mul_card ?_ hcount
    simpa using hbalanced.reissued
  refine ⟨hqueries, hcount, hreissued, ?_⟩
  · intro hanswered
    have hnone : state.pending.length = 0 := by
      rw [queryBudget] at hanswered
      omega
    exact if_pos (List.eq_nil_of_length_eq_zero hnone)

end Runs

/-- The fetch of one chunk whose query is issued again once. -/
theorem retried_fetch_within_budget :
    (reissuedIn 6 10 (fetchRun sampleHash fetchedManifest 6 10 [0] retriedEvents)) =
        [sampleHash [1]] ∧
      ((reissuedIn 6 10 (fetchRun sampleHash fetchedManifest 6 10 [0] retriedEvents)).length ≤
        6 * fetchedManifest.hashes.toFinset.card) := by
  refine ⟨by decide, ?_⟩
  exact (fetch_queries_bounded sampleHash fetchedManifest 6 10 [0] retriedEvents (by decide)
    (by decide) (by decide)).2.2.1

end Spex.P2p
