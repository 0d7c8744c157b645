import Spex.ChunkFetch
import Spex.NodeStart

/-!
# The loop that fetches a manifest

One query is issued for every chunk of the manifest. The loop handles the events of the
network until no query is pending or the deadline has passed. Any progress of a query
takes it off the table; only a query that ends without a record is issued again. Every
stored chunk has the hash it is stored under, but a query that fails, or that finds a
record with other contents, is retired without its chunk.
-/
namespace Spex.P2p
open Transcript

/-- What an event says about a query: an answer, or an error, or the result of a query of
another kind. -/
inductive QueryResult where
  | getRecord (result : GetRecordOk)
  | failed
  deriving DecidableEq, Repr

/-- An event of the network, if it is about a query with the query's id, together with
the readings of the clock before it is awaited and while it is handled, and the id of the
query that may be issued. -/
structure FetchEvent (QueryId : Type) where
  progress : Option (QueryId × QueryResult)
  checkedAt : ℕ
  handledAt : ℕ
  newId : QueryId

structure FetchState (QueryId : Type) where
  pending : List (QueryId × Bytes)
  retries : Bytes → ℕ := fun _ => 0
  store : ChunkStore := fun _ => none
  expired : Bool := false

section Loop
variable {QueryId : Type} [DecidableEq QueryId] (hashBytes : Bytes → Bytes)
  (manifest : ChunkManifest) (maxRetries deadline : ℕ)

/-- The queries of the chunks, with the ids that the network gives them. -/
def startQueries (ids : List QueryId) : FetchState QueryId where
  pending := (ids.zip manifest.hashes).foldl (fun pending query =>
    Table.insert pending query.1 query.2) []

/-- A query that has ended without a record is issued again, unless the deadline has
passed or its hash was retried too often. -/
def retryQuery (state : FetchState QueryId) (event : FetchEvent QueryId) (id : QueryId) :
    FetchState QueryId :=
  match Table.get state.pending id with
  | none => state
  | some hash =>
    if event.handledAt < deadline ∧ state.retries hash < maxRetries then
      { state with
        retries := Function.update state.retries hash (state.retries hash + 1)
        pending := Table.insert state.pending event.newId hash }
    else state

/-- The state before the query is taken off the table. -/
def recordProgress (state : FetchState QueryId) (event : FetchEvent QueryId) (id : QueryId) :
    QueryResult → FetchState QueryId
  | .getRecord (.foundRecord key value) => { state with
      store := extendStore state.store
        (extractRecords hashBytes (.foundRecord key value) manifest.hashes) }
  | .getRecord .finishedWithNoAdditionalRecord =>
    retryQuery maxRetries deadline state event id
  | .failed => state

def handleEvent (state : FetchState QueryId) (event : FetchEvent QueryId) : FetchState QueryId :=
  match event.progress with
  | none => state
  | some (id, result) =>
    let state := recordProgress hashBytes manifest maxRetries deadline state event id result
    { state with pending := Table.erase state.pending id }

/-- One turn of the loop, and whether it was made. -/
def fetchTurn (state : FetchState QueryId) (event : FetchEvent QueryId) :
    Bool × FetchState QueryId :=
  if state.pending = [] ∨ state.expired then (false, state)
  else if deadline ≤ event.checkedAt then (false, { state with expired := true })
  else (true, handleEvent hashBytes manifest maxRetries deadline state event)

abbrev FetchRun (QueryId : Type) := List (Turn (FetchState QueryId) (FetchEvent QueryId) Bool)

def fetchRun (ids : List QueryId) (events : List (FetchEvent QueryId)) : FetchRun QueryId :=
  transcript (fetchTurn hashBytes manifest maxRetries deadline) (startQueries manifest ids) events

/-- The result after some events, `none` if the loop waits for another one. -/
def fetchManifestChunks (ids : List QueryId) (events : List (FetchEvent QueryId)) :
    Option (Except NodeError ChunkStore) :=
  let state := final (fetchTurn hashBytes manifest maxRetries deadline)
    (startQueries manifest ids) events
  if state.pending = [] then some (.ok state.store)
  else if state.expired then some (.error (.libp2p "timed out waiting for DHT records"))
  else none

end Loop

section Invariant
variable {QueryId : Type} [DecidableEq QueryId] {hashBytes : Bytes → Bytes}
  {manifest : ChunkManifest} {maxRetries deadline : ℕ} {state : FetchState QueryId}
  {event : FetchEvent QueryId} {id : QueryId} {result : QueryResult} {hash : Bytes}
  {ids : List QueryId}

/-- Every query has an id of its own, and what is stored has the hash of a chunk. -/
structure Sound (hashBytes : Bytes → Bytes) (manifest : ChunkManifest)
    (state : FetchState QueryId) : Prop where
  nodup : (state.pending.map Prod.fst).Nodup
  stored : ∀ hash data, state.store hash = some data →
    hash ∈ manifest.hashes ∧ hashBytes data = hash

/-- The chunk of a hash is stored or asked for. -/
def Tracked (state : FetchState QueryId) (hash : Bytes) : Prop :=
  (∃ id, (id, hash) ∈ state.pending) ∨ state.store hash ≠ none

/-- The result is a record with the hash. -/
def QueryResult.Finds (hashBytes : Bytes → Bytes) (hash : Bytes) : QueryResult → Prop
  | .getRecord (.foundRecord key value) => key = hash ∧ hashBytes value = hash
  | .getRecord .finishedWithNoAdditionalRecord | .failed => False

instance : DecidablePred (QueryResult.Finds hashBytes hash)
  | .getRecord (.foundRecord _ _) => instDecidableAnd
  | .getRecord .finishedWithNoAdditionalRecord | .failed => instDecidableFalse

/-- A query that an event takes off the table has found its chunk or is issued again, or
it is not needed: the chunk is stored, or asked for by another query. -/
def Retires (hashBytes : Bytes → Bytes) (maxRetries deadline : ℕ) (state : FetchState QueryId)
    (event : FetchEvent QueryId) : Prop :=
  ∀ progress ∈ event.progress, ∀ query ∈ state.pending, query.1 = progress.1 →
    progress.2.Finds hashBytes query.2 ∨
    (progress.2 = .getRecord .finishedWithNoAdditionalRecord ∧ event.handledAt < deadline ∧
      state.retries query.2 < maxRetries) ∨
    (state.store query.2).isSome ∨
    ∃ other ∈ state.pending, other.1 ≠ progress.1 ∧ other.2 = query.2

instance : Decidable (Retires hashBytes maxRetries deadline state event) :=
  inferInstanceAs (Decidable (∀ progress ∈ event.progress, ∀ query ∈ state.pending, _ → _))

/-- The id of a new query is not in use. -/
def Fresh (state : FetchState QueryId) (event : FetchEvent QueryId) : Prop :=
  event.newId ∉ state.pending.map Prod.fst

instance : Decidable (Fresh state event) :=
  inferInstanceAs (Decidable (_ ∉ _))

omit [DecidableEq QueryId] in
theorem Fresh.ne_of_mem (h : Fresh state event) (hmem : (id, hash) ∈ state.pending) :
    id ≠ event.newId := ne_of_mem_of_not_mem (List.mem_map_of_mem hmem) h

theorem startQueries_pending (hnodup : ids.Nodup) (hlength : ids.length = manifest.chunks.length) :
    (startQueries manifest ids).pending = ids.zip manifest.hashes := by
  rw [startQueries, Table.foldl_insert, List.nil_append]
  have hle : ids.length ≤ manifest.hashes.length := by simp [ChunkManifest.hashes, hlength]
  simpa [List.map_fst_zip hle] using hnodup

theorem sound_start (hnodup : ids.Nodup) (hlength : ids.length = manifest.chunks.length) :
    Sound hashBytes manifest (startQueries manifest ids) := by
  constructor
  · rw [startQueries_pending hnodup hlength, List.map_fst_zip]
    · exact hnodup
    · simp [ChunkManifest.hashes, hlength]
  · simp [startQueries]

theorem tracked_start (hnodup : ids.Nodup) (hlength : ids.length = manifest.chunks.length)
    (hhash : hash ∈ manifest.hashes) : Tracked (startQueries manifest ids) hash := by
  have hsnd : (ids.zip manifest.hashes).map Prod.snd = manifest.hashes := by
    apply List.map_snd_zip
    simp [ChunkManifest.hashes, hlength]
  rw [← hsnd] at hhash
  obtain ⟨⟨id, other⟩, hmem, rfl⟩ := List.mem_map.mp hhash
  exact .inl ⟨id, by rwa [startQueries_pending hnodup hlength]⟩

variable (maxRetries deadline event id) in
/-- A retry issues the query of its hash under the new id, or does nothing. -/
theorem retryQuery_cases (hnodup : (state.pending.map Prod.fst).Nodup) :
    (∃ hash, (id, hash) ∈ state.pending ∧ event.handledAt < deadline ∧
      state.retries hash < maxRetries ∧
      retryQuery maxRetries deadline state event id = { state with
        retries := Function.update state.retries hash (state.retries hash + 1)
        pending := Table.insert state.pending event.newId hash }) ∨
    (∀ hash, (id, hash) ∈ state.pending →
      ¬(event.handledAt < deadline ∧ state.retries hash < maxRetries)) ∧
      retryQuery maxRetries deadline state event id = state := by
  unfold retryQuery
  cases hget : Table.get state.pending id with
  | none =>
    refine .inr ⟨?_, rfl⟩
    intro hash hmem
    rw [(Table.get_eq_some hnodup).mpr hmem] at hget
    simp at hget
  | some hash =>
    have hmem := (Table.get_eq_some hnodup).mp hget
    dsimp only
    split_ifs with hretry
    · exact .inl ⟨hash, hmem, hretry.1, hretry.2, rfl⟩
    · refine .inr ⟨?_, rfl⟩
      intro other hother
      have heq := ((Table.get_eq_some hnodup).mpr hother).symm.trans hget
      rwa [Option.some.inj heq]

/-- A query with an attempt left is issued again. -/
theorem mem_retryQuery (hnodup : (state.pending.map Prod.fst).Nodup)
    (hmem : (id, hash) ∈ state.pending) (hintime : event.handledAt < deadline)
    (hleft : state.retries hash < maxRetries) :
    (event.newId, hash) ∈ (retryQuery maxRetries deadline state event id).pending := by
  rcases retryQuery_cases maxRetries deadline event id hnodup with
    ⟨retried, hretried, -, -, heq⟩ | ⟨hnot, -⟩
  · have hget := (Table.get_eq_some hnodup).mpr hretried
    rw [(Table.get_eq_some hnodup).mpr hmem] at hget
    rw [heq, ← Option.some.inj hget]
    exact Table.mem_insert.mpr (.inr ⟨rfl, rfl⟩)
  · exact absurd ⟨hintime, hleft⟩ (hnot hash hmem)

theorem retryQuery_store : (retryQuery maxRetries deadline state event id).store = state.store := by
  unfold retryQuery
  split
  · rfl
  · split_ifs <;> rfl

variable (maxRetries deadline event id result) in
theorem sound_recordProgress (h : Sound hashBytes manifest state) :
    Sound hashBytes manifest
      (recordProgress hashBytes manifest maxRetries deadline state event id result) := by
  cases result with
  | failed => exact h
  | getRecord answer =>
    cases answer with
    | foundRecord key value =>
      refine ⟨h.nodup, ?_⟩
      intro hash data hstored
      rcases Option.or_eq_some_iff.mp hstored with hnew | ⟨-, hold⟩
      · exact (extractRecords_eq_some.mp hnew).2
      · exact h.stored hash data hold
    | finishedWithNoAdditionalRecord =>
      refine ⟨?_, ?_⟩
      · change ((retryQuery maxRetries deadline state event id).pending.map Prod.fst).Nodup
        rcases retryQuery_cases maxRetries deadline event id h.nodup with
          ⟨hash, -, -, -, heq⟩ | ⟨-, heq⟩
        · rw [heq]
          exact Table.nodup_insert h.nodup
        · rw [heq]
          exact h.nodup
      · change ∀ hash data,
          (retryQuery maxRetries deadline state event id).store hash = some data → _
        rw [retryQuery_store]
        exact h.stored

variable (hashBytes manifest maxRetries deadline id result) in
/-- Pending queries stay pending until the one of the event is taken off. -/
theorem mem_recordProgress (hnodup : (state.pending.map Prod.fst).Nodup)
    (hfresh : Fresh state event) {other : QueryId} (hmem : (other, hash) ∈ state.pending) :
    (other, hash) ∈
      (recordProgress hashBytes manifest maxRetries deadline state event id result).pending := by
  cases result with
  | failed => exact hmem
  | getRecord answer =>
    cases answer with
    | foundRecord key value => exact hmem
    | finishedWithNoAdditionalRecord =>
      rw [recordProgress]
      rcases retryQuery_cases maxRetries deadline event id hnodup with
        ⟨retried, -, -, -, heq⟩ | ⟨-, heq⟩
      · rw [heq]
        exact Table.mem_insert.mpr (.inl ⟨hmem, hfresh.ne_of_mem hmem⟩)
      · rwa [heq]

variable (hashBytes manifest maxRetries deadline event id result) in
theorem stored_recordProgress (hstored : state.store hash ≠ none) :
    (recordProgress hashBytes manifest maxRetries deadline state event id result).store hash ≠
      none := by
  cases result with
  | failed => exact hstored
  | getRecord answer =>
    cases answer with
    | foundRecord key value =>
      simp [recordProgress, extendStore, hstored]
    | finishedWithNoAdditionalRecord => rwa [recordProgress, retryQuery_store]

variable (maxRetries deadline state event id) in
theorem stored_of_finds (hhash : hash ∈ manifest.hashes) (hfinds : result.Finds hashBytes hash) :
    (recordProgress hashBytes manifest maxRetries deadline state event id result).store hash ≠
      none := by
  cases result with
  | failed => exact hfinds.elim
  | getRecord answer =>
    cases answer with
    | finishedWithNoAdditionalRecord => exact hfinds.elim
    | foundRecord key value =>
      obtain ⟨rfl, hvalue⟩ := hfinds
      have hnew := extractRecords_eq_some.mpr ⟨rfl, hhash, hvalue⟩
      simp [recordProgress, extendStore, hnew]

variable (maxRetries deadline event) in
theorem sound_handleEvent (h : Sound hashBytes manifest state) :
    Sound hashBytes manifest (handleEvent hashBytes manifest maxRetries deadline state event) := by
  unfold handleEvent
  cases event.progress with
  | none => exact h
  | some progress =>
    have hprogress :=
      sound_recordProgress maxRetries deadline event progress.1 progress.2 h
    exact ⟨Table.nodup_erase hprogress.nodup, hprogress.stored⟩

/-- An event that retires no query without its chunk loses track of no hash. -/
theorem tracked_handleEvent (hsound : Sound hashBytes manifest state) (hfresh : Fresh state event)
    (hretires : Retires hashBytes maxRetries deadline state event)
    (hhash : hash ∈ manifest.hashes) (h : Tracked state hash) :
    Tracked (handleEvent hashBytes manifest maxRetries deadline state event) hash := by
  unfold handleEvent
  cases hprogress : event.progress with
  | none => exact h
  | some progress =>
    obtain ⟨id, result⟩ := progress
    have hkept : ∀ other, other ≠ id → (other, hash) ∈ state.pending →
        (other, hash) ∈ Table.erase (recordProgress hashBytes manifest maxRetries deadline state
          event id result).pending id := by
      intro other hne hmem
      have hrecorded := mem_recordProgress hashBytes manifest maxRetries deadline id result
        hsound.nodup hfresh hmem
      exact Table.mem_erase.mpr ⟨hrecorded, hne⟩
    rcases h with ⟨other, hmem⟩ | hstored
    · by_cases hother : other = id
      · subst hother
        rcases hretires (other, result) hprogress (other, hash) hmem rfl with
          hfinds | ⟨rfl, hintime, hleft⟩ | hstored | ⟨⟨second, _⟩, hsecond, hne, rfl⟩
        · exact .inr (stored_of_finds maxRetries deadline state event other hhash hfinds)
        · have hissued := mem_retryQuery hsound.nodup hmem hintime hleft
          have hne := (hfresh.ne_of_mem hmem).symm
          exact .inl ⟨event.newId, Table.mem_erase.mpr ⟨hissued, hne⟩⟩
        · exact .inr (stored_recordProgress hashBytes manifest maxRetries deadline event other
            result (Option.isSome_iff_ne_none.mp hstored))
        · exact .inl ⟨second, hkept second hne hsecond⟩
      · exact .inl ⟨other, hkept other hother hmem⟩
    · exact .inr (stored_recordProgress hashBytes manifest maxRetries deadline event id result
        hstored)

theorem fetchTurn_cases {handled : Bool} {next : FetchState QueryId}
    (h : fetchTurn hashBytes manifest maxRetries deadline state event = (handled, next)) :
    handled = false ∧ next = state ∨ handled = false ∧ next = { state with expired := true } ∨
      handled = true ∧
        next = handleEvent hashBytes manifest maxRetries deadline state event := by
  unfold fetchTurn at h
  split_ifs at h <;> simp_all

end Invariant

section Runs
variable {QueryId : Type} [DecidableEq QueryId] {hashBytes : Bytes → Bytes}
  {manifest : ChunkManifest} {maxRetries deadline : ℕ} {ids : List QueryId}
  {events : List (FetchEvent QueryId)} {store : ChunkStore}

theorem fetchManifestChunks_eq_ok
    (h : fetchManifestChunks hashBytes manifest maxRetries deadline ids events =
      some (.ok store)) :
    ∃ state, final (fetchTurn hashBytes manifest maxRetries deadline) (startQueries manifest ids)
      events = state ∧ state.pending = [] ∧ state.store = store := by
  unfold fetchManifestChunks at h
  dsimp only at h
  split_ifs at h with hpending
  · exact ⟨_, rfl, hpending, by simpa using h⟩
  · simp at h

/-- Whatever the events are, the loop stores only chunks of the manifest. -/
theorem sound_run (hnodup : ids.Nodup) (hlength : ids.length = manifest.chunks.length) :
    (∀ turn ∈ fetchRun hashBytes manifest maxRetries deadline ids events,
      Sound hashBytes manifest turn.before) ∧
    Sound hashBytes manifest (final (fetchTurn hashBytes manifest maxRetries deadline)
      (startQueries manifest ids) events) := by
  apply invariant (Sound hashBytes manifest) (sound_start hnodup hlength)
  intro turn hturn hbefore
  rcases fetchTurn_cases (step_of_mem hturn) with ⟨-, hafter⟩ | ⟨-, hafter⟩ | ⟨-, hafter⟩
  · rwa [hafter]
  · rw [hafter]
    exact ⟨hbefore.nodup, hbefore.stored⟩
  · rw [hafter]
    exact sound_handleEvent maxRetries deadline turn.input hbefore

/-- If no query is retired without its chunk, every chunk is stored or asked for at any
time. -/
theorem tracked_run (hnodup : ids.Nodup) (hlength : ids.length = manifest.chunks.length)
    (hturns : ∀ turn ∈ fetchRun hashBytes manifest maxRetries deadline ids events,
      turn.outcome = true → Fresh turn.before turn.input ∧
        Retires hashBytes maxRetries deadline turn.before turn.input) :
    ∀ hash ∈ manifest.hashes, Tracked (final (fetchTurn hashBytes manifest maxRetries deadline)
      (startQueries manifest ids) events) hash := by
  intro hash hhash
  refine (invariant (Tracked · hash) (tracked_start hnodup hlength hhash) ?_).2
  intro turn hturn hbefore
  rcases fetchTurn_cases (step_of_mem hturn) with ⟨-, hafter⟩ | ⟨-, hafter⟩ | ⟨hhandled, hafter⟩
  · rwa [hafter]
  · rwa [hafter]
  · rw [hafter]
    have hsound := (sound_run hnodup hlength).1 turn hturn
    obtain ⟨hfresh, hretires⟩ := hturns turn hturn hhandled
    exact tracked_handleEvent hsound hfresh hretires hhash hbefore

/-- A fetch that succeeds has every chunk of the manifest and nothing else, if no event
retires a query without its chunk. -/
theorem fetch_complete (hashBytes : Bytes → Bytes) (manifest : ChunkManifest)
    (maxRetries deadline : ℕ) (ids : List QueryId) (events : List (FetchEvent QueryId))
    (hnodup : ids.Nodup) (hlength : ids.length = manifest.chunks.length)
    (hfresh : ∀ turn ∈ fetchRun hashBytes manifest maxRetries deadline ids events,
      turn.outcome = true → Fresh turn.before turn.input)
    (hretires : ∀ turn ∈ fetchRun hashBytes manifest maxRetries deadline ids events,
      turn.outcome = true → Retires hashBytes maxRetries deadline turn.before turn.input)
    (store : ChunkStore) (hok : fetchManifestChunks hashBytes manifest maxRetries deadline ids
      events = some (.ok store)) :
    (∀ hash ∈ manifest.hashes, ∃ data, store hash = some data ∧ hashBytes data = hash) ∧
      ∀ hash, store hash ≠ none → hash ∈ manifest.hashes := by
  obtain ⟨state, hfinal, hpending, rfl⟩ := fetchManifestChunks_eq_ok hok
  have hsound := hfinal ▸ (sound_run hnodup hlength).2
  have hturns := fun turn hturn hhandled =>
    And.intro (hfresh turn hturn hhandled) (hretires turn hturn hhandled)
  constructor
  · intro hash hhash
    rcases hfinal ▸ tracked_run hnodup hlength hturns hash hhash with ⟨id, hmem⟩ | hstored
    · simp [hpending] at hmem
    · obtain ⟨data, hdata⟩ := Option.ne_none_iff_exists'.mp hstored
      exact ⟨data, hdata, (hsound.stored hash data hdata).2⟩
  · intro hash hstored
    obtain ⟨data, hdata⟩ := Option.ne_none_iff_exists'.mp hstored
    exact (hsound.stored hash data hdata).1

end Runs

/-- A fetch of one chunk in which the events are about the queries 0 and 1. -/
def fetchOne (events : List (FetchEvent ℕ)) : Option (Except NodeError ChunkStore) :=
  fetchManifestChunks sampleHash fetchedManifest 6 10 [0] events

/-- A query that fails, or that finds other contents, ends the fetch without its chunk. -/
theorem retired_query_loses_chunk :
    sampleHash [1] ∈ fetchedManifest.hashes ∧
      (∃ store, fetchOne [⟨some (0, .failed), 0, 0, 1⟩] = some (.ok store) ∧
        store (sampleHash [1]) = none) ∧
      ∃ store, fetchOne [⟨some (0, .getRecord (.foundRecord (sampleHash [1]) [2])), 0, 0, 1⟩] =
        some (.ok store) ∧ store (sampleHash [1]) = none := by
  refine ⟨by decide, ⟨_, rfl, by decide⟩, ⟨_, rfl, by decide⟩⟩

/-- A query that ends without a record and is answered when it is issued again. -/
def retriedEvents : List (FetchEvent ℕ) :=
  [⟨some (0, .getRecord .finishedWithNoAdditionalRecord), 0, 1, 1⟩,
    ⟨some (1, .getRecord (.foundRecord (sampleHash [1]) [1])), 2, 3, 2⟩]

theorem retried_query_finds_chunk :
    ∃ store, fetchOne retriedEvents = some (.ok store) ∧
      (∀ hash ∈ fetchedManifest.hashes, ∃ data, store hash = some data ∧ sampleHash data = hash) ∧
        ∀ hash, store hash ≠ none → hash ∈ fetchedManifest.hashes := by
  refine ⟨_, rfl, ?_⟩
  apply fetch_complete sampleHash fetchedManifest 6 10 [0] retriedEvents (by decide) (by decide)
  · decide
  · decide
  · rfl

end Spex.P2p
