import Spex.RateLimits

/-!
# Requests that fail

A request stores its data before it writes the log and the reputation, without a
transaction around the statements. If one of the later statements fails, the
request answers with an error although its data is stored, and a client that
retries stores an inbox item a second time. A request that answers with an error has
stored nothing exactly if none of its statements failed after one that changed a table.
-/
namespace Spex.Bridge
open Transcript

/-- The tables that hold what requests store. -/
def Database.stored (db : Database) :
    (String → Option Bytes) × (String → Option Bytes) × List String × InboxTable :=
  (db.cards, db.slots, db.inboxKeys, db.inboxItems)

/-- A storing statement of the request has run, and no statement has failed. -/
def Phase.stored : Phase → Bool
  | .storingItem _ _ => true
  | .logging result | .readingScore result | .writingScore result _ | .finished result =>
    result.isOk
  | _ => false

/-- The request has nothing left to store. -/
def Phase.settled : Phase → Bool
  | .logging _ | .readingScore _ | .writingScore _ _ | .finished _ => true
  | _ => false

/-- The number of the request of which a statement runs or fails. -/
def Event.statement (event : Event) : Option ℕ :=
  match event.action with
  | .advance index | .fail index => some index
  | _ => none

def Answered (index : ℕ) (result : Except BridgeError Unit) (run : List BridgeTurn) : Prop :=
  ∃ turn ∈ run, turn.input.statement = some index ∧ turn.outcome = some result

/-- The next statement of a request changes a table that holds what requests store. -/
def Task.Changes (db : Database) (task : Task) : Prop :=
  match task.phase with
  | .storing (.card cardHash) => db.cards cardHash ≠ some task.data
  | .storing (.slot slotId) => db.slots slotId ≠ some task.data
  | .storing (.item inboxKey _) => inboxKey ∉ db.inboxKeys
  | .storingItem _ _ => True
  | _ => False

/-- A statement of the request fails after one that has changed a table. -/
def LateFailure (index : ℕ) (run : List BridgeTurn) : Prop :=
  ∃ store failure, [store, failure].Sublist run ∧ store.input.action = .advance index ∧
    (∃ task ∈ store.before.tasks[index]?, task.Changes store.before.db) ∧
    failure.input.action = .fail index

def BridgeTurn.addsItem (turn : BridgeTurn) : Bool :=
  turn.before.db.inboxItems.items.length < turn.after.db.inboxItems.items.length

section Statements
variable {crypto : BridgeCrypto} {limits : RateLimitConfig} {clock : UInt64} {db : Database}
  {task : Task}

theorem stored_advance_ne_iff :
    (task.advance crypto limits clock db).1.stored ≠ db.stored ↔ task.Changes db := by
  generalize hnext : task.advance crypto limits clock db = next
  unfold Task.Changes
  cases statement_advance hnext with
  | storedCard cardHash hphase =>
    simp [hphase, Database.stored, Database.storeCard, eq_comm]
  | storedSlot slotId hphase =>
    simp [hphase, Database.stored, Database.storeSlot, eq_comm]
  | storedKey inboxKey expiresAt hphase =>
    rw [hphase, Database.insertInboxKey]
    split_ifs with hknown <;> simp [Database.stored, hknown]
  | storedItem inboxKey expiresAt hphase =>
    simp only [hphase, iff_true]
    intro hsame
    have hlength := congrArg (fun stored => stored.2.2.2.items.length) hsame
    simp [Database.stored, Database.insertInboxItem, InboxTable.insert] at hlength
  | _ => simp [Database.stored, Database.insertLog, Database.upsertScore, *]

theorem stored_of_changes (h : task.Changes db) :
    (task.advance crypto limits clock db).2.phase.stored = true := by
  generalize hnext : task.advance crypto limits clock db = next
  unfold Task.Changes at h
  cases statement_advance hnext with
  | storedCard cardHash hphase => rfl
  | storedSlot slotId hphase => rfl
  | storedKey inboxKey expiresAt hphase => rfl
  | storedItem inboxKey expiresAt hphase => rfl
  | _ => simp_all

theorem stored_advance (h : task.phase.stored = true) :
    (task.advance crypto limits clock db).2.phase.stored = true := by
  generalize hnext : task.advance crypto limits clock db = next
  cases statement_advance hnext with
  | storedItem inboxKey expiresAt hphase => rfl
  | logged result hphase =>
    rw [hphase] at h
    exact h
  | readScore result hphase =>
    rw [hphase] at h
    exact h
  | wroteScore result current hphase =>
    rw [hphase] at h
    exact h
  | rested result hphase => exact h
  | _ => simp_all [Phase.stored]

theorem settled_advance (h : task.phase.settled = true) :
    (task.advance crypto limits clock db).2.phase.settled = true ∧
      (task.advance crypto limits clock db).1.stored = db.stored := by
  generalize hnext : task.advance crypto limits clock db = next
  cases statement_advance hnext with
  | logged result hphase => exact ⟨rfl, rfl⟩
  | readScore result hphase => exact ⟨rfl, rfl⟩
  | wroteScore result current hphase => exact ⟨rfl, rfl⟩
  | rested result hphase => exact ⟨h, rfl⟩
  | _ => simp_all [Phase.settled]

theorem settled_of_advance
    (h : (task.advance crypto limits clock db).1.inboxItems ≠ db.inboxItems) :
    (task.advance crypto limits clock db).2.phase.settled = true := by
  generalize hnext : task.advance crypto limits clock db = next at h
  cases statement_advance hnext with
  | storedItem inboxKey expiresAt hphase => rfl
  | storedKey inboxKey expiresAt hphase => exact absurd (insertInboxKey_inboxItems ..) h
  | _ => exact absurd rfl h

end Statements

/-- The request has answered with an error. -/
def Phase.failed : Phase → Bool
  | .finished (.error _) => true
  | _ => false

theorem Phase.stored_of_failed {phase : Phase} (h : phase.failed = true) :
    phase.stored = false := by
  unfold Phase.failed at h
  split at h
  · rfl
  · cases h

/-- The phase of a request has a property. -/
def Server.At (index : ℕ) (p : Phase → Bool) (server : Server) : Prop :=
  ∃ task, server.tasks[index]? = some task ∧ p task.phase = true

section Turns
variable {crypto : BridgeCrypto} {limits : RateLimitConfig} {server : Server} {event : Event}
  {index : ℕ} {p : Phase → Bool}

theorem statement_of_arrival {task : Except BridgeError Task}
    (h : event.arrival crypto = some task) : event.statement = none := by
  cases arrival_case h <;> simp [Event.statement, *]

theorem getElem?_set_of_some {tasks : List Task} {task : Task} (h : tasks[index]? = some task)
    (replaced : Task) : (tasks.set index replaced)[index]? = some replaced := by
  obtain ⟨hlt, -⟩ := List.getElem?_eq_some_iff.mp h
  exact List.getElem?_set_self hlt

theorem statement_eq_some : event.statement = some index ↔
    event.action = .advance index ∨ event.action = .fail index := by
  unfold Event.statement
  cases event.action <;> simp

/-- An event leaves the requests alone whose statement it is not. -/
theorem getElem?_step_of_ne {task : Task} (hget : server.tasks[index]? = some task)
    (h : event.statement ≠ some index) :
    (server.step crypto limits event).2.tasks[index]? = some task := by
  rw [Ne, statement_eq_some, not_or] at h
  generalize hnext : server.step crypto limits event = next
  cases step_case hnext with
  | arrived new harrival =>
    obtain ⟨hlt, -⟩ := List.getElem?_eq_some_iff.mp hget
    rw [List.getElem?_append_left hlt, hget]
  | advanced other acting haction hacting =>
    have hother : other ≠ index := fun heq => h.1 (heq ▸ haction)
    rw [List.getElem?_set_ne hother, hget]
  | failed other acting haction hacting =>
    have hother : other ≠ index := fun heq => h.2 (heq ▸ haction)
    rw [List.getElem?_set_ne hother, hget]
  | _ => exact hget

/-- A property of phases that the statements of a request keep, and its failures. -/
theorem at_step
    (hadvance : ∀ clock db (task : Task), p task.phase = true →
      p (task.advance crypto limits clock db).2.phase = true)
    (hfail : event.action = .fail index → ∀ task ∈ server.tasks[index]?, p task.phase = true →
      p (.finished (.error .storage)) = true)
    (h : server.At index p) : (server.step crypto limits event).2.At index p := by
  obtain ⟨task, hget, hphase⟩ := h
  by_cases hown : event.statement = some index
  · rcases statement_eq_some.mp hown with haction | haction
    · rw [step_of_advance haction hget]
      exact ⟨_, getElem?_set_of_some hget _, hadvance _ _ task hphase⟩
    · rw [step_of_fail haction hget]
      exact ⟨_, getElem?_set_of_some hget _, hfail haction task hget hphase⟩
  · exact ⟨task, getElem?_step_of_ne hget hown, hphase⟩

/-- A statement that changes the database has run. -/
theorem advances_of_change (hstatement : event.statement = some index)
    (h : (server.step crypto limits event).2.db ≠ server.db) :
    event.action = .advance index ∧ ∃ task, server.tasks[index]? = some task := by
  generalize hnext : server.step crypto limits event = next at h
  cases step_case hnext with
  | advanced other acting haction hacting =>
    obtain rfl : other = index := by simpa [Event.statement, haction] using hstatement
    exact ⟨haction, acting, hacting⟩
  | _ => exact absurd rfl h

theorem settled_of_change (hstatement : event.statement = some index)
    (h : (server.step crypto limits event).2.db.inboxItems ≠ server.db.inboxItems) :
    (server.step crypto limits event).2.At index Phase.settled := by
  obtain ⟨haction, task, hget⟩ := advances_of_change hstatement (ne_of_apply_ne _ h)
  rw [step_of_advance haction hget] at h ⊢
  exact ⟨_, getElem?_set_of_some hget _, settled_of_advance h⟩

theorem changes_of_step (hstatement : event.statement = some index)
    (h : (server.step crypto limits event).2.db.stored ≠ server.db.stored) :
    ∃ task, event.action = .advance index ∧ server.tasks[index]? = some task ∧
      task.Changes server.db := by
  obtain ⟨haction, task, hget⟩ := advances_of_change hstatement (ne_of_apply_ne _ h)
  rw [step_of_advance haction hget] at h
  exact ⟨task, haction, hget, stored_advance_ne_iff.mp h⟩

variable (crypto limits) in
theorem stored_of_settled (hstatement : event.statement = some index)
    (h : server.At index Phase.settled) :
    (server.step crypto limits event).2.db.stored = server.db.stored := by
  obtain ⟨task, hget, hphase⟩ := h
  rcases statement_eq_some.mp hstatement with haction | haction
  · rw [step_of_advance haction hget]
    exact (settled_advance hphase).2
  · rw [step_of_fail haction hget]

theorem at_failed_of_answer {err : BridgeError} (hstatement : event.statement = some index)
    (h : (server.step crypto limits event).1 = some (.error err)) :
    (server.step crypto limits event).2.At index Phase.failed := by
  generalize hnext : server.step crypto limits event = next at h
  cases step_case hnext with
  | refused err harrival => simp [statement_of_arrival harrival] at hstatement
  | arrived task harrival => cases h
  | advanced other acting haction hacting =>
    obtain rfl : other = index := by simpa [Event.statement, haction] using hstatement
    refine ⟨_, getElem?_set_of_some hacting _, ?_⟩
    unfold Task.answer at h
    split at h
    · rename_i result hphase
      rw [hphase, Option.some.inj h]
      rfl
    · cases h
  | failed other acting haction hacting =>
    obtain rfl : other = index := by simpa [Event.statement, haction] using hstatement
    exact ⟨_, getElem?_set_of_some hacting _, rfl⟩
  | idle other haction hother => cases h

end Turns

section Runs
variable {crypto : BridgeCrypto} {limits : RateLimitConfig} {start : Server}
  {events : List Event} {index : ℕ}

theorem failed_advance {clock : UInt64} {db : Database} {task : Task}
    (h : task.phase.failed = true) :
    (task.advance crypto limits clock db).2.phase.failed = true := by
  generalize hnext : task.advance crypto limits clock db = next
  cases statement_advance hnext with
  | rested result hphase => exact h
  | _ => simp_all [Phase.failed]

/-- A request that answers with an error has stored something only if a statement of it
has failed after that. -/
theorem lateFailure_of_change {err : BridgeError}
    (herror : Answered index (.error err) (serverRun crypto limits start events))
    {turn : BridgeTurn} (hturn : turn ∈ serverRun crypto limits start events)
    (hstatement : turn.input.statement = some index)
    (hchange : turn.after.db.stored ≠ turn.before.db.stored) :
    LateFailure index (serverRun crypto limits start events) := by
  obtain ⟨last, hlast, hown, hanswer⟩ := herror
  have hfailed : last.after.At index Phase.failed := by
    rw [outcome_eq hlast] at hanswer
    rw [after_eq hlast]
    exact at_failed_of_answer hown hanswer
  have hstaysFailed : ∀ turn ∈ serverRun crypto limits start events,
      turn.before.At index Phase.failed → turn.after.At index Phase.failed := by
    intro turn hturn hbefore
    rw [after_eq hturn]
    exact at_step (fun _ _ _ => failed_advance) (fun _ _ _ _ => rfl) hbefore
  obtain ⟨task, hget, hfailed⟩ := persists _ hstaysFailed hlast hfailed
  rw [after_eq hturn] at hchange
  obtain ⟨acting, haction, hacting, hchanges⟩ := changes_of_step hstatement hchange
  have hstored : turn.after.At index Phase.stored := by
    rw [after_eq hturn, step_of_advance haction hacting]
    exact ⟨_, getElem?_set_of_some hacting _, stored_of_changes hchanges⟩
  obtain ⟨past, rest, hrun, hfinal⟩ := run_of_mem hturn
  by_cases hlate : ∃ failure ∈ serverRun crypto limits turn.after rest,
      failure.input.action = .fail index
  · obtain ⟨failure, hfailure, hfails⟩ := hlate
    refine ⟨turn, failure, ?_, haction, ⟨acting, hacting, hchanges⟩, hfails⟩
    rw [serverRun, hrun]
    exact ((List.singleton_sublist.mpr hfailure).cons_cons turn).trans
      (List.sublist_append_right _ _)
  · have hstays := (invariant (Server.At index Phase.stored) hstored fun later hlater hbefore => by
      rw [after_eq hlater]
      exact at_step (fun _ _ _ => stored_advance)
        (fun hfails => absurd ⟨later, hlater, hfails⟩ hlate) hbefore).2
    obtain ⟨task', hget', hstored⟩ := hstays
    rw [hfinal] at hget
    obtain rfl : task = task' := Option.some.inj (hget.symm.trans hget')
    rw [Phase.stored_of_failed hfailed] at hstored
    cases hstored

/-- A late failure answers with an error, after a change. -/
theorem answered_of_lateFailure (h : LateFailure index (serverRun crypto limits start events)) :
    Answered index (.error .storage) (serverRun crypto limits start events) ∧
      ∃ turn ∈ serverRun crypto limits start events, turn.input.statement = some index ∧
        turn.after.db.stored ≠ turn.before.db.stored := by
  obtain ⟨store, failure, hsublist, haction, ⟨task, hget, hchanges⟩, hfails⟩ := h
  have hstore := hsublist.subset List.mem_cons_self
  have hfailure := hsublist.subset (List.mem_cons_of_mem _ (List.mem_singleton_self failure))
  have hstays : (serverRun crypto limits start events).Pairwise fun turn later =>
      turn.after.At index (fun _ => true) → later.before.At index (fun _ => true) :=
    pairwise_related (R := fun s s' : Server =>
        s.At index (fun _ => true) → s'.At index (fun _ => true))
      (fun _ h => h) (fun h h' h'' => h' (h h'')) fun turn hturn hbefore => by
        rw [after_eq hturn]
        exact at_step (fun _ _ _ _ => rfl) (fun _ _ _ _ => rfl) hbefore
  have hpresent := (List.pairwise_pair.mp (hstays.sublist hsublist)) (by
    rw [after_eq hstore, step_of_advance haction hget]
    exact ⟨_, getElem?_set_of_some hget _, rfl⟩)
  obtain ⟨task', hget', -⟩ := hpresent
  refine ⟨⟨failure, hfailure, statement_eq_some.mpr (.inr hfails), ?_⟩, store, hstore,
    statement_eq_some.mpr (.inl haction), ?_⟩
  · rw [outcome_eq hfailure, step_of_fail hfails hget']
  · rw [after_eq hstore, step_of_advance haction hget]
    exact stored_advance_ne_iff.mpr hchanges

theorem addsItem_eq_true {turn : BridgeTurn} (h : turn.addsItem = true) :
    turn.after.db.inboxItems ≠ turn.before.db.inboxItems := by
  intro hsame
  simp [BridgeTurn.addsItem, hsame] at h

/-- A request stores at most one inbox item. -/
theorem one_item (index : ℕ) :
    ((serverRun crypto limits start events).countP fun turn : BridgeTurn =>
      turn.addsItem && turn.input.statement = some index) ≤ 1 := by
  refine countP_le_one (Server.At index Phase.settled) _ ?_ ?_ ?_
  · intro turn hturn hbefore
    rw [after_eq hturn]
    exact at_step (fun _ _ _ h => (settled_advance h).1) (fun _ _ _ _ => rfl) hbefore
  · intro turn hturn hbefore
    rw [Bool.and_eq_false_imp]
    intro hadds
    rw [decide_eq_false_iff_not]
    intro hstatement
    have hstored := stored_of_settled crypto limits hstatement hbefore
    rw [← after_eq hturn] at hstored
    exact addsItem_eq_true hadds (congrArg (fun stored => stored.2.2.2) hstored)
  · intro turn hturn hadds
    rw [Bool.and_eq_true, decide_eq_true_eq] at hadds
    have hchange := addsItem_eq_true hadds.1
    rw [after_eq hturn] at hchange ⊢
    exact settled_of_change hadds.2 hchange

variable (crypto limits start events) in
/-- A request that answers with an error has stored nothing exactly if no statement of it
failed after one that changed a table, and a client that retries only after such errors
stores at most one inbox item. -/
theorem failed_put_stores_nothing_iff :
    (∀ index, ((∃ err, Answered index (.error err) (serverRun crypto limits start events)) →
      ∀ turn ∈ serverRun crypto limits start events, turn.input.statement = some index →
        turn.after.db.stored = turn.before.db.stored) ↔
      ¬ LateFailure index (serverRun crypto limits start events)) ∧
    ∀ last failed, (∀ index ∈ failed,
      (∃ err, Answered index (.error err) (serverRun crypto limits start events)) ∧
        ¬ LateFailure index (serverRun crypto limits start events)) →
      ((serverRun crypto limits start events).countP fun turn : BridgeTurn =>
        turn.addsItem && turn.input.statement.any fun index => index ∈ last :: failed) ≤ 1 := by
  refine ⟨fun index => ⟨fun hnothing hlate => ?_, ?_⟩, fun last failed hfailed => ?_⟩
  · obtain ⟨hanswered, turn, hturn, hstatement, hchange⟩ := answered_of_lateFailure hlate
    exact hchange (hnothing ⟨_, hanswered⟩ turn hturn hstatement)
  · rintro hearly ⟨err, herror⟩ turn hturn hstatement
    by_contra hchange
    exact hearly (lateFailure_of_change herror hturn hstatement hchange)
  · refine le_trans (List.countP_mono_left fun turn hturn hadds => ?_) (one_item last)
    rw [Bool.and_eq_true, Option.any_eq_true] at hadds
    obtain ⟨hadds, index, hstatement, hindex⟩ := hadds
    rw [decide_eq_true_eq, List.mem_cons] at hindex
    rcases hindex with rfl | hindex
    · rw [hadds, hstatement]
      simp
    · obtain ⟨⟨err, herror⟩, hearly⟩ := hfailed index hindex
      have hchange : turn.after.db.stored ≠ turn.before.db.stored := fun hstored =>
        addsItem_eq_true hadds (congrArg (fun stored => stored.2.2.2) hstored)
      exact absurd (lateFailure_of_change herror hturn hstatement hchange) hearly

end Runs

section Sample

def sampleFailure (index : ℕ) : Event := ⟨requestTime, .fail index⟩

/-- The database after the item of a sample has been stored. -/
def sampleStored (db : Database) : Database :=
  (db.insertInboxKey "00").insertInboxItem "00" [1, 2, 3] 1700086400

/-- An accepted request to an inbox that is known. -/
def knownServer : Server :=
  ⟨{ sampleServer.db with inboxKeys := ["00"] }, [sampleTask (.storing (.item "00" 1700086400))]⟩

/-- The insert of the item fails, but the key was there before: nothing is stored. -/
theorem known_inbox_failure_stores_nothing :
    let run := serverRun sampleBridgeCrypto {} knownServer [⟨requestTime, .advance 0⟩,
      sampleFailure 0]
    Answered 0 (.error .storage) run ∧ ∀ turn ∈ run, turn.input.statement = some 0 →
      turn.after.db.stored = turn.before.db.stored := by
  intro run
  have hanswered : Answered 0 (.error .storage) run :=
    ⟨_, List.mem_cons_of_mem _ List.mem_cons_self, rfl, rfl⟩
  refine ⟨hanswered, ((failed_put_stores_nothing_iff sampleBridgeCrypto {} knownServer _).1 0).mpr
    ?_ ⟨_, hanswered⟩⟩
  rintro ⟨store, failure, hsublist, haction, ⟨task, htask, hchanges⟩, -⟩
  have hstore := hsublist.subset List.mem_cons_self
  simp only [serverRun, transcript, List.mem_cons, List.not_mem_nil, or_false] at hstore
  rcases hstore with rfl | rfl
  · obtain rfl := Option.some.inj htask
    exact hchanges (List.mem_singleton_self _)
  · cases haction

/-- The log of a stored request cannot be written, and the client retries. -/
def retriedEvents : List Event :=
  sampleArrival :: sampleAdvances 0 5 ++ sampleFailure 0 :: sampleArrival :: sampleAdvances 1 5

theorem run_stored {db : Database}
    (hcount : db.countRecent sampleIdentity (windowStart {} requestTime) = some (4, 1048573))
    (hscore : db.score sampleIdentity = 100) :
    (sampleTask .counting).run sampleBridgeCrypto {} requestTime db 5 =
      (sampleStored db, sampleTask (.logging (.ok ()))) := by
  rw [Task.run, Function.iterate_succ_apply, counts_sample hcount]
  exact stored_sample hscore admits_sample pow_sample

theorem countRecent_stored (db : Database) (identity : String) (start : ℤ) :
    (sampleStored db).countRecent identity start = db.countRecent identity start := by
  have hlogs : (sampleStored db).requestLogs = db.requestLogs :=
    insertInboxKey_requestLogs db "00"
  rw [Database.countRecent, Database.recent, hlogs]
  rfl

/-- The first attempt answers with an error, and the item is stored twice. -/
theorem late_failure_stores :
    Answered 0 (.error .storage) (serverRun sampleBridgeCrypto {} sampleServer retriedEvents) ∧
    (final (Server.step sampleBridgeCrypto {}) sampleServer retriedEvents).db.inboxItems.items =
      [⟨1, "00", [1, 2, 3], some 1700086400⟩, ⟨2, "00", [1, 2, 3], some 1700086400⟩] := by
  have hfirst : final (Server.step sampleBridgeCrypto {}) sampleServer
      (sampleArrival :: sampleAdvances 0 5) =
        ⟨sampleStored sampleServer.db, [sampleTask (.logging (.ok ()))]⟩ := by
    rw [final_cons, arrival_first, sampleAdvances, final_advances rfl,
      run_stored count_sample score_sample]
    rfl
  have hfailed : Server.step sampleBridgeCrypto {}
      ⟨sampleStored sampleServer.db, [sampleTask (.logging (.ok ()))]⟩ (sampleFailure 0) =
        (some (.error .storage), ⟨sampleStored sampleServer.db,
          [sampleTask (.finished (.error .storage))]⟩) := rfl
  have hsecond : final (Server.step sampleBridgeCrypto {})
      ⟨sampleStored sampleServer.db, [sampleTask (.finished (.error .storage))]⟩
      (sampleArrival :: sampleAdvances 1 5) =
        ⟨sampleStored (sampleStored sampleServer.db), [sampleTask (.finished (.error .storage)),
          sampleTask (.logging (.ok ()))]⟩ := by
    have hscore : (sampleStored sampleServer.db).score sampleIdentity = 100 := by
      rw [sampleStored, Database.insertInboxKey, if_neg (by simp [sampleServer, loggedServer])]
      exact score_sample
    rw [final_cons, arrival_sample, sampleAdvances, final_advances rfl,
      run_stored ((countRecent_stored ..).trans count_sample) hscore]
    rfl
  constructor
  · rw [retriedEvents, serverRun, transcript_append, hfirst]
    exact ⟨_, List.mem_append_right _ List.mem_cons_self, rfl, rfl⟩
  · rw [retriedEvents, final_append, hfirst, final_cons, hfailed, hsecond]
    rfl

end Sample

end Spex.Bridge
