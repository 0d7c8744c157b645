import Spex.RateLimits

/-!
# The reputation of an identity under interleaving

A request ends with an update of the reputation of its identity: one statement
reads the score and a second one writes the next score. Requests that overlap may
read the same score, and then the later one overwrites the update of the earlier
one. As long as nobody else is between the two statements when a score is written,
every score that has been read is the stored one, and no update is lost.
-/
namespace Spex.Bridge
open Transcript

/-- The rows that the next statement of a request adds to the log. -/
def Task.logged (task : Task) : List LogRow :=
  match task.phase with
  | .logging result => [task.logRow result]
  | _ => []

/-- The update of the reputation that the next statement of a request ends: the
score it has read and its outcome. -/
def Task.update (task : Task) : Option (ℤ × RequestOutcome) :=
  match task.phase with
  | .writingScore result current => some (current, outcomeOf result)
  | _ => none

/-- The request whose next statement runs in an event. -/
def Server.acting (server : Server) (event : Event) : Option Task :=
  match event.action with
  | .advance index => server.tasks[index]?
  | _ => none

theorem acting_mem {server : Server} {event : Event} {task : Task}
    (h : server.acting event = some task) : task ∈ server.tasks := by
  unfold Server.acting at h
  split at h
  · exact List.mem_of_getElem? h
  · cases h

section Effects
variable {crypto : BridgeCrypto} {limits : RateLimitConfig}

@[simp] theorem score_insertInboxKey (db : Database) (inboxKey identity : String) :
    (db.insertInboxKey inboxKey).score identity = db.score identity := by
  unfold Database.insertInboxKey
  split_ifs <;> rfl

theorem score_upsertScore (db : Database) (identity other : String) (score : ℤ) :
    (db.upsertScore identity score).score other =
      if other = identity then score else db.score other := by
  by_cases h : other = identity <;> simp [Database.score, Database.upsertScore, h]

/-- What a statement does to the log depends on its request alone. -/
theorem advance_requestLogs (clock : UInt64) (db : Database) (task : Task) :
    (task.advance crypto limits clock db).1.requestLogs = db.requestLogs ++ task.logged := by
  generalize hnext : task.advance crypto limits clock db = next
  unfold Task.logged
  cases statement_advance hnext with
  | logged result hphase => rw [hphase, Database.insertLog]
  | storedKey _ _ hphase => rw [hphase, insertInboxKey_requestLogs, List.append_nil]
  | storedCard _ hphase | storedSlot _ hphase | storedItem _ _ hphase | wroteScore _ _ hphase =>
    simp [hphase, Database.storeCard, Database.storeSlot, Database.insertInboxItem,
      Database.upsertScore]
  | counted _ _ hphase | uncounted hphase | scored _ _ hphase | passed _ _ hphase
  | refused _ _ hphase | readScore _ hphase | rested _ hphase => simp [hphase]

/-- And so does what it does to a score. -/
theorem advance_score (clock : UInt64) (db : Database) (task : Task) (identity : String) :
    (task.advance crypto limits clock db).1.score identity =
      if identity = task.identity then
        task.update.elim (db.score identity) fun update => nextScore update.1 update.2
      else db.score identity := by
  generalize hnext : task.advance crypto limits clock db = next
  unfold Task.update
  cases statement_advance hnext with
  | wroteScore _ _ hphase => simp [hphase, score_upsertScore]
  | storedKey _ _ hphase => simp [hphase]
  | storedCard _ hphase | storedSlot _ hphase | storedItem _ _ hphase | logged _ hphase =>
    simp [hphase, Database.score, Database.storeCard, Database.storeSlot,
      Database.insertInboxItem, Database.insertLog]
  | counted _ _ hphase | uncounted hphase | scored _ _ hphase | passed _ _ hphase
  | refused _ _ hphase | readScore _ hphase | rested _ hphase => simp [hphase]

theorem step_db (server : Server) (event : Event) :
    (server.step crypto limits event).2.db = (server.acting event).elim server.db fun task =>
      (task.advance crypto limits event.clock server.db).1 := by
  have hstart : ∀ task, (server.start task).2.db = server.db := by
    intro task
    cases task <;> rfl
  unfold Server.step Server.acting
  cases event.action with
  | advance index => cases hget : server.tasks[index]? <;> simp [hget]
  | fail index => cases hget : server.tasks[index]? <;> simp [hget]
  | _ => simp [hstart]

end Effects

/-- The update of the reputation of an identity that an event ends. -/
def Server.update (identity : String) (server : Server) (event : Event) :
    Option (ℤ × RequestOutcome) :=
  ((server.acting event).filter fun task => task.identity = identity).bind Task.update

/-- The outcomes of the updates that a run has ended, in the order of their writes. -/
def updates (identity : String) (run : List (Turn Server Event Answer)) : List RequestOutcome :=
  run.filterMap fun turn => (turn.before.update identity turn.input).map Prod.snd

/-- The stored score is what the updates make of the first score in some order. -/
def NoUpdateLost (crypto : BridgeCrypto) (limits : RateLimitConfig) (identity : String)
    (start : Server) (events : List Event) : Prop :=
  ∃ order : List RequestOutcome,
    order.Perm (updates identity (serverRun crypto limits start events)) ∧
    (final (Server.step crypto limits) start events).db.score identity =
      order.foldl nextScore (start.db.score identity)

/-- When a request of an identity writes its score, no other request of the identity has
read the score and not yet written it. -/
def WritesAlone (identity : String) (server : Server) (event : Event) : Prop :=
  match event.action with
  | .advance index => (server.update identity event).isSome →
    ∀ other ∈ server.tasks.eraseIdx index, other.identity = identity → other.update = none
  | _ => True

instance (identity : String) (server : Server) (event : Event) :
    Decidable (WritesAlone identity server event) := by
  unfold WritesAlone
  split <;> infer_instance

/-- The scores that the requests of an identity have read are the stored one. -/
def Server.Current (identity : String) (server : Server) : Prop :=
  ∀ task ∈ server.tasks, task.identity = identity →
    ∀ update ∈ task.update, update.1 = server.db.score identity

section Updates
variable {crypto : BridgeCrypto} {limits : RateLimitConfig} {identity : String} {server : Server}
  {event : Event}

theorem step_score (identity : String) (server : Server) (event : Event) :
    (server.step crypto limits event).2.db.score identity =
      (server.update identity event).elim (server.db.score identity) fun update =>
        nextScore update.1 update.2 := by
  rw [step_db, Server.update]
  cases hacting : server.acting event with
  | none => rfl
  | some task =>
    by_cases hidentity : task.identity = identity
    · simp [advance_score, hidentity, Option.filter]
    · simp [advance_score, hidentity, Ne.symm hidentity, Option.filter]

theorem step_score_of_current (h : server.Current identity) :
    (server.step crypto limits event).2.db.score identity =
      ((server.update identity event).map Prod.snd).elim (server.db.score identity)
        (nextScore (server.db.score identity)) := by
  rw [step_score]
  cases hupdate : server.update identity event with
  | none => rfl
  | some update =>
    obtain ⟨task, hacting, hmem⟩ := Option.bind_eq_some_iff.mp hupdate
    obtain ⟨hacting, hid⟩ := Option.filter_eq_some_iff.mp hacting
    have hread : update.1 = server.db.score identity :=
      h task (acting_mem hacting) (of_decide_eq_true hid) update hmem
    simp [hread]

variable (crypto limits) in
/-- A statement leaves its request with the stored score, if with any. -/
theorem advance_update (clock : UInt64) (db : Database) (task : Task) :
    (task.advance crypto limits clock db).2.identity = task.identity ∧
      ∀ update ∈ (task.advance crypto limits clock db).2.update,
        task.update = none ∧ update.1 = db.score task.identity := by
  generalize hnext : task.advance crypto limits clock db = next
  cases statement_advance hnext with
  | readScore result hphase =>
    refine ⟨rfl, fun update hupdate => ?_⟩
    obtain rfl := Option.some.inj hupdate
    exact ⟨by rw [Task.update, hphase], rfl⟩
  | rested result hphase => simp [Task.update, hphase]
  | _ => simp [Task.update, Task.at]

theorem update_of_arrival {task : Task} (h : event.arrival crypto = some (.ok task)) :
    task.update = none := by
  obtain ⟨-, hphase | ⟨err, hphase⟩⟩ := arrival_phase h <;> rw [Task.update, hphase]

/-- A request that changes while the others stay, or while none of them has read a score. -/
theorem current_set {index : ℕ} {task : Task} {db : Database}
    (hothers : ∀ other ∈ server.tasks.eraseIdx index, other.identity = identity →
      ∀ update ∈ other.update, update.1 = db.score identity)
    (htask : task.identity = identity → ∀ update ∈ task.update, update.1 = db.score identity) :
    Server.Current identity ⟨db, server.tasks.set index task⟩ := by
  intro other hother
  obtain ⟨position, hposition⟩ := List.mem_iff_getElem?.mp hother
  rw [List.getElem?_set] at hposition
  split_ifs at hposition with hindex hlt
  · obtain rfl := Option.some.inj hposition
    exact htask
  · exact hothers other (List.mem_eraseIdx_iff_getElem?.mpr
      ⟨position, Ne.symm hindex, hposition⟩)

theorem current_step (h : server.Current identity) (halone : WritesAlone identity server event) :
    (server.step crypto limits event).2.Current identity := by
  have hscore : (server.step crypto limits event).2.db.score identity = _ :=
    step_score identity server event
  generalize hnext : server.step crypto limits event = next at hscore ⊢
  have hothers : ∀ index, ∀ other ∈ server.tasks.eraseIdx index, other.identity = identity →
      ∀ update ∈ other.update, update.1 = server.db.score identity :=
    fun index other hother => h other (List.mem_of_mem_eraseIdx hother)
  cases step_case hnext with
  | refused err harrival => exact h
  | arrived task harrival =>
    intro other hother
    rcases List.mem_append.mp hother with hold | hnew
    · exact h other hold
    · simp [List.mem_singleton.mp hnew, update_of_arrival harrival]
  | advanced index task haction hget =>
    obtain ⟨hidentity, hread⟩ := advance_update crypto limits event.clock server.db task
    cases hupdate : server.update identity event with
    | none =>
      rw [hupdate] at hscore
      refine current_set (fun other hother hid update hmem => ?_) fun hid update hmem => ?_
      · exact (hothers index other hother hid update hmem).trans hscore.symm
      · rw [(hread update hmem).2, ← hidentity, hid]
        exact hscore.symm
    | some written =>
      rw [WritesAlone, haction] at halone
      refine current_set (fun other hother hid update hmem => ?_) fun hid update hmem => ?_
      · rw [halone (by rw [hupdate]; rfl) other hother hid] at hmem
        cases hmem
      · have hnone : task.update = none := (hread update hmem).1
        simp [Server.update, Server.acting, haction, hget, Option.filter, ← hidentity, hid,
          hnone] at hupdate
  | failed index task haction hget =>
    exact current_set (hothers index) (by simp [Task.update, Task.at])
  | idle index haction hget => exact h

/-- If updates of an identity are written one at a time, they take effect in the order
of their writes. -/
theorem no_update_lost {start : Server} {events : List Event}
    (hidle : ∀ task ∈ start.tasks, task.identity = identity → task.update = none)
    (halone : ∀ turn ∈ serverRun crypto limits start events,
      WritesAlone identity turn.before turn.input) :
    NoUpdateLost crypto limits identity start events := by
  have hstart : start.Current identity := by
    intro task htask hid update hmem
    rw [hidle task htask hid] at hmem
    cases hmem
  have hcurrent := (invariant _ hstart fun turn hturn hbefore => by
    rw [after_eq hturn]
    exact current_step hbefore (halone turn hturn)).1
  refine ⟨_, .refl _, ?_⟩
  refine value_final (fun server : Server => server.db.score identity)
    (fun server event => (server.update identity event).map Prod.snd) nextScore ?_
  intro turn hturn
  rw [after_eq hturn]
  exact step_score_of_current (hcurrent turn hturn)

end Updates

section Sample

/-- A request that is about to update the reputation of its identity. -/
def ratingTask (result : Except BridgeError Unit) : Task :=
  ⟨.card "", sampleGrant, samplePuzzle, "unknown", [], "aa", requestTime, .readingScore result⟩

def ratingServer (results : List (Except BridgeError Unit)) : Server :=
  ⟨⟨fun _ => none, fun _ => none, [], .empty, [], fun _ => none⟩, results.map ratingTask⟩

def ratingEvents (indices : List ℕ) : List Event :=
  indices.map fun index => ⟨requestTime, .advance index⟩

/-- Two requests that update one after the other. -/
theorem no_update_lost_in_turn :
    updates "aa" (serverRun sampleBridgeCrypto {} (ratingServer [.ok (), .error .rateLimited])
      (ratingEvents [0, 0, 1, 1])) = [.accepted, .rejected] ∧
    NoUpdateLost sampleBridgeCrypto {} "aa" (ratingServer [.ok (), .error .rateLimited])
      (ratingEvents [0, 0, 1, 1]) := by
  exact ⟨by decide, no_update_lost (by decide) (by decide)⟩

/-- Two requests that both read the score before either writes it: one of two
accepted requests does not count. -/
theorem overlapping_update_lost :
    updates "aa" (serverRun sampleBridgeCrypto {} (ratingServer [.ok (), .ok ()])
      (ratingEvents [0, 1, 0, 1])) = [.accepted, .accepted] ∧
    (final (Server.step sampleBridgeCrypto {}) (ratingServer [.ok (), .ok ()])
      (ratingEvents [0, 1, 0, 1])).db.score "aa" = 1 ∧
    ¬ NoUpdateLost sampleBridgeCrypto {} "aa" (ratingServer [.ok (), .ok ()])
      (ratingEvents [0, 1, 0, 1]) := by
  have hupdates : updates "aa" (serverRun sampleBridgeCrypto {} (ratingServer [.ok (), .ok ()])
      (ratingEvents [0, 1, 0, 1])) = List.replicate 2 .accepted := by decide
  have hscore : (final (Server.step sampleBridgeCrypto {}) (ratingServer [.ok (), .ok ()])
      (ratingEvents [0, 1, 0, 1])).db.score "aa" = 1 := by decide
  refine ⟨hupdates, hscore, ?_⟩
  rintro ⟨order, horder, hlast⟩
  rw [hupdates, List.perm_replicate] at horder
  rw [hscore, horder] at hlast
  revert hlast
  decide

end Sample

end Spex.Bridge
