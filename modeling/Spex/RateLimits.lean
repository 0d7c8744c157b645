import Spex.Bridge
import Spex.Quota
import Spex.Transcript

/-!
# The rate limit under interleaving

Requests run statement by statement in any order. Each counts the rows of the
log before it writes its own, so requests that overlap do not see each other and
together may exceed the limit. The limit is kept if every request that its count
admits would still be admitted with the requests that hold a place but are not
yet in the log.
-/
namespace Spex.Bridge
open Quota Transcript Fallible

/-- A request arrives, or a statement of one runs or fails. -/
inductive Action where
  | putCard (cardHash ip : String) (payload : StorageRequest)
  | putSlot (slotId ip : String) (payload : StorageRequest)
  | putInbox (inboxKey ip : String) (payload : InboxStoreRequest)
  | advance (index : ℕ)
  | fail (index : ℕ)

/-- An action at a time of the clock. -/
structure Event where
  clock : UInt64
  action : Action

/-- The tables and the requests in progress. -/
structure Server where
  db : Database
  tasks : List Task

abbrev Answer := Option (Except BridgeError Unit)

def Task.answer (task : Task) : Answer :=
  match task.phase with
  | .finished result => some result
  | _ => none

def Server.start (server : Server) : Except BridgeError Task → Answer × Server
  | .ok task => (none, { server with tasks := server.tasks ++ [task] })
  | .error err => (some (.error err), server)

abbrev BridgeTurn := Turn Server Event Answer

section Machine
variable (crypto : BridgeCrypto) (limits : RateLimitConfig) {event : Event} {server : Server}
  {task : Except BridgeError Task} {P : Database → Prop}

/-- A request arrives, a request runs its next statement, or a statement of a
request fails. -/
def Server.step (server : Server) (event : Event) : Answer × Server :=
  match event.action with
  | .putCard cardHash ip payload => server.start (Bridge.putCard cardHash ip event.clock payload)
  | .putSlot slotId ip payload => server.start (Bridge.putSlot crypto slotId ip event.clock payload)
  | .putInbox inboxKey ip payload =>
    server.start (Bridge.putInbox inboxKey ip event.clock payload)
  | .advance index =>
    match server.tasks[index]? with
    | some task =>
      let next := task.advance crypto limits event.clock server.db
      (next.2.answer, ⟨next.1, server.tasks.set index next.2⟩)
    | none => (none, server)
  | .fail index =>
    match server.tasks[index]? with
    | some task =>
      (some (.error .storage),
        { server with tasks := server.tasks.set index (task.at (.finished (.error .storage))) })
    | none => (none, server)

/-- The turns of the events from a server on. -/
def serverRun (server : Server) (events : List Event) : List (Turn Server Event Answer) :=
  transcript (Server.step crypto limits) server events

/-- The request that an event brings, unless it is refused at once. -/
def Event.arrival (event : Event) : Option (Except BridgeError Task) :=
  match event.action with
  | .putCard cardHash ip payload => some (Bridge.putCard cardHash ip event.clock payload)
  | .putSlot slotId ip payload => some (Bridge.putSlot crypto slotId ip event.clock payload)
  | .putInbox inboxKey ip payload => some (Bridge.putInbox inboxKey ip event.clock payload)
  | .advance _ | .fail _ => none

/-- The ways in which an event brings a request. -/
inductive ArrivalCase (event : Event) (task : Except BridgeError Task) : Prop
  | putCard (cardHash ip : String) (payload : StorageRequest)
    (haction : event.action = .putCard cardHash ip payload)
    (htask : Bridge.putCard cardHash ip event.clock payload = task)
  | putSlot (slotId ip : String) (payload : StorageRequest)
    (haction : event.action = .putSlot slotId ip payload)
    (htask : Bridge.putSlot crypto slotId ip event.clock payload = task)
  | putInbox (inboxKey ip : String) (payload : InboxStoreRequest)
    (haction : event.action = .putInbox inboxKey ip payload)
    (htask : Bridge.putInbox inboxKey ip event.clock payload = task)

variable {crypto} in
theorem arrival_case (h : event.arrival crypto = some task) : ArrivalCase crypto event task := by
  unfold Event.arrival at h
  cases haction : event.action with
  | putCard cardHash ip payload =>
    rw [haction] at h
    exact .putCard cardHash ip payload haction (Option.some.inj h)
  | putSlot slotId ip payload =>
    rw [haction] at h
    exact .putSlot slotId ip payload haction (Option.some.inj h)
  | putInbox inboxKey ip payload =>
    rw [haction] at h
    exact .putInbox inboxKey ip payload haction (Option.some.inj h)
  | advance index => simp [haction] at h
  | fail index => simp [haction] at h

variable {crypto limits} in
theorem step_of_arrival (h : event.arrival crypto = some task) :
    server.step crypto limits event = server.start task := by
  cases arrival_case h with
  | putCard _ _ _ haction htask => simp only [Server.step, haction, htask]
  | putSlot _ _ _ haction htask => simp only [Server.step, haction, htask]
  | putInbox _ _ _ haction htask => simp only [Server.step, haction, htask]

variable {crypto limits} in
theorem step_of_advance {index : ℕ} {task : Task} (haction : event.action = .advance index)
    (hget : server.tasks[index]? = some task) :
    server.step crypto limits event =
      ((task.advance crypto limits event.clock server.db).2.answer,
        ⟨(task.advance crypto limits event.clock server.db).1,
          server.tasks.set index (task.advance crypto limits event.clock server.db).2⟩) := by
  simp only [Server.step, haction, hget]

variable {crypto limits} in
theorem step_of_fail {index : ℕ} {task : Task} (haction : event.action = .fail index)
    (hget : server.tasks[index]? = some task) :
    server.step crypto limits event = (some (.error .storage),
      { server with tasks := server.tasks.set index (task.at (.finished (.error .storage))) }) := by
  simp only [Server.step, haction, hget]

/-- Everything that an event can do. -/
inductive StepCase (server : Server) (event : Event) : Answer × Server → Prop
  | refused (err : BridgeError) (harrival : event.arrival crypto = some (.error err)) :
    StepCase server event (some (.error err), server)
  | arrived (task : Task) (harrival : event.arrival crypto = some (.ok task)) :
    StepCase server event (none, { server with tasks := server.tasks ++ [task] })
  | advanced (index : ℕ) (task : Task) (haction : event.action = .advance index)
    (hget : server.tasks[index]? = some task) :
    StepCase server event ((task.advance crypto limits event.clock server.db).2.answer,
      ⟨(task.advance crypto limits event.clock server.db).1,
        server.tasks.set index (task.advance crypto limits event.clock server.db).2⟩)
  | failed (index : ℕ) (task : Task) (haction : event.action = .fail index)
    (hget : server.tasks[index]? = some task) :
    StepCase server event (some (.error .storage),
      { server with tasks := server.tasks.set index (task.at (.finished (.error .storage))) })
  | idle (index : ℕ) (haction : event.action = .advance index ∨ event.action = .fail index)
    (hget : server.tasks[index]? = none) : StepCase server event (none, server)

variable {crypto limits} in
theorem step_case {next : Answer × Server} (h : server.step crypto limits event = next) :
    StepCase crypto limits server event next := by
  have hstart : ∀ task, event.arrival crypto = some task →
      StepCase crypto limits server event (server.start task) := by
    intro task harrival
    cases task with
    | error err => exact .refused err harrival
    | ok task => exact .arrived task harrival
  rw [← h, Server.step]
  cases haction : event.action with
  | putCard cardHash ip payload => exact hstart _ (by rw [Event.arrival, haction])
  | putSlot slotId ip payload => exact hstart _ (by rw [Event.arrival, haction])
  | putInbox inboxKey ip payload => exact hstart _ (by rw [Event.arrival, haction])
  | advance index =>
    dsimp only
    cases hget : server.tasks[index]? with
    | none => exact .idle index (.inl haction) hget
    | some task => exact .advanced index task haction hget
  | fail index =>
    dsimp only
    cases hget : server.tasks[index]? with
    | none => exact .idle index (.inr haction) hget
    | some task => exact .failed index task haction hget

/-- What no statement takes from the database, no event does. -/
theorem db_step (h : P server.db)
    (hadvance : ∀ clock db task, P db → P (Task.advance crypto limits clock db task).1)
    (event : Event) : P (server.step crypto limits event).2.db := by
  generalize hnext : server.step crypto limits event = next
  cases step_case hnext with
  | advanced index task haction hget => exact hadvance event.clock server.db task h
  | _ => exact h

theorem db_final (h : P server.db)
    (hadvance : ∀ clock db task, P db → P (Task.advance crypto limits clock db task).1)
    (events : List Event) : P (final (Server.step crypto limits) server events).db := by
  refine (invariant (fun later : Server => P later.db) h fun turn hturn hbefore => ?_).2
  rw [after_eq hturn]
  exact db_step crypto limits hbefore hadvance turn.input

end Machine

variable {crypto : BridgeCrypto} {limits : RateLimitConfig}

def LogRow.charge (row : LogRow) : Charge String := ⟨row.identity, row.timestamp, row.bytes⟩

def Task.charge (task : Task) : Charge String :=
  ⟨task.identity, asI64 task.now, task.data.length⟩

/-- What has been accepted, by the log. -/
def accepted (rows : List LogRow) : List (Charge String) :=
  (rows.filter fun row => row.outcome = .accepted).map LogRow.charge

def RateLimitConfig.quota (limits : RateLimitConfig) : Limits :=
  ⟨limits.windowSeconds.toNat, limits.maxRequests.toNat, limits.maxBytes.toNat⟩

/-- In every window each identity keeps to the limits. -/
def RateLimited (limits : RateLimitConfig) (rows : List LogRow) : Prop :=
  Within limits.quota (accepted rows)

/-- The counts leave room for a request. -/
def Admits (limits : RateLimitConfig) (recentRequests recentBytes incomingBytes : ℕ) : Prop :=
  recentRequests + 1 ≤ limits.maxRequests.toNat ∧
    recentBytes + incomingBytes ≤ limits.maxBytes.toNat

instance {recentRequests recentBytes incomingBytes : ℕ} :
    Decidable (Admits limits recentRequests recentBytes incomingBytes) :=
  inferInstanceAs (Decidable (_ ∧ _))

theorem enforceRateLimits_eq_ok {snapshot : RateLimitSnapshot} {incomingBytes : ℕ} :
    enforceRateLimits snapshot limits incomingBytes = .ok () ↔
      Admits limits snapshot.recentRequests snapshot.recentBytes incomingBytes := by
  unfold enforceRateLimits Admits
  split_ifs with hrequests hbytes
  · simp only [false_iff, not_and]
    omega
  · simp only [false_iff, not_and]
    omega
  · simp only [true_iff]
    omega

/-- A request holds a place if its count admits it and its row is not in the log. -/
def Task.holdsPlace (limits : RateLimitConfig) (task : Task) : Bool :=
  match task.phase with
  | .scoring recentRequests recentBytes =>
    Admits limits recentRequests recentBytes task.data.length
  | .validating snapshot =>
    Admits limits snapshot.recentRequests snapshot.recentBytes task.data.length
  | .storing _ | .storingItem _ _ | .logging (.ok ()) => true
  | _ => false

/-- The places that admitted requests hold. -/
def held (limits : RateLimitConfig) (tasks : List Task) : List (Charge String) :=
  (tasks.filter (Task.holdsPlace limits)).map Task.charge

/-- The request that counts in an event. -/
def Server.counting (server : Server) (event : Event) : Option Task :=
  match event.action with
  | .advance index => server.tasks[index]?.filter fun task => task.phase = .counting
  | _ => none

/-- If a request counts and its count admits it, then so does the count together
with the held places of its identity. -/
def Reserved (limits : RateLimitConfig) (server : Server) (event : Event) : Prop :=
  ∀ task ∈ server.counting event, task.now.toNat < 2 ^ 63 ∧
    ∀ counts ∈ server.db.countRecent task.identity (windowStart limits task.now),
      Admits limits counts.1 counts.2 task.data.length →
        let places := since task.identity (windowStart limits task.now) (held limits server.tasks)
        Admits limits (counts.1 + places.length) (counts.2 + size places) task.data.length

instance (server : Server) (event : Event) : Decidable (Reserved limits server event) :=
  inferInstanceAs (Decidable (∀ task ∈ server.counting event, _ ∧ _))

section Advance
variable {db : Database} {task : Task}

/-- What the next statement of a request does to the log and to its place. -/
inductive AdvanceCase (limits : RateLimitConfig) (db : Database) (task : Task) :
    Database × Task → Prop
  | counted (recentRequests recentBytes : ℕ) (hphase : task.phase = .counting)
    (hcount : db.countRecent task.identity (windowStart limits task.now) =
      some (recentRequests, recentBytes)) :
    AdvanceCase limits db task (db, task.at (.scoring recentRequests recentBytes))
  | logged (result : Except BridgeError Unit) (hphase : task.phase = .logging result) :
    AdvanceCase limits db task (db.insertLog (task.logRow result), task.at (.readingScore result))
  | quiet (db' : Database) (phase : Phase) (hlogs : db'.requestLogs = db.requestLogs)
    (hplace : (task.at phase).holdsPlace limits → task.holdsPlace limits) :
    AdvanceCase limits db task (db', task.at phase)

theorem countRecent_eq_some {identity : String} {start : ℤ} {recentRequests recentBytes : ℕ}
    (h : db.countRecent identity start = some (recentRequests, recentBytes)) :
    (db.recent identity start).length = recentRequests ∧
      ((db.recent identity start).map LogRow.bytes).sum = recentBytes := by
  unfold Database.countRecent at h
  dsimp only at h
  split_ifs at h
  exact Prod.mk.inj (Option.some.inj h)

theorem insertInboxKey_requestLogs (db : Database) (inboxKey : String) :
    (db.insertInboxKey inboxKey).requestLogs = db.requestLogs := by
  unfold Database.insertInboxKey
  split_ifs <;> rfl

theorem insertInboxKey_inboxItems (db : Database) (inboxKey : String) :
    (db.insertInboxKey inboxKey).inboxItems = db.inboxItems := by
  unfold Database.insertInboxKey
  split_ifs <;> rfl

theorem validateGrantAndPuzzle_eq_ok {now : UInt64} {grant : GrantTokenPayload}
    {puzzle : PuzzlePayload} {minimumPow : PowParams} {checksGrant : Bool} :
    validateGrantAndPuzzle crypto now grant puzzle minimumPow checksGrant = .ok () ↔
      (checksGrant → validateGrant crypto now grant = .ok ()) ∧
        validatePuzzle crypto puzzle minimumPow = .ok () := by
  cases checksGrant with
  | true => simp [validateGrantAndPuzzle, check_bind_eq_ok]
  | false => simp [validateGrantAndPuzzle]

section Checks
variable {clock : UInt64} {snapshot : RateLimitSnapshot} {write : Write}

theorem checks_card {cardHash : String} (htarget : task.target = .card cardHash) :
    task.checks crypto limits clock snapshot = .ok write ↔
      Admits limits snapshot.recentRequests snapshot.recentBytes task.data.length ∧
      validateGrant crypto clock task.grant = .ok () ∧
      validatePuzzle crypto task.puzzle (requiredPowParams snapshot limits) = .ok () ∧
      Hex.encode (hashBytes crypto.sha256 .sha256 task.data) = cardHash ∧
      write = .card cardHash := by
  simp only [Task.checks, htarget, check_bind_eq_ok, enforceRateLimits_eq_ok,
    validateGrantAndPuzzle_eq_ok, validateHash, require_eq_ok, true_imp_iff, and_assoc]
  rw [pure_eq_ok, eq_comm (a := write)]

theorem checks_slot {slotId : String} (htarget : task.target = .slot slotId) :
    task.checks crypto limits clock snapshot = .ok write ↔
      Admits limits snapshot.recentRequests snapshot.recentBytes task.data.length ∧
      validatePuzzle crypto task.puzzle (requiredPowParams snapshot limits) = .ok () ∧
      Hex.encode (hashBytes crypto.sha256 .sha256 task.data) = slotId ∧
      write = .slot slotId := by
  simp only [Task.checks, htarget, check_bind_eq_ok, enforceRateLimits_eq_ok,
    validateGrantAndPuzzle_eq_ok, validateHash, require_eq_ok, Bool.false_eq_true, false_imp_iff,
    true_and]
  rw [pure_eq_ok, eq_comm (a := write)]

theorem checks_inbox {inboxKey : String} {ttlSeconds : Option UInt64}
    (htarget : task.target = .inbox inboxKey ttlSeconds) :
    task.checks crypto limits clock snapshot = .ok write ↔
      task.data.length ≤ maxInboxItemBytes ∧
      Admits limits snapshot.recentRequests snapshot.recentBytes task.data.length ∧
      validateGrant crypto clock task.grant = .ok () ∧
      validatePuzzle crypto task.puzzle (requiredPowParams snapshot limits) = .ok () ∧
      ∃ expiresAt, computeInboxExpiration task.now ttlSeconds = .ok expiresAt ∧
        write = .item inboxKey expiresAt := by
  simp only [Task.checks, htarget, check_bind_eq_ok, enforceRateLimits_eq_ok,
    validateInboxItemSize, validateGrantAndPuzzle_eq_ok, require_eq_ok, true_imp_iff, and_assoc]
  simp only [bind_eq_ok, pure_eq_ok, eq_comm (a := write)]

end Checks

theorem admits_of_checks {clock : UInt64} {snapshot : RateLimitSnapshot} {write : Write}
    (h : task.checks crypto limits clock snapshot = .ok write) :
    Admits limits snapshot.recentRequests snapshot.recentBytes task.data.length := by
  cases htarget : task.target with
  | card cardHash => exact ((checks_card htarget).mp h).1
  | slot slotId => exact ((checks_slot htarget).mp h).1
  | inbox inboxKey ttlSeconds => exact ((checks_inbox htarget).mp h).2.1

theorem advance_case {clock : UInt64} {next : Database × Task}
    (h : task.advance crypto limits clock db = next) : AdvanceCase limits db task next := by
  cases statement_advance h with
  | counted _ _ hphase hcount => exact .counted _ _ hphase hcount
  | scored _ _ hphase =>
    refine .quiet _ _ rfl fun h => ?_
    rw [Task.holdsPlace, hphase]
    exact h
  | passed snapshot write hphase hchecks =>
    have hadmits := admits_of_checks hchecks
    exact .quiet _ _ rfl fun _ => by simpa [Task.holdsPlace, hphase] using hadmits
  | storedCard _ hphase => exact .quiet _ _ rfl fun _ => by simp [Task.holdsPlace, hphase]
  | storedSlot _ hphase => exact .quiet _ _ rfl fun _ => by simp [Task.holdsPlace, hphase]
  | storedKey _ _ hphase =>
    exact .quiet _ _ (insertInboxKey_requestLogs ..) fun _ => by simp [Task.holdsPlace, hphase]
  | storedItem _ _ hphase => exact .quiet _ _ rfl fun _ => by simp [Task.holdsPlace, hphase]
  | logged result hphase => exact .logged _ hphase
  | uncounted | refused | readScore | wroteScore =>
    exact .quiet _ _ rfl (by simp [Task.holdsPlace, Task.at])
  | rested => exact .quiet db task.phase rfl fun h => h

variable (crypto limits db task) in
theorem same_request (clock : UInt64) :
    ∃ phase, (task.advance crypto limits clock db).2 = task.at phase := by
  generalize hnext : task.advance crypto limits clock db = next
  cases advance_case hnext with
  | counted => exact ⟨_, rfl⟩
  | logged => exact ⟨_, rfl⟩
  | quiet => exact ⟨_, rfl⟩

end Advance

section Places
variable {tasks tasks' : List Task} {task replaced : Task} {index : ℕ} {rows rows' : List LogRow}

theorem held_cons (task : Task) (tasks : List Task) :
    held limits (task :: tasks) = held limits [task] ++ held limits tasks := by
  rw [held, held, held, ← List.map_append, ← List.filter_append]
  rfl

theorem held_of_holdsPlace (h : task.holdsPlace limits = true) :
    held limits [task] = [task.charge] := by
  simp [held, h]

theorem held_of_not_holdsPlace (h : task.holdsPlace limits = false) : held limits [task] = [] := by
  simp [held, h]

theorem held_perm (h : tasks.Perm tasks') : (held limits tasks).Perm (held limits tasks') :=
  (h.filter _).map _

variable (limits) in
theorem held_get (hget : tasks[index]? = some task) :
    (held limits [task] ++ held limits (tasks.eraseIdx index)).Perm (held limits tasks) := by
  obtain ⟨hlt, rfl⟩ := List.getElem?_eq_some_iff.mp hget
  rw [← held_cons]
  exact held_perm (List.getElem_cons_eraseIdx_perm hlt)

variable (limits) in
theorem held_set (hget : tasks[index]? = some task) (replaced : Task) :
    (held limits (tasks.set index replaced)).Perm
      (held limits [replaced] ++ held limits (tasks.eraseIdx index)) := by
  obtain ⟨hlt, -⟩ := List.getElem?_eq_some_iff.mp hget
  rw [← held_cons]
  exact held_perm (List.set_perm_cons_eraseIdx hlt replaced)

/-- A request may move its charge from its place to the log, or give it up. -/
theorem within_set (hget : tasks[index]? = some task)
    (hsub : (accepted rows' ++ held limits [replaced]).Subperm
      (accepted rows ++ held limits [task]))
    (h : Within limits.quota (accepted rows ++ held limits tasks)) :
    Within limits.quota (accepted rows' ++ held limits (tasks.set index replaced)) := by
  have hset : (accepted rows' ++ held limits (tasks.set index replaced)).Perm
      (accepted rows' ++ held limits [replaced] ++ held limits (tasks.eraseIdx index)) := by
    rw [List.append_assoc]
    exact (held_set limits hget replaced).append_left _
  have hget : (accepted rows ++ held limits [task] ++ held limits (tasks.eraseIdx index)).Perm
      (accepted rows ++ held limits tasks) := by
    rw [List.append_assoc]
    exact (held_get limits hget).append_left _
  have hothers := (List.subperm_append_right (held limits (tasks.eraseIdx index))).mpr hsub
  exact h.of_subperm (hset.subperm.trans (hothers.trans hget.subperm))

theorem accepted_append (rows rows' : List LogRow) :
    accepted (rows ++ rows') = accepted rows ++ accepted rows' := by
  simp [accepted]

theorem accepted_logRow_ok (task : Task) : accepted [task.logRow (.ok ())] = [task.charge] := rfl

theorem accepted_logRow_error (task : Task) (err : BridgeError) :
    accepted [task.logRow (.error err)] = [] := rfl

/-- The accepted rows of an identity since a time are among the counted ones. -/
theorem since_accepted_le (db : Database) (identity : String) (start : ℤ) :
    (since identity start (accepted db.requestLogs)).length ≤ (db.recent identity start).length ∧
      size (since identity start (accepted db.requestLogs)) ≤
        ((db.recent identity start).map LogRow.bytes).sum := by
  have hsub : (since identity start (accepted db.requestLogs)).Sublist
      ((db.recent identity start).map LogRow.charge) := by
    rw [since, accepted, List.filter_map, Database.recent]
    refine List.Sublist.map _ ?_
    rw [List.filter_filter]
    refine List.monotone_filter_right _ fun row hrow => ?_
    simp only [Function.comp_apply, Bool.and_eq_true, decide_eq_true_eq] at hrow ⊢
    exact hrow.1
  refine ⟨by simpa using hsub.length_le, ?_⟩
  have hsize := size_le_of_subperm hsub.subperm
  rw [size, size, List.map_map] at hsize
  exact hsize

end Places

section Clock

theorem asI64_of_lt {n : UInt64} (h : n.toNat < 2 ^ 63) : asI64 n = n.toNat := by
  rw [asI64, ← Int64.toInt_toBitVec, UInt64.toBitVec_toInt64]
  exact BitVec.toInt_eq_toNat_of_lt (by rw [UInt64.toNat_toBitVec]; omega)

/-- Every window that holds a time starts after the first time that is counted. -/
theorem windowStart_le {now : UInt64} (hnow : now.toNat < 2 ^ 63) {t : ℕ}
    (h : asI64 now ≤ t + limits.quota.span) : windowStart limits now ≤ t := by
  have hsub := Saturating.toNat_sub now limits.windowSeconds
  rw [asI64_of_lt hnow] at h
  rw [windowStart, asI64_of_lt (by omega), hsub]
  simp only [RateLimitConfig.quota] at h
  omega

end Clock

section Steps
variable {server : Server} {event : Event} {index : ℕ} {task new : Task} {payload : StorageRequest}

/-- The log and the places together keep to the limits. -/
def Server.Kept (limits : RateLimitConfig) (server : Server) : Prop :=
  Within limits.quota (accepted server.db.requestLogs ++ held limits server.tasks)

theorem kept_counted {recentRequests recentBytes : ℕ} (hkept : server.Kept limits)
    (hget : server.tasks[index]? = some task) (hphase : task.phase = .counting)
    (hnow : task.now.toNat < 2 ^ 63)
    (hcount : server.db.countRecent task.identity (windowStart limits task.now) =
      some (recentRequests, recentBytes))
    (hreserved : Admits limits recentRequests recentBytes task.data.length →
      let places := since task.identity (windowStart limits task.now) (held limits server.tasks)
      Admits limits (recentRequests + places.length) (recentBytes + size places)
        task.data.length) :
    Server.Kept limits ⟨server.db,
      server.tasks.set index (task.at (.scoring recentRequests recentBytes))⟩ := by
  have hidle : task.holdsPlace limits = false := by simp [Task.holdsPlace, hphase]
  by_cases hadmits : Admits limits recentRequests recentBytes task.data.length
  · have hplace : (task.at (.scoring recentRequests recentBytes)).holdsPlace limits = true :=
      decide_eq_true hadmits
    have hroom : Room limits.quota (since task.charge.key (windowStart limits task.now)
        (accepted server.db.requestLogs ++ held limits server.tasks)) task.charge.size := by
      obtain ⟨hrequests, hbytes⟩ := hreserved hadmits
      obtain ⟨hlength, hsize⟩ := since_accepted_le server.db task.identity
        (windowStart limits task.now)
      obtain ⟨rfl, rfl⟩ := countRecent_eq_some hcount
      rw [since_append]
      constructor
      · rw [List.length_append]
        exact (Nat.add_le_add_right (Nat.add_le_add_right hlength _) 1).trans hrequests
      · rw [size_append]
        exact (Nat.add_le_add_right (Nat.add_le_add_right hsize _) _).trans hbytes
    have hcons := hkept.cons (fun t ht => windowStart_le hnow ht) hroom
    refine hcons.of_subperm (List.Perm.subperm ?_)
    have hset := held_set limits hget (task.at (.scoring recentRequests recentBytes))
    have hothers := held_get limits hget
    rw [held_of_holdsPlace hplace] at hset
    rw [held_of_not_holdsPlace hidle] at hothers
    exact ((hset.trans (hothers.cons _)).append_left _).trans List.perm_middle
  · have hplace : (task.at (.scoring recentRequests recentBytes)).holdsPlace limits = false :=
      decide_eq_false hadmits
    refine within_set hget ?_ hkept
    rw [held_of_not_holdsPlace hplace, held_of_not_holdsPlace hidle]

theorem kept_logged {result : Except BridgeError Unit} (hkept : server.Kept limits)
    (hget : server.tasks[index]? = some task) (hphase : task.phase = .logging result) :
    Server.Kept limits ⟨server.db.insertLog (task.logRow result),
      server.tasks.set index (task.at (.readingScore result))⟩ := by
  have hplace : (task.at (.readingScore result)).holdsPlace limits = false := rfl
  refine within_set hget ?_ hkept
  rw [held_of_not_holdsPlace hplace, List.append_nil, Database.insertLog, accepted_append]
  cases result with
  | ok _ =>
    rw [accepted_logRow_ok, held_of_holdsPlace (by simp [Task.holdsPlace, hphase])]
  | error err =>
    rw [accepted_logRow_error, held_of_not_holdsPlace (by simp [Task.holdsPlace, hphase])]

theorem kept_quiet {db : Database} {phase : Phase} (hkept : server.Kept limits)
    (hget : server.tasks[index]? = some task) (hlogs : db.requestLogs = server.db.requestLogs)
    (hplace : (task.at phase).holdsPlace limits → task.holdsPlace limits) :
    Server.Kept limits ⟨db, server.tasks.set index (task.at phase)⟩ := by
  refine within_set hget ?_ hkept
  rw [hlogs, List.subperm_append_left]
  cases hnext : (task.at phase).holdsPlace limits with
  | true => rw [held_of_holdsPlace hnext, held_of_holdsPlace (hplace hnext)]
            exact List.Subperm.refl _
  | false => rw [held_of_not_holdsPlace hnext]
             exact List.nil_subperm

theorem kept_arrived (hkept : server.Kept limits) (hnew : new.holdsPlace limits = false) :
    Server.Kept limits { server with tasks := server.tasks ++ [new] } := by
  have hheld : held limits (server.tasks ++ [new]) = held limits server.tasks := by
    simp [held, hnew]
  rw [Server.Kept, hheld]
  exact hkept

theorem startPut_ok {target : Target} {ip : String} {now : UInt64}
    (h : startPut target ip now payload = .ok new) :
    new.target = target ∧ new.grant = payload.grant ∧ new.now = now ∧ new.phase = .counting := by
  obtain ⟨data, -, h⟩ := bind_eq_ok.mp h
  obtain ⟨identity, -, h⟩ := bind_eq_ok.mp h
  rw [← Except.ok.inj h]
  exact ⟨rfl, rfl, rfl, rfl⟩

theorem putSlot_ok {slotId ip : String} {now : UInt64}
    (h : putSlot crypto slotId ip now payload = .ok new) :
    new.target = .slot slotId ∧ new.grant = payload.grant ∧ new.now = now ∧
      (validateGrant crypto now payload.grant = .ok () ∧ new.phase = .counting ∨
        ∃ err, new.phase = .logging (.error err)) := by
  obtain ⟨data, -, h⟩ := bind_eq_ok.mp h
  rw [← Except.ok.inj h]
  refine ⟨rfl, rfl, rfl, ?_⟩
  cases hgrant : validateGrant crypto now payload.grant with
  | ok _ => exact .inl ⟨rfl, rfl⟩
  | error err => exact .inr ⟨err, rfl⟩

/-- A request starts with its count, or with the log if its grant is refused. -/
theorem arrival_phase (h : event.arrival crypto = some (.ok new)) :
    new.now = event.clock ∧ (new.phase = .counting ∨ ∃ err, new.phase = .logging (.error err)) := by
  cases arrival_case h with
  | putCard cardHash ip payload _ htask =>
    obtain ⟨-, -, hnow, hphase⟩ := startPut_ok htask
    exact ⟨hnow, .inl hphase⟩
  | putSlot slotId ip payload _ htask =>
    obtain ⟨-, -, hnow, hphase⟩ := putSlot_ok htask
    exact ⟨hnow, hphase.imp_left And.right⟩
  | putInbox inboxKey ip payload _ htask =>
    obtain ⟨-, -, hnow, hphase⟩ := startPut_ok htask
    exact ⟨hnow, .inl hphase⟩

theorem arrival_holdsPlace (h : event.arrival crypto = some (.ok new)) :
    new.holdsPlace limits = false := by
  obtain ⟨-, hphase | ⟨err, hphase⟩⟩ := arrival_phase h <;> rw [Task.holdsPlace, hphase]

theorem kept_step (hkept : server.Kept limits) (hreserved : Reserved limits server event) :
    (Server.step crypto limits server event).2.Kept limits := by
  generalize hnext : server.step crypto limits event = next
  cases step_case hnext with
  | refused err harrival => exact hkept
  | arrived task harrival => exact kept_arrived hkept (arrival_holdsPlace harrival)
  | advanced index task haction hget =>
    generalize hadvance : task.advance crypto limits event.clock server.db = next
    cases advance_case hadvance with
    | counted recentRequests recentBytes hphase hcount =>
      have hcounting : task ∈ server.counting event := by
        simp [Server.counting, haction, hget, hphase]
      obtain ⟨hnow, hadmits⟩ := hreserved task hcounting
      exact kept_counted hkept hget hphase hnow hcount (hadmits _ hcount)
    | logged result hphase => exact kept_logged hkept hget hphase
    | quiet db phase hlogs hplace => exact kept_quiet hkept hget hlogs hplace
  | failed index task haction hget =>
    exact kept_quiet hkept hget rfl (by simp [Task.holdsPlace, Task.at])
  | idle index haction hget => exact hkept

end Steps

/-- Along a run in which every count reserves its place, the accepted requests
keep to the limits in every window. -/
theorem rateLimited_of_reserved {start : Server} {events : List Event} (hidle : start.tasks = [])
    (hstart : RateLimited limits start.db.requestLogs)
    (hreserved : ∀ turn ∈ serverRun crypto limits start events,
      Reserved limits turn.before turn.input) :
    ∀ turn ∈ serverRun crypto limits start events,
      RateLimited limits turn.after.db.requestLogs := by
  have hkept : start.Kept limits := by
    rw [Server.Kept, hidle]
    simpa [held, RateLimited] using hstart
  have hturn : ∀ turn ∈ serverRun crypto limits start events, turn.before.Kept limits →
      turn.after.Kept limits := by
    intro turn hturn hbefore
    rw [after_eq hturn]
    exact kept_step hbefore (hreserved turn hturn)
  intro turn hmem
  have hafter := hturn turn hmem ((invariant _ hkept hturn).1 turn hmem)
  exact hafter.of_subperm (List.sublist_append_left _ _).subperm

section Advances
variable {task : Task} {event : Event} {server : Server}

theorem step_advance {index : ℕ} (hget : server.tasks[index]? = some task) (clock : UInt64) :
    (Server.step crypto limits server ⟨clock, .advance index⟩).2 =
      ⟨(task.advance crypto limits clock server.db).1,
        server.tasks.set index (task.advance crypto limits clock server.db).2⟩ := by
  simp only [Server.step, hget]

/-- A request that runs statement by statement with nothing in between. -/
theorem final_advances {index : ℕ} (hget : server.tasks[index]? = some task) (clock : UInt64)
    (steps : ℕ) :
    final (Server.step crypto limits) server (List.replicate steps ⟨clock, .advance index⟩) =
      ⟨(task.run crypto limits clock server.db steps).1,
        server.tasks.set index (task.run crypto limits clock server.db steps).2⟩ := by
  induction steps generalizing server task with
  | zero =>
    obtain ⟨hlt, rfl⟩ := List.getElem?_eq_some_iff.mp hget
    simp [final, Task.run]
  | succ steps ih =>
    obtain ⟨hlt, -⟩ := List.getElem?_eq_some_iff.mp hget
    rw [List.replicate_succ, final_cons, step_advance hget, ih (List.getElem?_set_self hlt)]
    simp only [List.set_set]
    rfl

theorem reserved_of_no_count (h : server.counting event = none) : Reserved limits server event := by
  intro task htask
  rw [h] at htask
  cases htask

/-- No request is about to count. -/
def Server.Counted (server : Server) : Prop := ∀ task ∈ server.tasks, task.phase ≠ .counting

theorem Server.Counted.reserved (h : server.Counted) : Reserved limits server event := by
  refine reserved_of_no_count (Option.eq_none_iff_forall_ne_some.mpr fun task htask => ?_)
  unfold Server.counting at htask
  split at htask
  · obtain ⟨hget, hphase⟩ := Option.filter_eq_some_iff.mp htask
    exact h task (List.mem_of_getElem? hget) (of_decide_eq_true hphase)
  · cases htask

theorem Server.Counted.advance (h : server.Counted) (clock : UInt64) (index : ℕ) :
    (Server.step crypto limits server ⟨clock, .advance index⟩).2.Counted := by
  cases hget : server.tasks[index]? with
  | none => simpa only [Server.step, hget] using h
  | some task =>
    rw [step_advance hget]
    intro other hother
    rcases List.mem_or_eq_of_mem_set hother with hkept | rfl
    · exact h other hkept
    · generalize hnext : task.advance crypto limits clock server.db = next
      cases statement_advance hnext <;> simp_all [Task.at]

/-- Once all requests have counted, their further statements count no more. -/
theorem reserved_of_counted {start : Server} (h : start.Counted) {clock : UInt64}
    (indices : List ℕ) : ∀ turn ∈ serverRun crypto limits start
      (indices.map fun index => ⟨clock, .advance index⟩),
        Reserved limits turn.before turn.input := by
  intro turn hturn
  refine Server.Counted.reserved ((invariant Server.Counted h ?_).1 turn hturn)
  intro turn hturn hbefore
  obtain ⟨index, -, hinput⟩ := List.mem_map.mp (input_mem hturn)
  rw [after_eq hturn, ← hinput]
  exact hbefore.advance clock index

end Advances

section Sample
variable {snapshot : RateLimitSnapshot} {db : Database} {recentRequests recentBytes : ℕ}

def sampleIdentity : String := Hex.encode requesterId

def sampleGrant : GrantTokenPayload :=
  ⟨Base64.encode requesterId, 1, none, none, Base64.encode requestVerifyingKey,
    Base64.encode signedGrant.signature⟩

def samplePuzzle : PuzzlePayload :=
  ⟨Base64.encode recipientId, Base64.encode requestPuzzleInput,
    Base64.encode requestPuzzleOutput, none⟩

def sampleItem : InboxStoreRequest := ⟨⟨Base64.encode [1, 2, 3], sampleGrant, samplePuzzle⟩, none⟩

def sampleTask (phase : Phase) : Task :=
  ⟨.inbox "00" none, sampleGrant, samplePuzzle, "unknown", [1, 2, 3], sampleIdentity, requestTime,
    phase⟩

/-- Four rows of one identity that leave room for three bytes. -/
def sampleLog : List LogRow :=
  [262144, 262144, 262144, 262141].map fun bytes =>
    ⟨asI64 requestTime - 30, sampleIdentity, "unknown", none, bytes, .inbox, .accepted⟩

/-- A bridge with a log and nothing stored. -/
def loggedServer (log : List LogRow) : Server where
  db := ⟨fun _ => none, fun _ => none, [], .empty, log,
    fun identity => if identity = sampleIdentity then some 100 else none⟩
  tasks := []

def sampleServer : Server := loggedServer sampleLog

def sampleArrival : Event := ⟨requestTime, .putInbox "00" "unknown" sampleItem⟩

def sampleAdvances (index steps : ℕ) : List Event :=
  List.replicate steps ⟨requestTime, .advance index⟩

theorem putInbox_sample :
    putInbox "00" "unknown" requestTime sampleItem = .ok (sampleTask .counting) :=
  startPut_encode rfl

theorem arrives_sample :
    sampleArrival.arrival sampleBridgeCrypto = some (.ok (sampleTask .counting)) := by
  simp only [Event.arrival, sampleArrival, putInbox_sample]

theorem arrival_sample (db : Database) (tasks : List Task) :
    (Server.step sampleBridgeCrypto {} ⟨db, tasks⟩ sampleArrival).2 =
      ⟨db, tasks ++ [sampleTask .counting]⟩ := by
  rw [step_of_arrival arrives_sample]
  rfl

theorem arrival_logged (log : List LogRow) :
    (Server.step sampleBridgeCrypto {} (loggedServer log) sampleArrival).2 =
      ⟨(loggedServer log).db, [sampleTask .counting]⟩ := arrival_sample _ []

theorem arrival_first : (Server.step sampleBridgeCrypto {} sampleServer sampleArrival).2 =
    ⟨sampleServer.db, [sampleTask .counting]⟩ := arrival_logged _

theorem validateGrant_sample :
    validateGrant sampleBridgeCrypto requestTime sampleGrant = .ok () := by
  refine (validateGrant_encode (by decide) (by decide) (by decide)).trans ?_
  decide

theorem validatePuzzle_sample (hpow : requiredPowParams snapshot {} = .minimum) :
    validatePuzzle sampleBridgeCrypto samplePuzzle (requiredPowParams snapshot {}) = .ok () := by
  rw [hpow]
  refine validatePuzzle_encode.trans ?_
  decide

theorem checks_sample {phase : Phase}
    (hadmits : Admits {} snapshot.recentRequests snapshot.recentBytes 3)
    (hpow : requiredPowParams snapshot {} = .minimum) :
    (sampleTask phase).checks sampleBridgeCrypto {} requestTime snapshot =
      .ok (.item "00" 1700086400) := by
  have hsize : [(1 : UInt8), 2, 3].length ≤ maxInboxItemBytes := by decide
  have hexpires : computeInboxExpiration requestTime none = .ok 1700086400 := by decide
  exact (checks_inbox rfl).mpr
    ⟨hsize, hadmits, validateGrant_sample, validatePuzzle_sample hpow, _, hexpires, rfl⟩

theorem scored_sample (hscore : db.score sampleIdentity = 100) :
    (sampleTask (.scoring recentRequests recentBytes)).advance sampleBridgeCrypto {} requestTime
      db = (db, sampleTask (.validating ⟨recentRequests, recentBytes, 100⟩)) := by
  rw [← hscore]
  rfl

theorem checked_sample (hadmits : Admits {} snapshot.recentRequests snapshot.recentBytes 3)
    (hpow : requiredPowParams snapshot {} = .minimum) :
    (sampleTask (.validating snapshot)).advance sampleBridgeCrypto {} requestTime db =
      (db, sampleTask (.storing (.item "00" 1700086400))) :=
  advance_passed rfl (checks_sample hadmits hpow)

section Admitted
variable (hscore : db.score sampleIdentity = 100) (hadmits : Admits {} recentRequests recentBytes 3)
  (hpow : requiredPowParams ⟨recentRequests, recentBytes, 100⟩ {} = .minimum)
include hscore hadmits hpow

/-- A sample that was admitted runs until its item is stored. -/
theorem stored_sample :
    (sampleTask (.scoring recentRequests recentBytes)).run sampleBridgeCrypto {} requestTime db 4 =
      ((db.insertInboxKey "00").insertInboxItem "00" [1, 2, 3] 1700086400,
        sampleTask (.logging (.ok ()))) := by
  rw [Task.run, Function.iterate_succ_apply, scored_sample hscore, Function.iterate_succ_apply,
    checked_sample hadmits hpow]
  rfl

/-- And then until its row is in the log. -/
theorem run_sample :
    (sampleTask (.scoring recentRequests recentBytes)).run sampleBridgeCrypto {} requestTime db 5 =
      (((db.insertInboxKey "00").insertInboxItem "00" [1, 2, 3] 1700086400).insertLog
        ((sampleTask .counting).logRow (.ok ())), sampleTask (.readingScore (.ok ()))) := by
  have hstored := stored_sample hscore hadmits hpow
  rw [Task.run] at hstored ⊢
  rw [Function.iterate_succ_apply', hstored]
  rfl

end Admitted

theorem sampleLog_rateLimited : RateLimited {} sampleLog :=
  Within.of_total (by decide) (by decide)

theorem count_sample : sampleServer.db.countRecent sampleIdentity (windowStart {} requestTime) =
    some (4, 1048573) := by
  decide

theorem score_loggedServer (log : List LogRow) :
    (loggedServer log).db.score sampleIdentity = 100 := by
  simp [Database.score, loggedServer]

theorem score_sample : sampleServer.db.score sampleIdentity = 100 := score_loggedServer _

theorem admits_sample : Admits {} 4 1048573 3 := by decide

theorem pow_sample : requiredPowParams ⟨4, 1048573, 100⟩ {} = .minimum := by decide

theorem counts_sample {requests bytes : ℕ}
    (hcount : db.countRecent sampleIdentity (windowStart {} requestTime) =
      some (requests, bytes)) :
    (sampleTask .counting).advance sampleBridgeCrypto {} requestTime db =
      (db, sampleTask (.scoring requests bytes)) :=
  advance_counted rfl hcount

/-- Two requests that both count before either is in the log. -/
def overlapping : List Event :=
  [sampleArrival, sampleArrival, ⟨requestTime, .advance 0⟩, ⟨requestTime, .advance 1⟩] ++
    (sampleAdvances 0 5 ++ sampleAdvances 1 5)

section Overlapping
variable {log : List LogRow} {requests bytes : ℕ}

theorem counted_overlapping
    (hcount : (loggedServer log).db.countRecent sampleIdentity (windowStart {} requestTime) =
      some (requests, bytes)) :
    final (Server.step sampleBridgeCrypto {}) (loggedServer log)
      [sampleArrival, sampleArrival, ⟨requestTime, .advance 0⟩, ⟨requestTime, .advance 1⟩] =
      ⟨(loggedServer log).db,
        [sampleTask (.scoring requests bytes), sampleTask (.scoring requests bytes)]⟩ := by
  rw [final_cons, arrival_logged, final_cons, arrival_sample, final_cons, step_advance rfl,
    counts_sample hcount, final_cons, step_advance rfl, counts_sample hcount]
  rfl

theorem overlapping_log
    (hcount : (loggedServer log).db.countRecent sampleIdentity (windowStart {} requestTime) =
      some (requests, bytes)) (hadmits : Admits {} requests bytes 3)
    (hpow : requiredPowParams ⟨requests, bytes, 100⟩ {} = .minimum) :
    (final (Server.step sampleBridgeCrypto {}) (loggedServer log) overlapping).db.requestLogs =
      log ++ List.replicate 2 ((sampleTask .counting).logRow (.ok ())) := by
  rw [overlapping, final_append, final_append, counted_overlapping hcount, sampleAdvances,
    final_advances rfl, run_sample (score_loggedServer log) hadmits hpow, sampleAdvances,
    final_advances rfl, run_sample ?_ hadmits hpow]
  · simp [Database.insertLog, Database.insertInboxItem, Database.insertInboxKey, loggedServer]
  · rw [Database.insertInboxKey, if_neg (by simp [loggedServer])]
    exact score_loggedServer log

/-- Three rows of one identity that leave room for two requests. -/
def roomyLog : List LogRow :=
  List.replicate 3 ⟨asI64 requestTime - 30, sampleIdentity, "unknown", none, 262144, .inbox,
    .accepted⟩

theorem count_roomyLog : (loggedServer roomyLog).db.countRecent sampleIdentity
    (windowStart {} requestTime) = some (3, 786432) := by
  decide

/-- The second request counts while the first one holds a place. -/
theorem reserved_overlapping :
    ∀ turn ∈ serverRun sampleBridgeCrypto {} (loggedServer roomyLog) overlapping,
      Reserved {} turn.before turn.input := by
  have hrest : sampleAdvances 0 5 ++ sampleAdvances 1 5 =
      [0, 0, 0, 0, 0, 1, 1, 1, 1, 1].map fun index => ⟨requestTime, .advance index⟩ := rfl
  rw [serverRun, overlapping, transcript_append, List.forall_mem_append,
    counted_overlapping count_roomyLog, hrest]
  refine ⟨?_, reserved_of_counted ?_ _⟩
  · rw [transcript_cons, arrival_logged, transcript_cons, arrival_sample, transcript_cons,
      step_advance rfl, counts_sample count_roomyLog, transcript_cons, transcript_nil]
    simp only [List.forall_mem_cons]
    refine ⟨reserved_of_no_count rfl, reserved_of_no_count rfl, ?_, ?_, ?_⟩
    · decide
    · decide
    · simp
  · simp [Server.Counted, sampleTask]

end Overlapping

/-- Two requests that overlap take places that are both free. -/
theorem overlapping_within_limit :
    (final (Server.step sampleBridgeCrypto {}) (loggedServer roomyLog)
      overlapping).db.requestLogs =
        roomyLog ++ List.replicate 2 ((sampleTask .counting).logRow (.ok ())) ∧
    ∀ turn ∈ serverRun sampleBridgeCrypto {} (loggedServer roomyLog) overlapping,
      RateLimited {} turn.after.db.requestLogs :=
  ⟨overlapping_log count_roomyLog (by decide) (by decide),
    rateLimited_of_reserved rfl (Within.of_total (by decide) (by decide)) reserved_overlapping⟩

theorem overlapping_exceeds_limit : RateLimited {} sampleServer.db.requestLogs ∧
    ¬ RateLimited {} (final (Server.step sampleBridgeCrypto {}) sampleServer
      overlapping).db.requestLogs := by
  refine ⟨sampleLog_rateLimited, fun h => ?_⟩
  rw [sampleServer, overlapping_log count_sample admits_sample pow_sample] at h
  have hbytes := (h sampleIdentity 1699999950).2
  revert hbytes
  decide

end Sample

end Spex.Bridge
