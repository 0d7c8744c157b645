import Spex.Reputation
import Spex.Selection

/-!
# What one identity sees of the others

A request reads the log and the reputation of its own identity only. So what the
requests of an identity see does not depend on the requests of other identities.
It does depend on every request that is attributed to the identity, and a request
is attributed by the user id in its grant before the grant is checked: a request
with a forged grant is logged and lowers the reputation of its victim.

The runs are compared by marking the requests to keep: the kept requests of a run
behave as in the run that consists of them alone, if the statements of the other
requests leave alone what the kept ones read.
-/
namespace Spex.Bridge
open Transcript Selection Fallible

/-- The identity that a request is attributed to. -/
def Event.identity (event : Event) : Option String :=
  match event.action with
  | .putCard _ _ payload => (identityFromGrant payload.grant).toOption
  | .putSlot _ _ payload =>
    some (match identityFromGrant payload.grant with
      | .ok identity => identity
      | .error _ => "unknown")
  | .putInbox _ _ payload => (identityFromGrant payload.grant).toOption
  | .advance _ | .fail _ => none

section Sights

def Phase.snapshot : Phase → Option RateLimitSnapshot
  | .validating snapshot => some snapshot
  | _ => none

/-- What a request sees in a turn of its own: the phase it comes to, the snapshot
if it has just read it, with the proof of work it asks for, the answer, and the
reputation that is stored then. -/
structure Sight where
  phase : Option Phase
  snapshot : Option RateLimitSnapshot
  required : Option PowParams
  answer : Answer
  reputation : ℤ

def BridgeTurn.number (turn : BridgeTurn) : ℕ :=
  match turn.input.action with
  | .advance index | .fail index => index
  | _ => turn.before.tasks.length

/-- The turn belongs to a request of an identity. -/
def BridgeTurn.concerns (identity : String) (turn : BridgeTurn) : Bool :=
  match turn.input.action with
  | .advance index | .fail index =>
    turn.before.tasks[index]?.any fun task => task.identity = identity
  | _ => turn.input.identity = some identity

def BridgeTurn.phase (turn : BridgeTurn) : Option Phase :=
  turn.after.tasks[turn.number]?.map Task.phase

def sight (limits : RateLimitConfig) (identity : String) (turn : BridgeTurn) : Option Sight :=
  if turn.concerns identity then
    let snapshot := turn.phase.bind Phase.snapshot
    some ⟨turn.phase, snapshot, snapshot.map fun read => requiredPowParams read limits,
      turn.outcome, turn.after.db.score identity⟩
  else none

theorem sight_congr {limits : RateLimitConfig} {identity : String} {turn turn' : BridgeTurn}
    (hconcerns : turn.concerns identity = turn'.concerns identity)
    (hphase : turn.phase = turn'.phase) (houtcome : turn.outcome = turn'.outcome)
    (hscore : turn.after.db.score identity = turn'.after.db.score identity) :
    sight limits identity turn = sight limits identity turn' := by
  simp only [sight, hconcerns, hphase, houtcome, hscore]

/-- What the requests of an identity see in a run. -/
def seen (limits : RateLimitConfig) (identity : String) (run : List BridgeTurn) : List Sight :=
  run.filterMap (sight limits identity)

section Turns
variable {crypto : BridgeCrypto} {identity : String} {turn : BridgeTurn} {index : ℕ}

theorem number_of_arrival {task : Except BridgeError Task}
    (h : turn.input.arrival crypto = some task) : turn.number = turn.before.tasks.length := by
  cases arrival_case h <;> simp [BridgeTurn.number, *]

theorem concerns_of_arrival {task : Except BridgeError Task}
    (h : turn.input.arrival crypto = some task) :
    turn.concerns identity = decide (turn.input.identity = some identity) := by
  cases arrival_case h <;> simp [BridgeTurn.concerns, *]

theorem number_of_statement
    (h : turn.input.action = .advance index ∨ turn.input.action = .fail index) :
    turn.number = index := by
  rcases h with h | h <;> simp [BridgeTurn.number, h]

theorem concerns_of_statement
    (h : turn.input.action = .advance index ∨ turn.input.action = .fail index) :
    turn.concerns identity =
      turn.before.tasks[index]?.any fun task => task.identity = identity := by
  rcases h with h | h <;> simp [BridgeTurn.concerns, h]

end Turns

end Sights

/-- A server with a mark for every request, set if the request is kept. -/
structure Marked where
  server : Server
  marks : List Bool

section Marks
variable (crypto : BridgeCrypto) (limits : RateLimitConfig)

/-- An event with the mark of the request it brings. -/
def Marked.step (state : Marked) (input : Bool × Event) : Answer × Marked :=
  let next := state.server.step crypto limits input.2
  let marks := match input.2.arrival crypto with
    | some (.ok _) => state.marks ++ [input.1]
    | _ => state.marks
  (next.1, ⟨next.2, marks⟩)

abbrev MarkedTurn := Turn Marked (Bool × Event) Answer

def markedRun (state : Marked) (inputs : List (Bool × Event)) : List MarkedTurn :=
  transcript (Marked.step crypto limits) state inputs

def MarkedTurn.plain (turn : MarkedTurn) : BridgeTurn :=
  ⟨turn.before.server, turn.input.2, turn.outcome, turn.after.server⟩

/-- The event belongs to a request that is kept. -/
def Marked.keeps (state : Marked) (input : Bool × Event) : Bool :=
  match input.2.action with
  | .advance index | .fail index => state.marks[index]? = some true
  | _ => input.1

/-- The event in the run of the kept requests, where they have other numbers. -/
def Marked.renumbered (state : Marked) (event : Event) : Event :=
  match event.action with
  | .advance index => ⟨event.clock, .advance (rank state.marks index)⟩
  | .fail index => ⟨event.clock, .fail (rank state.marks index)⟩
  | _ => event

/-- The events of the kept requests. -/
def keptEvents (run : List MarkedTurn) : List Event :=
  (run.filter fun turn => turn.before.keeps turn.input).map fun turn =>
    turn.before.renumbered turn.input.2

/-- What the kept requests of an identity see in a run. -/
def seenKept (identity : String) (run : List MarkedTurn) : List Sight :=
  (run.filter fun turn => turn.before.keeps turn.input).filterMap fun turn =>
    sight limits identity turn.plain

/-- The request with the given mark whose next statement runs in an event. -/
def Marked.acting (mark : Bool) (state : Marked) (input : Bool × Event) : Option Task :=
  match input.2.action with
  | .advance index => if state.marks[index]? = some mark then state.server.tasks[index]? else none
  | _ => none

/-- The statements of the requests that are not kept leave alone what the kept ones
read: no row that they log is counted later by a kept request, and they write only
scores that are stored already. Identities that do not matter are left out. -/
@[mk_iff] structure Harmless (matters : String → Prop) (run : List MarkedTurn) : Prop where
  counts : run.Pairwise fun earlier later =>
    ∀ dropped ∈ earlier.before.acting false earlier.input, ∀ row ∈ dropped.logged,
      ∀ kept ∈ later.before.acting true later.input, kept.phase = .counting →
        row.identity = kept.identity → row.timestamp < windowStart limits kept.now
  scores : ∀ turn ∈ run, ∀ dropped ∈ turn.before.acting false turn.input,
    matters dropped.identity → ∀ update ∈ dropped.update,
      nextScore update.1 update.2 = turn.before.server.db.score dropped.identity

instance {matters : String → Prop} [DecidablePred matters] {run : List MarkedTurn} :
    Decidable (Harmless limits matters run) :=
  decidable_of_iff _ (harmless_iff limits matters run).symm

end Marks

section Links
variable {crypto : BridgeCrypto} {limits : RateLimitConfig} {matters : String → Prop}
  {state : Marked} {server : Server} {dropped : List LogRow} {input : Bool × Event} {event : Event}
  {task : Task} {db db' : Database} {clock : UInt64} {index : ℕ}

def Database.rowsOf (db : Database) (identity : String) : List LogRow :=
  db.requestLogs.filter fun row => row.identity = identity

/-- A marked server and the server of its kept requests. The log of the first holds
the rows of the dropped requests besides those of the second. -/
structure Linked (matters : String → Prop) (state : Marked) (server : Server)
    (dropped : List LogRow) : Prop where
  lengths : state.marks.length = state.server.tasks.length
  tasks : select state.marks state.server.tasks = server.tasks
  known : ∀ (index : ℕ) (task : Task), state.marks[index]? = some true →
    state.server.tasks[index]? = some task → matters task.identity
  rows : ∀ identity, matters identity → (state.server.db.rowsOf identity).Perm
    (server.db.rowsOf identity ++ dropped.filter fun row => row.identity = identity)
  scores : ∀ identity, matters identity →
    state.server.db.score identity = server.db.score identity

/-- A request about to count its entries leaves these rows out. -/
def Task.Ignores (limits : RateLimitConfig) (rows : List LogRow) (task : Task) : Prop :=
  task.phase = .counting → ∀ row ∈ rows, row.identity = task.identity →
    row.timestamp < windowStart limits task.now

theorem identity_of_arrival (h : event.arrival crypto = some (.ok task)) :
    event.identity = some task.identity := by
  have hput : ∀ {target ip now payload}, startPut target ip now payload = .ok task →
      (identityFromGrant payload.grant).toOption = some task.identity := by
    intro target ip now payload hput
    obtain ⟨data, -, hput⟩ := bind_eq_ok.mp hput
    obtain ⟨identity, hidentity, hput⟩ := bind_eq_ok.mp hput
    rw [← Except.ok.inj hput, hidentity]
    rfl
  unfold Event.identity
  cases arrival_case h with
  | putCard cardHash ip payload haction htask =>
    rw [haction]
    exact hput htask
  | putSlot slotId ip payload haction htask =>
    obtain ⟨data, -, hslot⟩ := bind_eq_ok.mp htask
    rw [haction]
    exact congrArg (fun task => some task.identity) (Except.ok.inj hslot)
  | putInbox inboxKey ip payload haction htask =>
    rw [haction]
    exact hput htask

theorem countRecent_eq_of_perm {identity : String} {start : ℤ} {extra : List LogRow}
    (hrows : (db.rowsOf identity).Perm (db'.rowsOf identity ++ extra))
    (hextra : ∀ row ∈ extra, row.timestamp < start) :
    db.countRecent identity start = db'.countRecent identity start := by
  have hrecent : ∀ db : Database, db.recent identity start =
      (db.rowsOf identity).filter fun row => start ≤ row.timestamp := by
    intro db
    rw [Database.recent, Database.rowsOf, List.filter_filter]
    refine List.filter_congr fun row _ => ?_
    rw [Bool.decide_and, Bool.and_comm]
  have hnone : extra.filter (fun row => start ≤ row.timestamp) = [] := by
    rw [List.filter_eq_nil_iff]
    intro row hrow
    simpa using hextra row hrow
  have hperm : (db.recent identity start).Perm (db'.recent identity start) := by
    have hfilter := hrows.filter fun row => start ≤ row.timestamp
    rw [List.filter_append, hnone, List.append_nil] at hfilter
    rw [hrecent, hrecent]
    exact hfilter
  rw [Database.countRecent, Database.countRecent, hperm.length_eq,
    (hperm.map LogRow.bytes).sum_eq]

/-- A request goes on in the same way on databases that look the same to it. -/
theorem advance_task_eq (hcount : task.phase = .counting →
      db.countRecent task.identity (windowStart limits task.now) =
        db'.countRecent task.identity (windowStart limits task.now))
    (hscore : db.score task.identity = db'.score task.identity) :
    (task.advance crypto limits clock db).2 = (task.advance crypto limits clock db').2 := by
  unfold Task.advance
  cases hphase : task.phase with
  | counting =>
    dsimp only
    rw [hcount hphase]
    split <;> rfl
  | scoring recentRequests recentBytes =>
    dsimp only
    rw [hscore]
  | validating snapshot =>
    dsimp only
    split <;> rfl
  | storing write => cases write <;> rfl
  | readingScore result =>
    dsimp only
    rw [hscore]
  | _ => rfl

theorem keeps_of_arrival {task : Except BridgeError Task}
    (h : input.2.arrival crypto = some task) : state.keeps input = input.1 := by
  cases arrival_case h <;> simp [Marked.keeps, *]

theorem acting_of_arrival {mark : Bool} {task : Except BridgeError Task}
    (h : input.2.arrival crypto = some task) : state.acting mark input = none := by
  cases arrival_case h <;> simp [Marked.acting, *]

theorem renumbered_of_arrival {task : Except BridgeError Task}
    (h : event.arrival crypto = some task) : state.renumbered event = event := by
  cases arrival_case h <;> simp [Marked.renumbered, *]

theorem arrival_of_statement (h : event.action = .advance index ∨ event.action = .fail index) :
    event.arrival crypto = none := by
  rcases h with h | h <;> simp [Event.arrival, h]

theorem keeps_of_statement (h : input.2.action = .advance index ∨ input.2.action = .fail index) :
    state.keeps input = true ↔ state.marks[index]? = some true := by
  rcases h with h | h <;> simp [Marked.keeps, h]

theorem marked_step_statement (h : input.2.action = .advance index ∨ input.2.action = .fail index) :
    state.step crypto limits input = ((state.server.step crypto limits input.2).1,
      ⟨(state.server.step crypto limits input.2).2, state.marks⟩) := by
  simp [Marked.step, arrival_of_statement h]

theorem rowsOf_advance (clock : UInt64) (db : Database) (task : Task) (identity : String) :
    (task.advance crypto limits clock db).1.rowsOf identity =
      db.rowsOf identity ++ task.logged.filter fun row => row.identity = identity := by
  rw [Database.rowsOf, advance_requestLogs, List.filter_append, Database.rowsOf]

/-- The kept requests still matter after a request has arrived. -/
theorem Linked.known_append {mark : Bool} (h : Linked matters state server dropped)
    (hnew : mark = true → matters task.identity) (index : ℕ) (other : Task)
    (hmark : (state.marks ++ [mark])[index]? = some true)
    (hget : (state.server.tasks ++ [task])[index]? = some other) : matters other.identity := by
  rw [List.getElem?_append] at hmark hget
  rw [h.lengths] at hmark
  split_ifs at hmark hget with hold
  · exact h.known index other hmark hget
  · rw [List.getElem?_singleton] at hmark hget
    split_ifs at hmark hget
    rw [← Option.some.inj hget]
    exact hnew (Option.some.inj hmark)

/-- A kept request arrives on both sides. -/
theorem Linked.arrived (h : Linked matters state server dropped)
    (hmatters : matters task.identity) :
    Linked matters ⟨{ state.server with tasks := state.server.tasks ++ [task] },
      state.marks ++ [true]⟩ { server with tasks := server.tasks ++ [task] } dropped := by
  refine ⟨by simp [h.lengths], ?_, h.known_append fun _ => hmatters, h.rows, h.scores⟩
  rw [select_append h.lengths, h.tasks]
  rfl

/-- A request that is not kept arrives on one side. -/
theorem Linked.arrived_dropped (h : Linked matters state server dropped) (task : Task) :
    Linked matters ⟨{ state.server with tasks := state.server.tasks ++ [task] },
      state.marks ++ [false]⟩ server dropped := by
  refine ⟨by simp [h.lengths], ?_, h.known_append (Bool.noConfusion ·), h.rows, h.scores⟩
  rw [select_append h.lengths, h.tasks]
  simp [select]

/-- A kept request changes its phase on both sides. -/
theorem Linked.set (h : Linked matters state server dropped)
    (hmark : state.marks[index]? = some true) (hget : state.server.tasks[index]? = some task)
    (phase : Phase) (hrows : ∀ identity, matters identity → (db.rowsOf identity).Perm
      (db'.rowsOf identity ++ dropped.filter fun row => row.identity = identity))
    (hscores : ∀ identity, matters identity → db.score identity = db'.score identity) :
    Linked matters ⟨⟨db, state.server.tasks.set index (task.at phase)⟩, state.marks⟩
      ⟨db', server.tasks.set (rank state.marks index) (task.at phase)⟩ dropped := by
  refine ⟨by simp [h.lengths], ?_, fun other found hother hfound => ?_, hrows, hscores⟩
  · rw [select_set _ hmark, h.tasks]
  · rw [List.getElem?_set] at hfound
    split_ifs at hfound with hsame
    · rw [← Option.some.inj hfound]
      exact h.known index task hmark hget
    · exact h.known other found hother hfound

/-- A request that is not kept changes its phase on one side. -/
theorem Linked.set_dropped {rows : List LogRow} (h : Linked matters state server dropped)
    (hmark : state.marks[index]? = some false)
    (hrows : ∀ identity, matters identity → (db.rowsOf identity).Perm
      (server.db.rowsOf identity ++ rows.filter fun row => row.identity = identity))
    (hscores : ∀ identity, matters identity → db.score identity = server.db.score identity) :
    Linked matters ⟨⟨db, state.server.tasks.set index task⟩, state.marks⟩ server rows := by
  refine ⟨by simp [h.lengths], ?_, fun other found hother hfound => ?_, hrows, hscores⟩
  · rw [select_set_of_false _ hmark, h.tasks]
  · rw [List.getElem?_set] at hfound
    split_ifs at hfound with hsame
    · rw [← hsame, hmark] at hother
      cases hother
    · exact h.known other found hother hfound

theorem Linked.getElem? (h : Linked matters state server dropped)
    (hmark : state.marks[index]? = some true) :
    server.tasks[rank state.marks index]? = state.server.tasks[index]? := by
  rw [← h.tasks, select_getElem? hmark]

theorem Linked.mark_of_not_keeps (h : Linked matters state server dropped)
    (haction : input.2.action = .advance index ∨ input.2.action = .fail index)
    (hget : state.server.tasks[index]? = some task) (hkeeps : state.keeps input = false) :
    state.marks[index]? = some false := by
  obtain ⟨hlt, -⟩ := List.getElem?_eq_some_iff.mp hget
  rw [← h.lengths] at hlt
  have hmark := List.getElem?_eq_getElem hlt
  cases hvalue : state.marks[index] with
  | false => rw [hmark, hvalue]
  | true =>
    rw [hvalue] at hmark
    rw [(keeps_of_statement haction).mpr hmark] at hkeeps
    cases hkeeps

/-- The next statement of a kept request, on both sides. -/
theorem Linked.advanced (h : Linked matters state server dropped)
    (hmark : state.marks[index]? = some true) (hget : state.server.tasks[index]? = some task)
    (hcounts : task.Ignores limits dropped) :
    (task.advance crypto limits clock state.server.db).2 =
        (task.advance crypto limits clock server.db).2 ∧
      Linked matters ⟨⟨(task.advance crypto limits clock state.server.db).1,
          state.server.tasks.set index (task.advance crypto limits clock server.db).2⟩,
          state.marks⟩
        ⟨(task.advance crypto limits clock server.db).1, server.tasks.set (rank state.marks index)
          (task.advance crypto limits clock server.db).2⟩ dropped := by
  have hmatters := h.known index task hmark hget
  refine ⟨advance_task_eq (fun hphase => ?_) (h.scores _ hmatters), ?_⟩
  · refine countRecent_eq_of_perm (h.rows _ hmatters) fun row hrow => ?_
    rw [List.mem_filter, decide_eq_true_eq] at hrow
    exact hcounts hphase row hrow.1 hrow.2
  · obtain ⟨phase, hphase⟩ := same_request crypto limits server.db task clock
    rw [hphase]
    refine h.set hmark hget phase (fun identity hidentity => ?_) fun identity hidentity => ?_
    · rw [rowsOf_advance, rowsOf_advance, List.append_assoc]
      refine ((h.rows identity hidentity).append_right _).trans ?_
      rw [List.append_assoc]
      exact List.perm_append_comm.append_left _
    · rw [advance_score, advance_score, h.scores identity hidentity]

/-- The next statement of a request that is not kept, on one side. -/
theorem Linked.advanced_dropped (h : Linked matters state server dropped)
    (hmark : state.marks[index]? = some false)
    (hscores : matters task.identity → ∀ update ∈ task.update,
      nextScore update.1 update.2 = state.server.db.score task.identity) :
    Linked matters ⟨⟨(task.advance crypto limits clock state.server.db).1,
        state.server.tasks.set index (task.advance crypto limits clock state.server.db).2⟩,
        state.marks⟩ server (dropped ++ task.logged) := by
  refine h.set_dropped hmark (fun identity hidentity => ?_) fun identity hidentity => ?_
  · rw [rowsOf_advance, List.filter_append, ← List.append_assoc]
    exact (h.rows identity hidentity).append_right _
  · rw [← h.scores identity hidentity, advance_score]
    split_ifs with hsame
    · subst hsame
      cases hupdate : task.update with
      | none => rfl
      | some update => exact hscores hidentity update hupdate
    · rfl

/-- The turn of a kept request and the turn that it is in the run of the kept
requests look the same. -/
theorem Linked.sight_of_statement {answer : Answer} {after : Server} {after' : Server}
    (h : Linked matters state server dropped)
    (h' : Linked matters ⟨after, state.marks⟩ after' dropped)
    (hmark : state.marks[index]? = some true)
    (haction : input.2.action = .advance index ∨ input.2.action = .fail index) {identity : String}
    (hmatters : matters identity) :
    sight limits identity ⟨state.server, input.2, answer, after⟩ =
      sight limits identity ⟨server, state.renumbered input.2, answer, after'⟩ := by
  have hrenumbered : (state.renumbered input.2).action = .advance (rank state.marks index) ∨
      (state.renumbered input.2).action = .fail (rank state.marks index) := by
    rcases haction with haction | haction <;> simp [Marked.renumbered, haction]
  refine sight_congr ?_ ?_ rfl (h'.scores identity hmatters)
  · rw [concerns_of_statement haction, concerns_of_statement hrenumbered, h.getElem? hmark]
  · rw [BridgeTurn.phase, BridgeTurn.phase, number_of_statement haction,
      number_of_statement hrenumbered, h'.getElem? hmark]

/-- An event keeps the link and looks the same on both sides. -/
def Alike (crypto : BridgeCrypto) (limits : RateLimitConfig) (matters : String → Prop)
    (state : Marked) (server : Server) (dropped : List LogRow) (input : Bool × Event) : Prop :=
  let next := state.step crypto limits input
  let next' := server.step crypto limits (state.renumbered input.2)
  Linked matters next.2 next'.2 dropped ∧ ∀ identity, matters identity →
    sight limits identity ⟨state.server, input.2, next.1, next.2.server⟩ =
      sight limits identity ⟨server, state.renumbered input.2, next'.1, next'.2⟩

theorem Linked.alike_of_arrival {arrival : Except BridgeError Task}
    (h : Linked matters state server dropped) (hkeeps : state.keeps input = true)
    (harrival : input.2.arrival crypto = some arrival)
    (hmatters : ∀ task, arrival = .ok task → matters task.identity) :
    Alike crypto limits matters state server dropped input := by
  rw [keeps_of_arrival harrival] at hkeeps
  rw [Alike, renumbered_of_arrival harrival, step_of_arrival harrival, Marked.step,
    step_of_arrival harrival, harrival, hkeeps]
  have hconcerns : ∀ identity answer after after', BridgeTurn.concerns identity
      ⟨state.server, input.2, answer, after⟩ =
        BridgeTurn.concerns identity ⟨server, input.2, answer, after'⟩ := by
    intro identity answer after after'
    rw [concerns_of_arrival harrival, concerns_of_arrival harrival]
  have hphase : BridgeTurn.phase
      ⟨state.server, input.2, (state.server.start arrival).1, (state.server.start arrival).2⟩ =
        BridgeTurn.phase ⟨server, input.2, (server.start arrival).1, (server.start arrival).2⟩ := by
    rw [BridgeTurn.phase, BridgeTurn.phase, number_of_arrival harrival,
      number_of_arrival harrival]
    cases arrival <;> simp [Server.start]
  cases arrival with
  | error err =>
    exact ⟨h, fun identity hidentity =>
      sight_congr (hconcerns ..) hphase rfl (h.scores identity hidentity)⟩
  | ok task =>
    exact ⟨h.arrived (hmatters task rfl), fun identity hidentity =>
      sight_congr (hconcerns ..) hphase rfl (h.scores identity hidentity)⟩

theorem Linked.alike_of_statement (h : Linked matters state server dropped)
    (hmark : state.marks[index]? = some true) (hget : state.server.tasks[index]? = some task)
    (haction : input.2.action = .advance index ∨ input.2.action = .fail index)
    (hcounts : input.2.action = .advance index → task.Ignores limits dropped) :
    Alike crypto limits matters state server dropped input := by
  have hget' : server.tasks[rank state.marks index]? = some task := by
    rw [h.getElem? hmark, hget]
  rw [Alike, marked_step_statement haction]
  rcases haction with haction | haction
  · have hrenumbered : (state.renumbered input.2).action = .advance (rank state.marks index) := by
      simp [Marked.renumbered, haction]
    have hclock : (state.renumbered input.2).clock = input.2.clock := by
      simp [Marked.renumbered, haction]
    obtain ⟨htask, hlinked⟩ := h.advanced hmark hget (hcounts haction)
    rw [step_of_advance haction hget, step_of_advance hrenumbered hget', hclock, htask]
    exact ⟨hlinked, fun identity hidentity =>
      h.sight_of_statement hlinked hmark (.inl haction) hidentity⟩
  · have hrenumbered : (state.renumbered input.2).action = .fail (rank state.marks index) := by
      simp [Marked.renumbered, haction]
    have hlinked := h.set hmark hget (.finished (.error .storage)) h.rows h.scores
    rw [step_of_fail haction hget, step_of_fail hrenumbered hget']
    exact ⟨hlinked, fun identity hidentity =>
      h.sight_of_statement hlinked hmark (.inr haction) hidentity⟩

variable (crypto limits) in
/-- The event of a kept request. -/
theorem Linked.kept (h : Linked matters state server dropped) (hkeeps : state.keeps input = true)
    (hmatters : ∀ identity, input.2.identity = some identity → matters identity)
    (hcounts : ∀ task ∈ state.acting true input, task.Ignores limits dropped) :
    Alike crypto limits matters state server dropped input := by
  have hstatement : ∀ index, input.2.action = .advance index ∨ input.2.action = .fail index →
      Alike crypto limits matters state server dropped input := by
    intro index haction
    have hmark := (keeps_of_statement haction).mp hkeeps
    obtain ⟨hlt, -⟩ := List.getElem?_eq_some_iff.mp hmark
    rw [h.lengths] at hlt
    have hget := List.getElem?_eq_getElem hlt
    refine h.alike_of_statement hmark hget haction fun hadvance => hcounts _ ?_
    simp [Marked.acting, hadvance, hmark]
  cases harrival : input.2.arrival crypto with
  | some arrival =>
    refine h.alike_of_arrival hkeeps harrival fun task htask => ?_
    rw [htask] at harrival
    exact hmatters _ (identity_of_arrival harrival)
  | none =>
    cases haction : input.2.action with
    | advance index => exact hstatement index (.inl haction)
    | fail index => exact hstatement index (.inr haction)
    | _ => simp [Event.arrival, haction] at harrival

variable (crypto limits) in
/-- The event of a request that is not kept. -/
theorem Linked.unkept (h : Linked matters state server dropped)
    (hkeeps : state.keeps input = false)
    (hscores : ∀ task ∈ state.acting false input, matters task.identity →
      ∀ update ∈ task.update,
        nextScore update.1 update.2 = state.server.db.score task.identity) :
    Linked matters (state.step crypto limits input).2 server
      (dropped ++ (state.acting false input).elim [] Task.logged) := by
  rw [Marked.step]
  generalize hnext : state.server.step crypto limits input.2 = next
  cases step_case hnext with
  | refused err harrival =>
    have hacting : state.acting false input = none := acting_of_arrival harrival
    simpa [hacting, harrival] using h
  | arrived task harrival =>
    have hacting : state.acting false input = none := acting_of_arrival harrival
    rw [keeps_of_arrival harrival] at hkeeps
    simpa [hacting, harrival, hkeeps] using h.arrived_dropped task
  | advanced index task haction hget =>
    have hmark := h.mark_of_not_keeps (.inl haction) hget hkeeps
    have hacting : state.acting false input = some task := by
      simp [Marked.acting, haction, hmark, hget]
    rw [hacting, arrival_of_statement (.inl haction)]
    exact h.advanced_dropped hmark (hscores task hacting)
  | failed index task haction hget =>
    have hmark := h.mark_of_not_keeps (.inr haction) hget hkeeps
    have hacting : state.acting false input = none := by simp [Marked.acting, haction]
    rw [hacting, arrival_of_statement (.inr haction)]
    simpa using h.set_dropped hmark h.rows h.scores
  | idle index haction hget =>
    have hacting : state.acting false input = none := by
      rcases haction with haction | haction <;> simp [Marked.acting, haction, hget]
    rw [hacting, arrival_of_statement haction]
    simpa using h

end Links

section Runs
variable {crypto : BridgeCrypto} {limits : RateLimitConfig} {matters : String → Prop}
  {state : Marked} {server : Server} {inputs : List (Bool × Event)}

theorem identity_matters {input : Bool × Event} (hkeeps : state.keeps input = true)
    (hmatters : input.1 = true → ∀ identity, input.2.identity = some identity → matters identity) :
    ∀ identity, input.2.identity = some identity → matters identity := by
  intro identity hidentity
  refine hmatters ?_ identity hidentity
  unfold Event.identity at hidentity
  unfold Marked.keeps at hkeeps
  cases haction : input.2.action <;> simp_all

theorem keptEvents_cons (turn : MarkedTurn) (run : List MarkedTurn) :
    keptEvents (turn :: run) = if turn.before.keeps turn.input then
      turn.before.renumbered turn.input.2 :: keptEvents run else keptEvents run := by
  rw [keptEvents, List.filter_cons]
  split_ifs <;> rfl

theorem seenKept_cons (identity : String) (turn : MarkedTurn) (run : List MarkedTurn) :
    seenKept limits identity (turn :: run) = if turn.before.keeps turn.input then
      (sight limits identity turn.plain).toList ++ seenKept limits identity run
      else seenKept limits identity run := by
  rw [seenKept, List.filter_cons]
  split_ifs
  · cases hsight : sight limits identity turn.plain <;> simp [seenKept, hsight]
  · rfl

theorem seen_cons (identity : String) (turn : BridgeTurn) (run : List BridgeTurn) :
    seen limits identity (turn :: run) =
      (sight limits identity turn).toList ++ seen limits identity run := by
  cases hsight : sight limits identity turn <;> simp [seen, hsight]

theorem markedRun_cons (input : Bool × Event) (inputs : List (Bool × Event)) :
    markedRun crypto limits state (input :: inputs) =
      ⟨state, input, (state.step crypto limits input).1, (state.step crypto limits input).2⟩ ::
        markedRun crypto limits (state.step crypto limits input).2 inputs := rfl

/-- The kept requests of a run see what they see in the run of them alone, and the
two runs end with a link. -/
theorem Linked.run {dropped : List LogRow} (h : Linked matters state server dropped)
    (hmatters : ∀ input ∈ inputs, input.1 = true → ∀ identity, input.2.identity = some identity →
      matters identity)
    (hharmless : Harmless limits matters (markedRun crypto limits state inputs))
    (hcounts : ∀ turn ∈ markedRun crypto limits state inputs,
      ∀ task ∈ turn.before.acting true turn.input, task.Ignores limits dropped) :
    let run := markedRun crypto limits state inputs
    (∀ identity, matters identity → seenKept limits identity run =
      seen limits identity (serverRun crypto limits server (keptEvents run))) ∧
    ∃ dropped, Linked matters (final (Marked.step crypto limits) state inputs)
      (final (Server.step crypto limits) server (keptEvents run)) dropped := by
  induction inputs generalizing state server dropped with
  | nil => exact ⟨fun identity _ => rfl, dropped, h⟩
  | cons input inputs ih =>
    dsimp only at ih ⊢
    rw [markedRun_cons] at hharmless hcounts ⊢
    obtain ⟨hpairs, hscores⟩ := hharmless
    rw [List.pairwise_cons] at hpairs
    rw [List.forall_mem_cons] at hscores hcounts hmatters
    have hrest : Harmless limits matters _ := ⟨hpairs.2, hscores.2⟩
    cases hkeeps : state.keeps input with
    | true =>
      obtain ⟨hlinked, hsight⟩ := h.kept crypto limits hkeeps (identity_matters hkeeps hmatters.1)
        hcounts.1
      obtain ⟨hseen, hfinal⟩ := ih hlinked hmatters.2 hrest hcounts.2
      rw [keptEvents_cons, if_pos hkeeps]
      refine ⟨fun identity hidentity => ?_, hfinal⟩
      rw [seenKept_cons, if_pos hkeeps, serverRun, transcript_cons, seen_cons,
        hseen identity hidentity]
      exact congrArg (fun first => first.toList ++ _) (hsight identity hidentity)
    | false =>
      have hlinked := h.unkept crypto limits hkeeps hscores.1
      have hpast : ∀ turn ∈ markedRun crypto limits (state.step crypto limits input).2 inputs,
          ∀ task ∈ turn.before.acting true turn.input,
            task.Ignores limits (dropped ++ (state.acting false input).elim [] Task.logged) := by
        intro turn hturn task htask hphase row hrow hidentity
        rcases List.mem_append.mp hrow with hold | hnew
        · exact hcounts.2 turn hturn task htask hphase row hold hidentity
        · cases hacting : state.acting false input with
          | none => simp [hacting] at hnew
          | some logging =>
            rw [hacting] at hnew
            exact hpairs.1 turn hturn logging hacting row hnew task htask hphase hidentity
      obtain ⟨hseen, hfinal⟩ := ih hlinked hmatters.2 hrest hpast
      rw [keptEvents_cons, if_neg (by simp [hkeeps])]
      refine ⟨fun identity hidentity => ?_, hfinal⟩
      rw [seenKept_cons, if_neg (by simp [hkeeps]), hseen identity hidentity]

end Runs

section Identities
variable {crypto : BridgeCrypto} {limits : RateLimitConfig} {identity : String}

/-- The server with the requests of one identity marked. -/
def Server.marked (identity : String) (server : Server) : Marked :=
  ⟨server, server.tasks.map fun task => task.identity = identity⟩

def Event.marked (identity : String) (event : Event) : Bool × Event :=
  (event.identity = some identity, event)

def BridgeTurn.marked (identity : String) (turn : BridgeTurn) : MarkedTurn :=
  ⟨turn.before.marked identity, turn.input.marked identity, turn.outcome,
    turn.after.marked identity⟩

/-- The events of the requests of an identity, numbered among themselves. -/
def ownEvents (identity : String) (run : List BridgeTurn) : List Event :=
  (run.filter (BridgeTurn.concerns identity)).map fun turn =>
    (turn.before.marked identity).renumbered turn.input

theorem marks_set {tasks : List Task} {index : ℕ} {task : Task} (hget : tasks[index]? = some task)
    (phase : Phase) :
    ((tasks.set index (task.at phase)).map fun task => decide (task.identity = identity)) =
      tasks.map fun task => decide (task.identity = identity) := by
  obtain ⟨hlt, rfl⟩ := List.getElem?_eq_some_iff.mp hget
  have hself := congrArg (List.map fun task => decide (task.identity = identity))
    (List.set_getElem_self hlt)
  rw [List.map_set] at hself ⊢
  exact hself

theorem marked_step (server : Server) (event : Event) :
    (server.marked identity).step crypto limits (event.marked identity) =
      ((server.step crypto limits event).1,
        (server.step crypto limits event).2.marked identity) := by
  rw [Marked.step, Server.marked, Event.marked]
  dsimp only
  generalize hnext : server.step crypto limits event = next
  cases step_case hnext with
  | refused err harrival => simp [harrival, Server.marked]
  | arrived task harrival => simp [harrival, identity_of_arrival harrival, Server.marked]
  | advanced index task haction hget =>
    obtain ⟨phase, hphase⟩ := same_request crypto limits server.db task event.clock
    rw [arrival_of_statement (.inl haction), hphase, Server.marked, marks_set hget]
  | failed index task haction hget =>
    rw [arrival_of_statement (.inr haction), Server.marked, marks_set hget]
  | idle index haction hget => rw [arrival_of_statement haction, Server.marked]

theorem markedRun_marked (start : Server) (events : List Event) :
    markedRun crypto limits (start.marked identity) (events.map (Event.marked identity)) =
      (serverRun crypto limits start events).map (BridgeTurn.marked identity) := by
  induction events generalizing start with
  | nil => rfl
  | cons event events ih =>
    rw [List.map_cons, markedRun_cons, marked_step, ih]
    rfl

theorem keeps_marked (turn : BridgeTurn) :
    (turn.before.marked identity).keeps (turn.input.marked identity) = turn.concerns identity := by
  have hmark : ∀ index : ℕ, decide ((turn.before.marked identity).marks[index]? = some true) =
      turn.before.tasks[index]?.any fun task : Task => task.identity = identity := by
    intro index
    rw [Server.marked, List.getElem?_map]
    cases turn.before.tasks[index]? <;> simp
  unfold Marked.keeps BridgeTurn.concerns
  rw [Event.marked]
  cases turn.input.action with
  | advance index => exact hmark index
  | fail index => exact hmark index
  | _ => rfl

theorem keptEvents_marked (start : Server) (events : List Event) :
    keptEvents ((serverRun crypto limits start events).map (BridgeTurn.marked identity)) =
      ownEvents identity (serverRun crypto limits start events) := by
  rw [keptEvents, ownEvents, List.filter_map, List.map_map]
  simp only [Function.comp_def, BridgeTurn.marked, keeps_marked]
  rfl

theorem seenKept_marked (start : Server) (events : List Event) :
    seenKept limits identity ((serverRun crypto limits start events).map
      (BridgeTurn.marked identity)) =
      seen limits identity (serverRun crypto limits start events) := by
  rw [seenKept, seen, List.filter_map, List.filterMap_map, List.filterMap_filter]
  refine List.filterMap_congr fun turn _ => ?_
  simp only [Function.comp_def, BridgeTurn.marked, keeps_marked]
  split_ifs with hconcerns
  · rfl
  · rw [sight, if_neg hconcerns]

/-- Two servers that an identity cannot tell apart. -/
structure SameView (identity : String) (server server' : Server) : Prop where
  tasks : (server.tasks.filter fun task => task.identity = identity) =
    server'.tasks.filter fun task => task.identity = identity
  rows : server.db.rowsOf identity = server'.db.rowsOf identity
  score : server.db.score identity = server'.db.score identity

theorem linked_marked {server server' : Server} (h : SameView identity server server') :
    Linked (fun other => other = identity) (server.marked identity)
      ⟨server'.db, server'.tasks.filter fun task => task.identity = identity⟩ [] where
  lengths := by simp [Server.marked]
  tasks := by rw [← h.tasks, Server.marked, select_map]
  known := by
    intro index task hmark hget
    have hget : server.tasks[index]? = some task := hget
    rw [Server.marked, List.getElem?_map, hget] at hmark
    simpa using hmark
  rows := by
    rintro other rfl
    simp [Server.marked, h.rows]
  scores := by
    rintro other rfl
    exact h.score

theorem acting_marked {server : Server} {event : Event} {mark : Bool} {task : Task}
    (h : task ∈ (server.marked identity).acting mark (event.marked identity)) :
    decide (task.identity = identity) = mark := by
  unfold Marked.acting at h
  rw [Event.marked] at h
  cases haction : event.action with
  | advance index =>
    rw [haction] at h
    rw [Option.mem_def, Option.ite_none_right_eq_some] at h
    obtain ⟨hmark, hget⟩ := h
    have hget : server.tasks[index]? = some task := hget
    rw [Server.marked, List.getElem?_map, hget] at hmark
    exact Option.some.inj hmark
  | _ =>
    rw [haction] at h
    cases h

theorem harmless_marked (run : List BridgeTurn) :
    Harmless limits (fun other => other = identity) (run.map (BridgeTurn.marked identity)) where
  counts := by
    rw [List.pairwise_map]
    refine List.pairwise_of_forall fun earlier later => ?_
    intro dropped hdropped row hrow kept hkept hphase hidentity
    have hother := acting_marked hdropped
    have hown := acting_marked hkept
    have hlogged : row.identity = dropped.identity := by
      unfold Task.logged at hrow
      split at hrow
      · rw [List.mem_singleton.mp hrow]
        rfl
      · cases hrow
    rw [decide_eq_true_eq] at hown
    rw [← hlogged, hidentity, hown] at hother
    simp at hother
  scores := by
    intro turn hturn dropped hdropped hidentity
    obtain ⟨plain, -, rfl⟩ := List.mem_map.mp hturn
    have hother := acting_marked hdropped
    simp [hidentity] at hother

/-- What an identity sees in a run is what its own requests alone make of its own
part of the state. -/
theorem seen_eq_own {start start' : Server} (hview : SameView identity start start')
    (events : List Event) :
    seen limits identity (serverRun crypto limits start events) =
      seen limits identity (serverRun crypto limits
        ⟨start'.db, start'.tasks.filter fun task => task.identity = identity⟩
        (ownEvents identity (serverRun crypto limits start events))) := by
  have hmatters : ∀ input ∈ events.map (Event.marked identity), input.1 = true →
      ∀ other, input.2.identity = some other → other = identity := by
    intro input hinput hmark other hother
    obtain ⟨event, -, rfl⟩ := List.mem_map.mp hinput
    rw [Event.marked, decide_eq_true_eq] at hmark
    exact Option.some.inj (hother.symm.trans hmark)
  have hharmless : Harmless limits (fun other => other = identity) (markedRun crypto limits
      (start.marked identity) (events.map (Event.marked identity))) := by
    rw [markedRun_marked]
    exact harmless_marked _
  have hseen := ((linked_marked hview).run hmatters hharmless (by simp [Task.Ignores])).1
    identity rfl
  rw [markedRun_marked, seenKept_marked, keptEvents_marked] at hseen
  exact hseen

/-- Runs with the same events of one identity look the same to it. -/
theorem identities_isolated {start start' : Server} {events events' : List Event}
    (hview : SameView identity start start')
    (hown : ownEvents identity (serverRun crypto limits start events) =
      ownEvents identity (serverRun crypto limits start' events')) :
    seen limits identity (serverRun crypto limits start events) =
      seen limits identity (serverRun crypto limits start' events') := by
  rw [seen_eq_own hview, hown, ← seen_eq_own ⟨rfl, rfl, rfl⟩]

/-- A request of another identity that runs in between changes the reputation of
that identity and nothing else. -/
theorem isolated_from_rating :
    let start : Server := ⟨sampleServer.db, [sampleTask .counting]⟩
    let start' : Server := ⟨sampleServer.db, [ratingTask (.ok ()), sampleTask .counting]⟩
    let events := ratingEvents [0, 0]
    let events' := ratingEvents [0, 1, 0, 1]
    (final (Server.step sampleBridgeCrypto {}) start events).db.score "aa" = 0 ∧
    (final (Server.step sampleBridgeCrypto {}) start' events').db.score "aa" = 1 ∧
    seen {} sampleIdentity (serverRun sampleBridgeCrypto {} start events) =
      seen {} sampleIdentity (serverRun sampleBridgeCrypto {} start' events') := by
  have hother : "aa" ≠ sampleIdentity := by decide
  refine ⟨by decide, by decide, identities_isolated ⟨?_, rfl, rfl⟩ rfl⟩
  simp [ratingTask, hother]

end Identities

end Spex.Bridge
