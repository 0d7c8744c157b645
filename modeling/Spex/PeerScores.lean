import Spex.Timers
import Spex.Transcript

/-!
# Scores of peers

A node keeps a score and three counters for every peer that was reported to it, and
bans a peer for a fixed time when a penalty leaves the score or a counter at its
threshold. Scores recover with time and with successful interactions.

Instants are nanoseconds below `instantLimit`. Scores are `i32` and counters `u32`;
a computation that leaves their range, or the range of instants, is a panic.
-/
namespace Spex.P2p
open Timers Transcript

inductive PeerReputationState where
  | neutral
  | probation
  | banned
  deriving DecidableEq, Repr

/-- The record of a peer, with its times in nanoseconds. -/
structure PeerScore where
  score : ℤ
  timeoutPenalties : ℕ
  invalidPayloadPenalties : ℕ
  inconsistentResponsePenalties : ℕ
  probationUntil : Option ℕ
  bannedUntil : Option ℕ
  lastDecayAt : ℕ
  deriving DecidableEq, Repr

/-- The part of the node's configuration that rules its scores, with the defaults. -/
structure ReputationConfig where
  peerBanDuration : ℕ := 30 * second
  peerProbationDuration : ℕ := 20 * second
  scoreRecoveryPerMinute : ℤ := 4
  probationScoreThreshold : ℤ := -35
  banScoreThreshold : ℤ := -70
  probationClearScore : ℤ := -25
  invalidPayloadBanThreshold : ℕ := 2
  inconsistentResponseBanThreshold : ℕ := 4
  deriving DecidableEq, Repr

/-- The record of every known peer. -/
abbrev PeerScores (Peer : Type) := Peer → Option PeerScore

section Arithmetic

def checkedI32 (n : ℤ) : Option ℤ := if -2 ^ 31 ≤ n ∧ n < 2 ^ 31 then some n else none

/-- `+= 1` on a `u32`. -/
def checkedSucc (n : ℕ) : Option ℕ := if n + 1 < 2 ^ 32 then some (n + 1) else none

/-- The conversion `as i32`. -/
def asI32 (n : ℕ) : ℤ := Int.bmod n (2 ^ 32)

/-- `Instant + Duration`, which panics if the sum is not an instant. -/
def instantAdd (instantLimit instant duration : ℕ) : Option ℕ :=
  if instant + duration < instantLimit then some (instant + duration) else none

end Arithmetic

section Scores

def PeerScore.neutral (now : ℕ) : PeerScore := ⟨0, 0, 0, 0, none, none, now⟩

/-- A ban goes before probation. -/
def classifyPeerReputationState (state : PeerScore) (now : ℕ) : PeerReputationState :=
  if running state.bannedUntil now then .banned
  else if running state.probationUntil now then .probation
  else .neutral

/-- The whole seconds since the last decay. -/
def PeerScore.elapsedSecs (state : PeerScore) (now : ℕ) : ℕ :=
  wholeSeconds (now - state.lastDecayAt)

/-- Whole points of recovery are added, up to a score of 20. -/
def applyScoreDecay (state : PeerScore) (now : ℕ) (recoveryPerMinute : ℤ) : Option PeerScore :=
  if state.elapsedSecs now = 0 ∨ recoveryPerMinute ≤ 0 then some state
  else do
    let product ← checkedI32 (asI32 (state.elapsedSecs now) * recoveryPerMinute)
    let recovered := product.tdiv 60
    if 0 < recovered then
      let score ← checkedI32 (state.score + recovered)
      return { state with score := min score 20, lastDecayAt := now }
    else return state

inductive Penalty where
  | timeout
  | invalidPayload
  | inconsistentResponse
  deriving DecidableEq, Repr

/-- The counter of a kind of penalty. -/
def PeerScore.penalties (state : PeerScore) : Penalty → ℕ
  | .timeout => state.timeoutPenalties
  | .invalidPayload => state.invalidPayloadPenalties
  | .inconsistentResponse => state.inconsistentResponsePenalties

/-- Each kind of penalty has a counter. -/
def countPenalty (kind : Penalty) (state : PeerScore) : Option PeerScore :=
  match kind with
  | .timeout => (checkedSucc state.timeoutPenalties).map fun count =>
    { state with timeoutPenalties := count }
  | .invalidPayload => (checkedSucc state.invalidPayloadPenalties).map fun count =>
    { state with invalidPayloadPenalties := count }
  | .inconsistentResponse => (checkedSucc state.inconsistentResponsePenalties).map fun count =>
    { state with inconsistentResponsePenalties := count }

variable (config : ReputationConfig) (instantLimit : ℕ)

/-- What makes a penalty a ban. -/
def ReputationConfig.reachedBanThreshold (state : PeerScore) : Prop :=
  state.score ≤ config.banScoreThreshold ∨
    config.invalidPayloadBanThreshold ≤ state.invalidPayloadPenalties ∨
    config.inconsistentResponseBanThreshold ≤ state.inconsistentResponsePenalties

instance (state : PeerScore) : Decidable (config.reachedBanThreshold state) :=
  inferInstanceAs (Decidable (_ ∨ _ ∨ _))

/-- The timers that a penalty sets. -/
def enforcePolicy (state : PeerScore) (now : ℕ) : Option PeerScore :=
  if config.reachedBanThreshold state then do
    let bannedUntil ← instantAdd instantLimit now config.peerBanDuration
    return { state with bannedUntil := some bannedUntil, probationUntil := none }
  else if state.score ≤ config.probationScoreThreshold then do
    let probationUntil ← instantAdd instantLimit now config.peerProbationDuration
    return { state with probationUntil := some probationUntil }
  else some state

variable {Peer : Type} [DecidableEq Peer]

/-- A penalty at an instant; a peer without a record gets a neutral one, created
right after that. The answer is the change of the peer's standing, if there is one,
and the scores; a panic is `none`. -/
def applyPenalty (scores : PeerScores Peer) (peer : Peer) (penalty : ℤ)
    (mutate : PeerScore → Option PeerScore) (now created : ℕ) :
    Option (Option (PeerReputationState × PeerReputationState) × PeerScores Peer) := do
  let state := (scores peer).getD (.neutral created)
  let previousState := classifyPeerReputationState state now
  let state ← applyScoreDecay state now config.scoreRecoveryPerMinute
  let score ← checkedI32 (state.score - penalty)
  let state ← mutate { state with score }
  let state ← enforcePolicy config instantLimit state now
  let currentState := classifyPeerReputationState state now
  let transition :=
    if previousState = currentState then none else some (previousState, currentState)
  return (transition, Function.update scores peer (some state))

def reportTimeout (scores : PeerScores Peer) (peer : Peer) :=
  applyPenalty config instantLimit scores peer 8 (countPenalty .timeout)

def reportInvalidPayload (scores : PeerScores Peer) (peer : Peer) :=
  applyPenalty config instantLimit scores peer 30 (countPenalty .invalidPayload)

def reportInconsistentResponse (scores : PeerScores Peer) (peer : Peer) :=
  applyPenalty config instantLimit scores peer 18 (countPenalty .inconsistentResponse)

/-- A good score ends probation, and never a ban. -/
def reportSuccessfulInteraction (scores : PeerScores Peer) (peer : Peer) (created : ℕ) :
    Option (PeerScores Peer) := do
  let state := (scores peer).getD (.neutral created)
  let score ← checkedI32 (state.score + 6)
  let state := { state with score := min score 20 }
  let state := if config.probationClearScore < state.score then
    { state with probationUntil := none } else state
  return Function.update scores peer (some state)

/-- When the ban of a peer ends, if it has one. -/
def banEnd (scores : PeerScores Peer) (peer : Peer) : Option ℕ :=
  (scores peer).bind PeerScore.bannedUntil

/-- The ban is still running. -/
def isPeerBanned (scores : PeerScores Peer) (peer : Peer) (now : ℕ) : Bool :=
  running (banEnd scores peer) now

/-- A report about a peer at an instant; `created` is the instant that a new record
is given. -/
structure Report (Peer : Type) where
  peer : Peer
  penalty : Option Penalty
  now : ℕ
  created : ℕ

/-- A panic is no result. -/
def performReport (scores : PeerScores Peer) (report : Report Peer) :
    Option (Option (PeerReputationState × PeerReputationState) × PeerScores Peer) :=
  match report.penalty with
  | some .timeout =>
    reportTimeout config instantLimit scores report.peer report.now report.created
  | some .invalidPayload =>
    reportInvalidPayload config instantLimit scores report.peer report.now report.created
  | some .inconsistentResponse =>
    reportInconsistentResponse config instantLimit scores report.peer report.now report.created
  | none => (reportSuccessfulInteraction config scores report.peer report.created).map (none, ·)

/-- What a report answers, `none` for a panic, and the scores it leaves behind. -/
def handleReport (scores : PeerScores Peer) (report : Report Peer) :
    Option (Option (PeerReputationState × PeerReputationState)) × PeerScores Peer :=
  match performReport config instantLimit scores report with
  | some (transition, scores) => (some transition, scores)
  | none => (none, scores)

end Scores

section Steps
variable {config : ReputationConfig} {instantLimit : ℕ} {Peer : Type} [DecidableEq Peer]
  {state state' : PeerScore} {now : ℕ}

/-- The counters do not depend on the score and the timers. -/
theorem penalties_eq (state : PeerScore) (score : ℤ) (probationUntil bannedUntil : Option ℕ)
    (lastDecayAt : ℕ) :
    PeerScore.penalties { state with score, probationUntil, bannedUntil, lastDecayAt } =
      state.penalties := by
  funext kind
  cases kind <;> rfl

theorem applyScoreDecay_keeps {recoveryPerMinute : ℤ}
    (h : applyScoreDecay state now recoveryPerMinute = some state') :
    state'.penalties = state.penalties ∧ state'.bannedUntil = state.bannedUntil := by
  unfold applyScoreDecay at h
  dsimp only at h
  split_ifs at h with hnone
  · obtain rfl := Option.some.inj h
    exact ⟨rfl, rfl⟩
  · obtain ⟨product, -, h⟩ := Option.bind_eq_some_iff.mp h
    split_ifs at h with hrecovered
    · obtain ⟨score, -, h⟩ := Option.bind_eq_some_iff.mp h
      obtain rfl := Option.some.inj h
      exact ⟨penalties_eq state _ _ _ _, rfl⟩
    · obtain rfl := Option.some.inj h
      exact ⟨rfl, rfl⟩

theorem instantAdd_eq_some {instant duration sum : ℕ}
    (h : instantAdd instantLimit instant duration = some sum) : sum = instant + duration := by
  unfold instantAdd at h
  split_ifs at h
  exact (Option.some.inj h).symm

/-- A ban is set exactly if the threshold is reached. -/
theorem enforcePolicy_sets (h : enforcePolicy config instantLimit state now = some state') :
    state'.score = state.score ∧ state'.penalties = state.penalties ∧
      state'.bannedUntil = if config.reachedBanThreshold state' then
        some (now + config.peerBanDuration) else state.bannedUntil := by
  unfold enforcePolicy at h
  split_ifs at h with hreached hprobation
  · obtain ⟨bannedUntil, hadd, h⟩ := Option.bind_eq_some_iff.mp h
    obtain rfl := instantAdd_eq_some hadd
    obtain rfl := Option.some.inj h
    exact ⟨rfl, penalties_eq state _ _ _ _, (if_pos hreached).symm⟩
  · obtain ⟨probationUntil, -, h⟩ := Option.bind_eq_some_iff.mp h
    obtain rfl := Option.some.inj h
    exact ⟨rfl, penalties_eq state _ _ _ _, (if_neg hreached).symm⟩
  · obtain rfl := Option.some.inj h
    exact ⟨rfl, rfl, (if_neg hreached).symm⟩

/-- What a report of a kind makes of the record of its peer. -/
structure Follows (config : ReputationConfig) (penalty : Option Penalty) (now : ℕ)
    (state state' : PeerScore) : Prop where
  penalties : ∀ kind,
    state'.penalties kind = state.penalties kind + if penalty = some kind then 1 else 0
  bannedUntil : state'.bannedUntil = if penalty.isSome ∧ config.reachedBanThreshold state' then
    some (now + config.peerBanDuration) else state.bannedUntil

variable {scores scores' : PeerScores Peer} {peer : Peer} {created : ℕ}
  {transition : Option (PeerReputationState × PeerReputationState)}

theorem checkedSucc_eq_some {n m : ℕ} (h : checkedSucc n = some m) : m = n + 1 := by
  unfold checkedSucc at h
  split_ifs at h
  exact (Option.some.inj h).symm

theorem countPenalty_counts {kind : Penalty} (h : countPenalty kind state = some state') :
    state'.bannedUntil = state.bannedUntil ∧
      ∀ other, state'.penalties other = state.penalties other + if kind = other then 1 else 0 := by
  cases kind <;>
  · obtain ⟨count, hsucc, rfl⟩ := Option.map_eq_some_iff.mp h
    obtain rfl := checkedSucc_eq_some hsucc
    exact ⟨rfl, fun other => by cases other <;> rfl⟩

theorem applyPenalty_follows {points : ℤ} {kind : Penalty}
    (h : applyPenalty config instantLimit scores peer points (countPenalty kind) now created =
      some (transition, scores')) :
    ∃ state, scores' = Function.update scores peer (some state) ∧
      Follows config (some kind) now ((scores peer).getD (.neutral created)) state := by
  obtain ⟨decayed, hdecay, h⟩ := Option.bind_eq_some_iff.mp h
  obtain ⟨score, -, h⟩ := Option.bind_eq_some_iff.mp h
  obtain ⟨counted, hcounted, h⟩ := Option.bind_eq_some_iff.mp h
  obtain ⟨state, henforced, h⟩ := Option.bind_eq_some_iff.mp h
  obtain ⟨-, rfl⟩ := Prod.mk.inj (Option.some.inj h)
  obtain ⟨hdecayed, hkept⟩ := applyScoreDecay_keeps hdecay
  obtain ⟨hban, hcount⟩ := countPenalty_counts hcounted
  obtain ⟨-, hpenalties, henforced⟩ := enforcePolicy_sets henforced
  refine ⟨state, rfl, ?_, ?_⟩
  · intro other
    rw [hpenalties, hcount, penalties_eq decayed, hdecayed]
    simp
  · rw [henforced, hban, hkept]
    simp

theorem reportSuccessfulInteraction_keeps
    (h : reportSuccessfulInteraction config scores peer created = some scores') :
    ∃ state, scores' = Function.update scores peer (some state) ∧
      state.penalties = ((scores peer).getD (.neutral created)).penalties ∧
      state.bannedUntil = ((scores peer).getD (.neutral created)).bannedUntil := by
  obtain ⟨score, -, h⟩ := Option.bind_eq_some_iff.mp h
  refine ⟨_, (Option.some.inj h).symm, ?_⟩
  split_ifs
  · exact ⟨penalties_eq _ _ _ _ _, rfl⟩
  · exact ⟨penalties_eq _ _ _ _ _, rfl⟩

theorem performReport_follows {report : Report Peer}
    (h : performReport config instantLimit scores report = some (transition, scores')) :
    ∃ state, scores' = Function.update scores report.peer (some state) ∧
      Follows config report.penalty report.now
        ((scores report.peer).getD (.neutral report.created)) state := by
  obtain ⟨peer, penalty, now, created⟩ := report
  cases penalty with
  | none =>
    obtain ⟨_, hsuccess, heq⟩ := Option.map_eq_some_iff.mp h
    obtain ⟨-, rfl⟩ := Prod.mk.inj heq
    obtain ⟨state, rfl, hpenalties, hban⟩ := reportSuccessfulInteraction_keeps hsuccess
    refine ⟨state, rfl, ?_, ?_⟩
    · intro kind
      simp [hpenalties]
    · simp [hban]
  | some kind =>
    cases kind with
    | timeout => exact applyPenalty_follows h
    | invalidPayload => exact applyPenalty_follows h
    | inconsistentResponse => exact applyPenalty_follows h

end Steps

abbrev ReportTurn (Peer : Type) :=
  Turn (PeerScores Peer) (Report Peer) (Option (Option (PeerReputationState × PeerReputationState)))

section Runs
variable {Peer : Type} [DecidableEq Peer] {config : ReputationConfig} {instantLimit : ℕ}
  {turn : ReportTurn Peer} {reports : List (Report Peer)}

/-- The counter of a peer, which is zero if it has no record. -/
def penaltyCount (scores : PeerScores Peer) (peer : Peer) (kind : Penalty) : ℕ :=
  (scores peer).elim 0 (·.penalties kind)

variable (config instantLimit) in
/-- The turns of a run of reports on a node that has no record of any peer. -/
def reportRun (reports : List (Report Peer)) : List (ReportTurn Peer) :=
  transcript (handleReport config instantLimit) (fun _ => none) reports

variable (config instantLimit) in
/-- The scores after a run of reports. -/
def scoresAfter (reports : List (Report Peer)) : PeerScores Peer :=
  final (handleReport config instantLimit) (fun _ => none) reports

variable (config) in
/-- A penalty for a peer that leaves it at the threshold of a ban. -/
def bans (peer : Peer) (turn : ReportTurn Peer) : Bool :=
  turn.outcome.isSome && turn.input.peer = peer && turn.input.penalty.isSome &&
    (turn.after peer).any fun state => config.reachedBanThreshold state

/-- The turn has counted a penalty of the peer. -/
def counted (peer : Peer) (kind : Penalty) (turn : ReportTurn Peer) : Bool :=
  turn.outcome.isSome && turn.input.peer = peer && turn.input.penalty = some kind

variable (config instantLimit) in
def turnOf (scores : PeerScores Peer) (report : Report Peer) : ReportTurn Peer :=
  ⟨scores, report, (handleReport config instantLimit scores report).1,
    (handleReport config instantLimit scores report).2⟩

omit [DecidableEq Peer] in
theorem banEnd_eq (scores : PeerScores Peer) (peer : Peer) (created : ℕ) :
    banEnd scores peer = ((scores peer).getD (.neutral created)).bannedUntil := by
  unfold banEnd
  cases scores peer <;> rfl

omit [DecidableEq Peer] in
theorem penaltyCount_eq (scores : PeerScores Peer) (peer : Peer) (created : ℕ) (kind : Penalty) :
    penaltyCount scores peer kind = ((scores peer).getD (.neutral created)).penalties kind := by
  unfold penaltyCount
  cases scores peer with
  | none => cases kind <;> rfl
  | some state => rfl

variable (config instantLimit) in
/-- A report changes the record of its own peer only. -/
theorem turn_spec (scores : PeerScores Peer) (report : Report Peer) (peer : Peer) :
    let turn := turnOf config instantLimit scores report
    banEnd turn.after peer = (if bans config peer turn then
        some (report.now + config.peerBanDuration) else banEnd scores peer) ∧
      ∀ kind, penaltyCount turn.after peer kind =
        penaltyCount scores peer kind + if counted peer kind turn then 1 else 0 := by
  intro turn
  have hturn : turn = turnOf config instantLimit scores report := rfl
  unfold turnOf handleReport at hturn
  cases hperform : performReport config instantLimit scores report with
  | none =>
    simp only [hperform] at hturn
    simp [hturn, bans, counted]
  | some result =>
    obtain ⟨transition, after⟩ := result
    obtain ⟨state, rfl, hfollows⟩ := performReport_follows hperform
    simp only [hperform] at hturn
    by_cases hpeer : report.peer = peer
    · subst hpeer
      constructor
      · rw [banEnd_eq scores _ report.created]
        simpa [hturn, bans, banEnd] using hfollows.bannedUntil
      · intro kind
        rw [penaltyCount_eq scores _ report.created]
        simpa [hturn, counted, penaltyCount] using hfollows.penalties kind
    · simp [hturn, bans, counted, hpeer, banEnd, penaltyCount, Ne.symm hpeer]

variable (config instantLimit) in
/-- The record of a peer after a run, from the turns of the run. -/
theorem scoresAfter_spec (reports : List (Report Peer)) (peer : Peer) :
    banEnd (scoresAfter config instantLimit reports) peer =
        deadline config.peerBanDuration
          (((reportRun config instantLimit reports).filter (bans config peer)).map (·.input.now)) ∧
      ∀ kind, penaltyCount (scoresAfter config instantLimit reports) peer kind =
        (reportRun config instantLimit reports).countP (counted peer kind) := by
  refine history (fun past scores => banEnd scores peer = deadline config.peerBanDuration
      ((past.filter (bans config peer)).map (·.input.now)) ∧
    ∀ kind, penaltyCount scores peer kind = past.countP (counted peer kind)) ?_ ?_
  · simp [banEnd, deadline, penaltyCount]
  · intro past scores report hpast
    obtain ⟨hban, hcount⟩ := hpast
    obtain ⟨hban', hcount'⟩ := turn_spec config instantLimit scores report peer
    constructor
    · show banEnd (turnOf config instantLimit scores report).after peer =
        deadline config.peerBanDuration
          (((past ++ [turnOf config instantLimit scores report]).filter (bans config peer)).map
            (·.input.now))
      rw [hban', List.filter_append, List.map_append, hban]
      split_ifs with hbans
      · rw [List.filter_cons_of_pos hbans]
        simp [deadline, turnOf]
      · rw [List.filter_cons_of_neg hbans]
        simp
    · intro kind
      rw [List.countP_append, ← hcount, List.countP_singleton]
      exact hcount' kind

theorem bans_iff {peer : Peer} : bans config peer turn = true ↔
    turn.outcome ≠ none ∧ turn.input.peer = peer ∧ turn.input.penalty ≠ none ∧
      ∃ state, turn.after peer = some state ∧ config.reachedBanThreshold state := by
  simp [bans, Option.isSome_iff_ne_none, Option.any_eq_true, and_assoc]

variable (config instantLimit) in
/-- The bans of a run are in the order of their instants. -/
theorem sorted_bans (hclock : reports.Pairwise fun report later => report.now ≤ later.now)
    (peer : Peer) :
    (((reportRun config instantLimit reports).filter (bans config peer)).map
      (·.input.now)).Pairwise (· ≤ ·) := by
  rw [List.pairwise_map]
  exact (pairwise_input.mpr hclock).filter _

theorem turnOf_of_mem (hturn : turn ∈ reportRun config instantLimit reports) :
    turnOf config instantLimit turn.before turn.input = turn := by
  rw [turnOf, step_of_mem hturn]

/-- No report brings the end of a ban forward. -/
theorem banEnd_le_of_mem (hclock : reports.Pairwise fun report later => report.now ≤ later.now)
    {peer : Peer} (hturn : turn ∈ reportRun config instantLimit reports) {until_ : ℕ}
    (huntil : banEnd turn.before peer = some until_) :
    ∃ until', banEnd turn.after peer = some until' ∧ until_ ≤ until' := by
  have hstep := (turn_spec config instantLimit turn.before turn.input peer).1
  rw [turnOf_of_mem hturn] at hstep
  split_ifs at hstep with hbans
  · refine ⟨_, hstep, ?_⟩
    obtain ⟨past, rest, hreports, hbefore⟩ := split_of_mem hturn
    rw [hreports, List.pairwise_append] at hclock
    have hban := (scoresAfter_spec config instantLimit past peer).1
    rw [scoresAfter, ← hbefore, huntil] at hban
    refine deadline_le ?_ hban.symm
    intro alarm halarm
    obtain ⟨earlier, hearlier, rfl⟩ := List.mem_map.mp halarm
    exact hclock.2.2 _ (input_mem (List.mem_of_mem_filter hearlier)) _ (by simp)
  · exact ⟨until_, hstep.trans huntil, le_rfl⟩

/-- In every run of reports at non-decreasing instants that does not panic, a peer is
banned exactly while the time of a ban lasts that a penalty has set, no report brings
the end of a ban forward, and the counters count the reports. -/
theorem banned_iff_recent_ban (config : ReputationConfig) (instantLimit : ℕ)
    (reports : List (Report Peer))
    (hclock : reports.Pairwise fun report later => report.now ≤ later.now)
    (hsound : ∀ turn ∈ reportRun config instantLimit reports, turn.outcome ≠ none) (peer : Peer) :
    (∀ t, (∀ report ∈ reports, report.now ≤ t) →
      (isPeerBanned (scoresAfter config instantLimit reports) peer t = true ↔
        ∃ turn ∈ reportRun config instantLimit reports,
          turn.input.peer = peer ∧ turn.input.penalty ≠ none ∧
          turn.input.now ≤ t ∧ t < turn.input.now + config.peerBanDuration ∧
          ∃ state, turn.after peer = some state ∧
            (state.score ≤ config.banScoreThreshold ∨
              config.invalidPayloadBanThreshold ≤ state.invalidPayloadPenalties ∨
              config.inconsistentResponseBanThreshold ≤ state.inconsistentResponsePenalties))) ∧
    (∀ turn ∈ reportRun config instantLimit reports, ∀ until_ ∈ banEnd turn.before peer,
      ∃ until' ∈ banEnd turn.after peer, until_ ≤ until') ∧
    ∀ kind, penaltyCount (scoresAfter config instantLimit reports) peer kind =
      reports.countP fun report => report.peer = peer ∧ report.penalty = some kind := by
  obtain ⟨hban, hcount⟩ := scoresAfter_spec config instantLimit reports peer
  refine ⟨?_, fun turn hturn until_ huntil => banEnd_le_of_mem hclock hturn huntil, ?_⟩
  · intro t hlast
    rw [isPeerBanned, hban, running_deadline (sorted_bans config instantLimit hclock peer)]
    constructor
    · rintro ⟨_, halarm, hrunning⟩
      obtain ⟨turn, hturn, rfl⟩ := List.mem_map.mp halarm
      obtain ⟨hmem, hbans⟩ := List.mem_filter.mp hturn
      obtain ⟨-, hpeer, hpenalty, hreached⟩ := bans_iff.mp hbans
      exact ⟨turn, hmem, hpeer, hpenalty, hlast _ (input_mem hmem), hrunning, hreached⟩
    · rintro ⟨turn, hmem, hpeer, hpenalty, -, hrunning, hreached⟩
      have hbans := bans_iff.mpr ⟨hsound turn hmem, hpeer, hpenalty, hreached⟩
      exact ⟨_, List.mem_map_of_mem (List.mem_filter.mpr ⟨hmem, hbans⟩), hrunning⟩
  · intro kind
    have hinputs : (reportRun config instantLimit reports).map Turn.input = reports :=
      map_input _ _
    have hcounted : (reports.countP fun report => report.peer = peer ∧ report.penalty = some kind) =
        (reportRun config instantLimit reports).countP fun turn =>
          turn.input.peer = peer ∧ turn.input.penalty = some kind := by
      conv_lhs => rw [← hinputs, List.countP_map]
      rfl
    rw [hcount, hcounted]
    refine List.countP_congr fun turn hturn => ?_
    have hanswer := hsound turn hturn
    simp [counted, Option.isSome_iff_ne_none, hanswer]

end Runs

section Sample

/-- Two invalid payloads a minute apart and a success in between, on a clock whose
seconds are an `i64`. -/
def sampleReports : List (Report ℕ) :=
  [⟨1, some .invalidPayload, 0, 0⟩, ⟨1, none, 30 * second, 30 * second⟩,
    ⟨1, some .invalidPayload, 60 * second, 60 * second⟩]

theorem second_invalid_payload_bans :
    (∃ turn ∈ reportRun {} (2 ^ 63 * second) sampleReports,
      turn.input.peer = 1 ∧ turn.input.penalty ≠ none ∧
      turn.input.now ≤ 61 * second ∧ 61 * second < turn.input.now + 30 * second ∧
      ∃ state, turn.after 1 = some state ∧ (state.score ≤ -70 ∨
        2 ≤ state.invalidPayloadPenalties ∨ 4 ≤ state.inconsistentResponsePenalties)) ∧
    penaltyCount (scoresAfter {} (2 ^ 63 * second) sampleReports) 1 .invalidPayload = 2 := by
  have hclock : sampleReports.Pairwise fun report later => report.now ≤ later.now := by decide
  have hsound : ∀ turn ∈ reportRun {} (2 ^ 63 * second) sampleReports, turn.outcome ≠ none := by
    decide
  have hlast : ∀ report ∈ sampleReports, report.now ≤ 61 * second := by decide
  have hbanned : isPeerBanned (scoresAfter {} (2 ^ 63 * second) sampleReports) 1
      (61 * second) = true := by decide
  obtain ⟨hiff, -, hcount⟩ :=
    banned_iff_recent_ban {} (2 ^ 63 * second) sampleReports hclock hsound 1
  exact ⟨(hiff _ hlast).mp hbanned, hcount .invalidPayload⟩

end Sample

end Spex.P2p
