import Spex.PeerScores

/-!
# Bans across restarts

A node stores the end of a ban in whole seconds since the epoch and turns it into an
instant of its new clock when it starts again. Both conversions round. Over any number
of restarts a ban ends less than a second late, loses at most one second with each
restart, and does not come back once it has expired.
-/
namespace Spex.P2p
open Timers Transcript

/-- A score as it is stored. Times are seconds since the epoch. -/
structure PersistedPeerReputation where
  peerId : String
  score : ℤ
  timeoutPenalties : ℕ
  invalidPayloadPenalties : ℕ
  inconsistentResponsePenalties : ℕ
  probationUntilUnixSeconds : Option ℕ
  bannedUntilUnixSeconds : Option ℕ
  deriving DecidableEq, Repr

section Conversions

def unixSecondsToInstant (instantLimit : ℕ) (now : Moment) (unixSeconds : ℕ) : Option ℕ :=
  if unixSeconds ≤ now.unixSeconds then some now.instant
  else instantAdd instantLimit now.instant ((unixSeconds - now.unixSeconds) * second)

/-- The sum is a `u64`; `none` is the panic of one that is not. -/
def instantToUnixSeconds (now : Moment) (instant : ℕ) : Option ℕ :=
  let sum := now.unixSeconds + wholeSeconds (instant - now.instant)
  if sum < 2 ^ 64 then some sum else none

def loadPeerScore (instantLimit : ℕ) (now : Moment) (snapshot : PersistedPeerReputation) :
    Option PeerScore := do
  let probationUntil ← snapshot.probationUntilUnixSeconds.mapM
    (unixSecondsToInstant instantLimit now)
  let bannedUntil ← snapshot.bannedUntilUnixSeconds.mapM (unixSecondsToInstant instantLimit now)
  return {
    score := snapshot.score
    timeoutPenalties := snapshot.timeoutPenalties
    invalidPayloadPenalties := snapshot.invalidPayloadPenalties
    inconsistentResponsePenalties := snapshot.inconsistentResponsePenalties
    probationUntil := probationUntil
    bannedUntil := bannedUntil
    lastDecayAt := now.instant }

def persistPeerScore (peerId : String) (now : Moment) (state : PeerScore) :
    Option PersistedPeerReputation := do
  let probationUntilUnixSeconds ← state.probationUntil.mapM (instantToUnixSeconds now)
  let bannedUntilUnixSeconds ← state.bannedUntil.mapM (instantToUnixSeconds now)
  return {
    peerId := peerId
    score := state.score
    timeoutPenalties := state.timeoutPenalties
    invalidPayloadPenalties := state.invalidPayloadPenalties
    inconsistentResponsePenalties := state.inconsistentResponsePenalties
    probationUntilUnixSeconds := probationUntilUnixSeconds
    bannedUntilUnixSeconds := bannedUntilUnixSeconds }

variable {instantLimit : ℕ} {now : Moment} {snapshot : PersistedPeerReputation}

theorem unixSecondsToInstant_eq_some {unixSeconds instant : ℕ}
    (h : unixSecondsToInstant instantLimit now unixSeconds = some instant) :
    instant = now.ofUnix unixSeconds := by
  unfold unixSecondsToInstant at h
  split_ifs at h with hpast
  · rw [Moment.ofUnix_of_le hpast]
    exact (Option.some.inj h).symm
  · exact instantAdd_eq_some h

theorem instantToUnixSeconds_eq_some {instant unixSeconds : ℕ}
    (h : instantToUnixSeconds now instant = some unixSeconds) :
    unixSeconds = now.toUnix instant := by
  unfold instantToUnixSeconds at h
  dsimp only at h
  split_ifs at h
  exact (Option.some.inj h).symm

/-- A conversion of a timer that is known wherever it succeeds. -/
theorem mapM_eq_some {convert : ℕ → Option ℕ} {value : ℕ → ℕ}
    (hconvert : ∀ {time converted}, convert time = some converted → converted = value time)
    {timer converted : Option ℕ} (h : timer.mapM convert = some converted) :
    converted = timer.map value := by
  cases timer with
  | none => exact (Option.some.inj h).symm
  | some time =>
    obtain ⟨result, hresult, rfl⟩ := Option.map_eq_some_iff.mp h
    rw [hconvert hresult]
    rfl

theorem bannedUntil_load {state : PeerScore}
    (h : loadPeerScore instantLimit now snapshot = some state) :
    state.bannedUntil = snapshot.bannedUntilUnixSeconds.map now.ofUnix := by
  obtain ⟨_, -, h⟩ := Option.bind_eq_some_iff.mp h
  obtain ⟨_, hban, h⟩ := Option.bind_eq_some_iff.mp h
  obtain rfl := Option.some.inj h
  exact mapM_eq_some unixSecondsToInstant_eq_some hban

theorem bannedUntil_persist {peerId : String} {state : PeerScore}
    (h : persistPeerScore peerId now state = some snapshot) :
    snapshot.bannedUntilUnixSeconds = state.bannedUntil.map now.toUnix := by
  obtain ⟨_, -, h⟩ := Option.bind_eq_some_iff.mp h
  obtain ⟨_, hban, h⟩ := Option.bind_eq_some_iff.mp h
  obtain rfl := Option.some.inj h
  exact mapM_eq_some instantToUnixSeconds_eq_some hban

end Conversions

section Restarts

/-- The score of a peer on a node that was started at a moment. -/
structure StartedNode where
  score : PeerScore
  started : Moment

/-- When a node stores its scores for the last time, and when it is started again. -/
structure Restart where
  persisted : Moment
  loaded : Moment

def StartedNode.isBanned (node : StartedNode) (now : Moment) : Bool :=
  running node.score.bannedUntil now.instant

/-- The stored score, `none` for a panic, and the node that is started with it. -/
def restart (instantLimit : ℕ) (peerId : String) (node : StartedNode) (cycle : Restart) :
    Option PersistedPeerReputation × StartedNode :=
  match persistPeerScore peerId cycle.persisted node.score with
  | none => (none, node)
  | some snapshot =>
    match loadPeerScore instantLimit cycle.loaded snapshot with
    | none => (none, node)
    | some score => (some snapshot, ⟨score, cycle.loaded⟩)

variable {instantLimit : ℕ} {peerId : String} {node next : StartedNode} {cycle : Restart}
  {snapshot : PersistedPeerReputation}

theorem restart_eq_some (h : restart instantLimit peerId node cycle = (some snapshot, next)) :
    next.started = cycle.loaded ∧
      snapshot.bannedUntilUnixSeconds = node.score.bannedUntil.map cycle.persisted.toUnix ∧
      next.score.bannedUntil = snapshot.bannedUntilUnixSeconds.map cycle.loaded.ofUnix := by
  unfold restart at h
  split at h
  · simp at h
  · next hpersist =>
    split at h
    · simp at h
    · next hload =>
      obtain ⟨hsnapshot, rfl⟩ := Prod.mk.inj h
      obtain rfl := Option.some.inj hsnapshot
      exact ⟨rfl, bannedUntil_persist hpersist, bannedUntil_load hload⟩

/-- A peer that is banned after a restart was banned before it, and both bans are
about the second that was stored. -/
theorem banned_of_restart (h : restart instantLimit peerId node cycle = (some snapshot, next))
    (horder : cycle.persisted.wall ≤ cycle.loaded.wall)
    (hbanned : next.isBanned cycle.loaded = true) :
    ∃ until_ seconds, node.score.bannedUntil = some until_ ∧ cycle.persisted.instant < until_ ∧
      snapshot.bannedUntilUnixSeconds = some seconds ∧ cycle.loaded.unixSeconds < seconds ∧
      next.score.bannedUntil = some (cycle.loaded.ofUnix seconds) ∧
      (seconds : ℤ) * second ≤ cycle.persisted.wallAt until_ := by
  obtain ⟨-, hsnapshot, hnext⟩ := restart_eq_some h
  rw [StartedNode.isBanned, hnext] at hbanned
  cases hban : node.score.bannedUntil with
  | none => simp [hsnapshot, hban, running] at hbanned
  | some until_ =>
    rw [hban, Option.map_some] at hsnapshot
    rw [hsnapshot, Option.map_some] at hbanned hnext
    have hlate : cycle.loaded.unixSeconds < cycle.persisted.toUnix until_ := by
      by_contra hpast
      rw [Moment.ofUnix_of_le (Nat.not_lt.mp hpast)] at hbanned
      simp [running] at hbanned
    have hahead : cycle.persisted.instant < until_ := by
      by_contra hpast
      rw [Moment.toUnix_of_le (Nat.not_lt.mp hpast)] at hlate
      have hseconds : cycle.persisted.unixSeconds ≤ cycle.loaded.unixSeconds :=
        Nat.div_le_div_right horder
      omega
    exact ⟨until_, _, rfl, hahead, hsnapshot, hlate, hnext, (Moment.toUnix_bounds hahead.le).1⟩

abbrev RestartTurn := Turn StartedNode Restart (Option PersistedPeerReputation)

def restartRun (instantLimit : ℕ) (peerId : String) (node : StartedNode) (cycles : List Restart) :
    List RestartTurn :=
  transcript (restart instantLimit peerId) node cycles

/-- The scores are stored after the node was started, and it is started again after
that. -/
def InOrder (turn : RestartTurn) : Prop :=
  turn.before.started.Before turn.input.persisted ∧
    turn.input.persisted.wall ≤ turn.input.loaded.wall

/-- The ban was over when the score was stored, or when the node was started again. -/
def ExpiredAt (turn : RestartTurn) : Prop :=
  turn.before.isBanned turn.input.persisted = false ∨
    (∀ until_ ∈ turn.before.score.bannedUntil,
      turn.input.persisted.wallAt until_ ≤ turn.input.loaded.wall) ∨
    turn.after.isBanned turn.input.loaded = false

/-- The second that the end of the ban was stored as. -/
def storedBan (turn : RestartTurn) : Option ℕ :=
  turn.outcome.bind PersistedPeerReputation.bannedUntilUnixSeconds

variable {cycles : List Restart} {turn : RestartTurn}

theorem restart_of_mem (hturn : turn ∈ restartRun instantLimit peerId node cycles)
    (hsound : turn.outcome ≠ none) :
    ∃ snapshot, turn.outcome = some snapshot ∧
      restart instantLimit peerId turn.before turn.input = (some snapshot, turn.after) ∧
      turn.after.started = turn.input.loaded := by
  obtain ⟨snapshot, hsnapshot⟩ := Option.ne_none_iff_exists'.mp hsound
  have hstep := step_of_mem hturn
  rw [hsnapshot] at hstep
  exact ⟨snapshot, hsnapshot, hstep, (restart_eq_some hstep).1⟩

theorem StartedNode.banned_of_before {now : Moment} (hbefore : node.started.Before now)
    (h : node.isBanned now = true) : node.isBanned node.started = true := by
  refine running_of_le ?_ h
  obtain ⟨hwall, hsame⟩ := hbefore
  omega

/-- A ban that is still running ends by the end of a second. -/
def EndsBy (bound : ℤ) (node : StartedNode) : Prop :=
  node.isBanned node.started = true → ∀ until_ ∈ node.score.bannedUntil,
    node.started.wallAt until_ < (bound + 1) * second

theorem EndsBy.of_restart {bound : ℤ} (hturn : turn ∈ restartRun instantLimit peerId node cycles)
    (horder : InOrder turn) (hsound : turn.outcome ≠ none) (h : EndsBy bound turn.before) :
    EndsBy bound turn.after := by
  intro hbanned
  obtain ⟨snapshot, -, hrestart, hstarted⟩ := restart_of_mem hturn hsound
  rw [hstarted] at hbanned ⊢
  obtain ⟨until_, seconds, hban, hahead, -, hlate, hnext, hseconds⟩ :=
    banned_of_restart hrestart horder.2 hbanned
  have hrunning : turn.before.isBanned turn.input.persisted = true := by
    rw [StartedNode.isBanned, hban, running_some]
    exact hahead
  have hend := h (StartedNode.banned_of_before horder.1 hrunning) until_ hban
  rw [← horder.1.wallAt_eq] at hend
  have hrestored := (Moment.wallAt_ofUnix hlate).2
  intro end_ hend_
  obtain rfl : turn.input.loaded.ofUnix seconds = end_ := Option.some.inj (hnext.symm.trans hend_)
  simp only [second] at *
  omega

/-- A ban that is over does not come back. -/
theorem expired_of_restart (hturn : turn ∈ restartRun instantLimit peerId node cycles)
    (horder : InOrder turn) (hsound : turn.outcome ≠ none) (h : ExpiredAt turn) :
    turn.after.isBanned turn.input.loaded = false := by
  obtain ⟨snapshot, -, hrestart, -⟩ := restart_of_mem hturn hsound
  by_contra hbanned
  rw [Bool.not_eq_false] at hbanned
  obtain ⟨until_, seconds, hban, hahead, -, hlate, -, hseconds⟩ :=
    banned_of_restart hrestart horder.2 hbanned
  rcases h with hpersisted | hloaded | hafter
  · simp [StartedNode.isBanned, hban, running] at hpersisted
    omega
  · have hend := hloaded until_ hban
    simp only [Moment.unixSeconds, wholeSeconds, second] at *
    omega
  · simp [hbanned] at hafter

theorem expired_pairwise
    (horder : ∀ turn ∈ restartRun instantLimit peerId node cycles, InOrder turn)
    (hsound : ∀ turn ∈ restartRun instantLimit peerId node cycles, turn.outcome ≠ none) :
    (restartRun instantLimit peerId node cycles).Pairwise fun turn later =>
      turn.after.isBanned turn.input.loaded = false →
        later.after.isBanned later.input.loaded = false := by
  have hstays : ∀ turn ∈ restartRun instantLimit peerId node cycles,
      turn.before.isBanned turn.before.started = false →
        turn.after.isBanned turn.after.started = false := by
    intro turn hturn hbefore
    have hpersisted : turn.before.isBanned turn.input.persisted = false := by
      by_contra hrunning
      rw [StartedNode.banned_of_before (horder turn hturn).1 (Bool.of_not_eq_false hrunning)]
        at hbefore
      simp at hbefore
    obtain ⟨-, -, -, hstarted⟩ := restart_of_mem hturn (hsound turn hturn)
    rw [hstarted]
    exact expired_of_restart hturn (horder turn hturn) (hsound turn hturn) (.inl hpersisted)
  have hrelated := pairwise_related (R := fun node next : StartedNode =>
    node.isBanned node.started = false → next.isBanned next.started = false)
    (fun _ => id) (fun h h' => h' ∘ h) hstays
  refine hrelated.imp_of_mem ?_
  intro turn later hturn hlater hkept hexpired
  obtain ⟨-, -, -, hstarted⟩ := restart_of_mem hturn (hsound turn hturn)
  obtain ⟨-, -, -, hstarted'⟩ := restart_of_mem hlater (hsound later hlater)
  rw [← hstarted] at hexpired
  rw [← hstarted']
  exact hstays later hlater (hkept hexpired)

/-- The node that is started again has the ban in the second that was stored, so the
next time it is stored as the same second or the one before. -/
theorem storedBan_next {later : RestartTurn}
    (hturn : turn ∈ restartRun instantLimit peerId node cycles)
    (hlater : later ∈ restartRun instantLimit peerId node cycles)
    (horder : InOrder turn) (horder' : InOrder later)
    (hsound : turn.outcome ≠ none) (hsound' : later.outcome ≠ none)
    (hlinked : later.before = turn.after) (hloaded : turn.after.isBanned turn.input.loaded = true)
    (hpersisted : later.before.isBanned later.input.persisted = true) :
    ∃ seconds seconds', storedBan turn = some seconds ∧ storedBan later = some seconds' ∧
      (seconds' = seconds ∨ seconds' + 1 = seconds) := by
  obtain ⟨snapshot, hsnapshot, hrestart, hstarted⟩ := restart_of_mem hturn hsound
  obtain ⟨snapshot', hsnapshot', hrestart', -⟩ := restart_of_mem hlater hsound'
  obtain ⟨until_, seconds, -, -, hstored, hlate, hnext, -⟩ :=
    banned_of_restart hrestart horder.2 hloaded
  have hban : later.before.score.bannedUntil = some (turn.input.loaded.ofUnix seconds) := by
    rw [hlinked, hnext]
  have hstored' := (restart_eq_some hrestart').2.1
  rw [hban, Option.map_some] at hstored'
  have hturn' : storedBan turn = some seconds := by
    rw [storedBan, hsnapshot, Option.bind_some, hstored]
  have hlater' : storedBan later =
      some (later.input.persisted.toUnix (turn.input.loaded.ofUnix seconds)) := by
    rw [storedBan, hsnapshot', Option.bind_some, hstored']
  refine ⟨seconds, _, hturn', hlater', ?_⟩
  have hahead : later.input.persisted.instant ≤ turn.input.loaded.ofUnix seconds := by
    rw [StartedNode.isBanned, hban, running_some] at hpersisted
    exact hpersisted.le
  have hsame : later.input.persisted.wallAt (turn.input.loaded.ofUnix seconds) =
      turn.input.loaded.wallAt (turn.input.loaded.ofUnix seconds) := by
    rw [horder'.1.wallAt_eq, hlinked, hstarted]
  have hrestored := Moment.wallAt_ofUnix hlate
  rw [← hsame] at hrestored
  exact Moment.toUnix_of_second hahead hrestored.1 hrestored.2

/-- Over any number of restarts a ban that is still running ends less than a second
late, the stored second stays or drops by one, and a ban that is over stays over. -/
theorem ban_across_restarts (instantLimit : ℕ) (peerId : String) (node : StartedNode)
    (cycles : List Restart)
    (horder : ∀ turn ∈ restartRun instantLimit peerId node cycles, InOrder turn)
    (hsound : ∀ turn ∈ restartRun instantLimit peerId node cycles, turn.outcome ≠ none)
    {until_ : ℕ} (hban : node.score.bannedUntil = some until_) :
    (∀ turn ∈ restartRun instantLimit peerId node cycles,
      turn.after.isBanned turn.input.loaded = true →
      ∀ end_ ∈ turn.after.score.bannedUntil,
        turn.input.loaded.wallAt end_ < node.started.wallAt until_ + second) ∧
    ((restartRun instantLimit peerId node cycles).IsChain fun turn later =>
      turn.before.isBanned turn.input.persisted = true →
      turn.after.isBanned turn.input.loaded = true →
      later.before.isBanned later.input.persisted = true →
      ∃ seconds seconds', storedBan turn = some seconds ∧ storedBan later = some seconds' ∧
        (seconds' = seconds ∨ seconds' + 1 = seconds)) ∧
    (∀ turn ∈ restartRun instantLimit peerId node cycles, ExpiredAt turn →
      ∀ t, turn.input.loaded.instant ≤ t → running turn.after.score.bannedUntil t = false) ∧
    (restartRun instantLimit peerId node cycles).Pairwise fun turn later => ExpiredAt turn →
      ∀ t, later.input.loaded.instant ≤ t → running later.after.score.bannedUntil t = false := by
  have hover : ∀ turn ∈ restartRun instantLimit peerId node cycles, ExpiredAt turn →
      ∀ t, turn.input.loaded.instant ≤ t → running turn.after.score.bannedUntil t = false := by
    intro turn hturn hexpired t ht
    have hnow := expired_of_restart hturn (horder turn hturn) (hsound turn hturn) hexpired
    by_contra hrunning
    have hthen := running_of_le ht (Bool.of_not_eq_false hrunning)
    rw [StartedNode.isBanned, hthen] at hnow
    simp at hnow
  refine ⟨?_, ?_, hover, ?_⟩
  · intro turn hturn hbanned end_ hend
    have hstart : EndsBy (node.started.wallAt until_ / second) node := by
      intro _ end_ hend
      obtain rfl : until_ = end_ := Option.some.inj (hban.symm.trans hend)
      simp only [second]
      omega
    have hbefore := (invariant (EndsBy (node.started.wallAt until_ / second)) hstart
      fun turn hturn h => h.of_restart hturn (horder turn hturn) (hsound turn hturn)).1 turn hturn
    have hafter := hbefore.of_restart hturn (horder turn hturn) (hsound turn hturn)
    obtain ⟨-, -, -, hstarted⟩ := restart_of_mem hturn (hsound turn hturn)
    rw [EndsBy, hstarted] at hafter
    have hlt := hafter hbanned end_ hend
    simp only [second] at *
    omega
  · refine linked.imp_of_mem_imp ?_
    intro turn later hturn hlater hlinked _ hloaded hpersisted
    exact storedBan_next hturn hlater (horder turn hturn) (horder later hlater)
      (hsound turn hturn) (hsound later hlater) hlinked hloaded hpersisted
  · refine (expired_pairwise horder hsound).imp_of_mem ?_
    intro turn later hturn hlater hstays hexpired
    refine hover later hlater (.inr (.inr ?_))
    exact hstays (expired_of_restart hturn (horder turn hturn) (hsound turn hturn) hexpired)

/-- A node with a ban of thirty seconds that is started again twice, a little before
and a little after full seconds. -/
def sampleNode : StartedNode := ⟨⟨-80, 0, 0, 4, none, some (30 * second), 0⟩, ⟨0, 100 * second⟩⟩

def sampleCycles : List Restart :=
  [⟨⟨second + 1, 101 * second + 1⟩, ⟨0, 101 * second + 900000000⟩⟩,
    ⟨⟨5 * second, 106 * second + 900000000⟩, ⟨0, 140 * second⟩⟩]

theorem sampleCycles_keep_ban :
    (∀ turn ∈ restartRun (2 ^ 63 * second) "peer" sampleNode sampleCycles,
      turn.after.isBanned turn.input.loaded = true → ∀ end_ ∈ turn.after.score.bannedUntil,
        turn.input.loaded.wallAt end_ < sampleNode.started.wallAt (30 * second) + second) ∧
    (restartRun (2 ^ 63 * second) "peer" sampleNode sampleCycles).map storedBan =
      [some 129, some 129] := by
  have horder : ∀ turn ∈ restartRun (2 ^ 63 * second) "peer" sampleNode sampleCycles,
      InOrder turn := by
    unfold InOrder Moment.Before
    decide
  have hsound : ∀ turn ∈ restartRun (2 ^ 63 * second) "peer" sampleNode sampleCycles,
      turn.outcome ≠ none := by decide
  exact ⟨(ban_across_restarts _ "peer" sampleNode sampleCycles horder hsound rfl).1,
    by decide⟩

end Restarts

end Spex.P2p
