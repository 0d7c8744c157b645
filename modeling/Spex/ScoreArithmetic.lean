import Spex.PoisonedSnapshots

/-!
# The arithmetic of scores

Scores are `i32` and counters `u32`, and a snapshot may restore any value of these types.
A penalty turns the seconds since the last decay into an `i32`, multiplies them with the
recovery rate, adds the recovered points, subtracts its own points and counts itself. The
bound on the score is applied after the sum, so whether the values fit depends on the
record before the report and on the time that has passed.
-/
namespace Spex.P2p
open Timers Transcript

def Penalty.points : Penalty → ℤ
  | .timeout => 8
  | .invalidPayload => 30
  | .inconsistentResponse => 18

theorem Penalty.points_bounds (kind : Penalty) : 0 < kind.points ∧ kind.points ≤ 30 := by
  cases kind <;> decide

/-- The record that a report works on. -/
def recordOf {Peer : Type} (scores : PeerScores Peer) (report : Report Peer) : PeerScore :=
  (scores report.peer).getD (.neutral report.created)

section Integers
variable (state : PeerScore) (now : ℕ) (recoveryPerMinute : ℤ)

/-- The points that are recovered, as an integer. -/
def recovery : ℤ :=
  if recoveryPerMinute ≤ 0 then 0 else state.elapsedSecs now * recoveryPerMinute / 60

/-- The score after the decay, as an integer. -/
def decayedScore : ℤ :=
  if 0 < recovery state now recoveryPerMinute then
    min (state.score + recovery state now recoveryPerMinute) 20
  else state.score

/-- The seconds as an `i32` are the seconds. -/
def Narrows : Prop :=
  0 < recoveryPerMinute → asI32 (state.elapsedSecs now) = state.elapsedSecs now

end Integers

section Reports
variable {Peer : Type} (config : ReputationConfig) (scores : PeerScores Peer)
  (report : Report Peer)

/-- The score that a report leads to, as an integer. -/
def reportedScore : ℤ :=
  match report.penalty with
  | some kind =>
    decayedScore (recordOf scores report) report.now config.scoreRecoveryPerMinute - kind.points
  | none => min ((recordOf scores report).score + 6) 20

/-- A record with the score and the counters that a report leads to over the integers. -/
def Reported (state : PeerScore) : Prop :=
  state.score = reportedScore config scores report ∧
    ∀ kind, state.penalties kind =
      (recordOf scores report).penalties kind + if report.penalty = some kind then 1 else 0

/-- Every value that a report computes is the one of the integers: on a clock that does not
end, it goes through without a panic, it narrows no number of seconds to another one, and
it stores what the integers lead to. -/
structure ExactReport [DecidableEq Peer] : Prop where
  narrows : report.penalty.isSome →
    Narrows (recordOf scores report) report.now config.scoreRecoveryPerMinute
  stores : ∃ instantLimit transition state, Reported config scores report state ∧
    performReport config instantLimit scores report =
      some (transition, Function.update scores report.peer (some state))

/-- The record leaves room for a penalty. -/
structure RoomForPenalty (state : PeerScore) (now : ℕ) (kind : Penalty) : Prop where
  product : 0 < config.scoreRecoveryPerMinute →
    state.elapsedSecs now * config.scoreRecoveryPerMinute < 2 ^ 31
  lower : kind.points - 2 ^ 31 ≤ state.score + recovery state now config.scoreRecoveryPerMinute
  upper : state.score + recovery state now config.scoreRecoveryPerMinute < 2 ^ 31
  counter : state.penalties kind < 2 ^ 32 - 1

/-- The record leaves room for a report. -/
def RoomForReport : Prop :=
  match report.penalty with
  | some kind => RoomForPenalty config (recordOf scores report) report.now kind
  | none => (recordOf scores report).score < 2 ^ 31 - 6

end Reports

/-- A record whose fields have their types. -/
structure PeerScore.Typed (state : PeerScore) : Prop where
  score : -2 ^ 31 ≤ state.score ∧ state.score < 2 ^ 31
  penalties : ∀ kind, state.penalties kind < 2 ^ 32

/-- A record that leaves room for a number of reports. -/
structure PeerScore.Spares (state : PeerScore) (count : ℕ) : Prop where
  lower : 30 * count - 2 ^ 31 ≤ state.score
  upper : state.score ≤ 2 * 10 ^ 9
  penalties : ∀ kind, state.penalties kind + count < 2 ^ 32

/-- What reports compute with in a stored record. -/
def PersistedPeerReputation.kept (record : PersistedPeerReputation) : PeerScore where
  score := record.score
  timeoutPenalties := record.timeoutPenalties
  invalidPayloadPenalties := record.invalidPayloadPenalties
  inconsistentResponsePenalties := record.inconsistentResponsePenalties
  probationUntil := none
  bannedUntil := none
  lastDecayAt := 0

/-- A snapshot and a run of reports that it leaves room for. -/
structure Sustains {Peer : Type} (config : ReputationConfig) (snapshot : PersistedBootstrapState)
    (reports : List (Report Peer)) : Prop where
  count : 30 * reports.length ≤ 2 ^ 31
  records : ∀ record ∈ snapshot.peerReputation, record.kept.Spares reports.length
  times : ∀ report ∈ reports,
    wholeSeconds report.now * config.scoreRecoveryPerMinute < 2 ^ 31

section Values
variable {state decayed : PeerScore} {now : ℕ} {recoveryPerMinute : ℤ}

theorem checkedI32_eq_some {n m : ℤ} :
    checkedI32 n = some m ↔ m = n ∧ -2 ^ 31 ≤ n ∧ n < 2 ^ 31 := by
  unfold checkedI32
  split_ifs with hrange
  · exact ⟨fun h => ⟨(Option.some.inj h).symm, hrange⟩, fun h => h.1 ▸ rfl⟩
  · exact iff_of_false (by simp) fun h => hrange h.2

theorem asI32_eq_self {n : ℕ} : asI32 n = n ↔ n < 2 ^ 31 := by
  unfold asI32 Int.bmod
  dsimp only
  split_ifs <;> omega

theorem recovery_nonneg (state : PeerScore) (now : ℕ) (recoveryPerMinute : ℤ) :
    0 ≤ recovery state now recoveryPerMinute := by
  unfold recovery
  split_ifs with hrate
  · exact le_refl _
  · exact Int.ediv_nonneg (mul_nonneg (Int.natCast_nonneg _) (by omega)) (by norm_num)

/-- Where the seconds are narrowed to themselves, a decay goes through exactly if its
product and its sum fit, and it leads to the score of the integers. -/
theorem applyScoreDecay_eq (htyped : state.Typed) (hnarrows : Narrows state now recoveryPerMinute) :
    (applyScoreDecay state now recoveryPerMinute).map PeerScore.score =
      if (0 < recoveryPerMinute → state.elapsedSecs now * recoveryPerMinute < 2 ^ 31) ∧
        state.score + recovery state now recoveryPerMinute < 2 ^ 31
      then some (decayedScore state now recoveryPerMinute) else none := by
  have hscore := htyped.score
  have hrecovery := recovery_nonneg state now recoveryPerMinute
  unfold applyScoreDecay decayedScore
  by_cases hnone : state.elapsedSecs now = 0 ∨ recoveryPerMinute ≤ 0
  · have hzero : recovery state now recoveryPerMinute = 0 := by
      unfold recovery
      rcases hnone with helapsed | hrate
      · simp [helapsed]
      · exact if_pos hrate
    have hfits : 0 < recoveryPerMinute →
        state.elapsedSecs now * recoveryPerMinute < 2 ^ 31 := by
      intro hrate
      simp [hnone.resolve_right (not_le.mpr hrate)]
    rw [if_pos hnone, if_pos ⟨hfits, by omega⟩, hzero, if_neg (lt_irrefl 0)]
    rfl
  · have hrate : 0 < recoveryPerMinute := not_le.mp (not_or.mp hnone).2
    have hproduct : 0 ≤ state.elapsedSecs now * recoveryPerMinute :=
      mul_nonneg (Int.natCast_nonneg _) hrate.le
    have htdiv : (state.elapsedSecs now * recoveryPerMinute).tdiv 60 =
        recovery state now recoveryPerMinute := by
      rw [recovery, if_neg (not_le.mpr hrate), Int.tdiv_eq_ediv_of_nonneg hproduct]
    rw [if_neg hnone, hnarrows hrate]
    by_cases hfits : state.elapsedSecs now * recoveryPerMinute < 2 ^ 31
    · rw [checkedI32_eq_some.mpr ⟨rfl, by omega, hfits⟩]
      dsimp only [Option.bind_eq_bind, Option.bind_some]
      rw [htdiv]
      by_cases hpos : 0 < recovery state now recoveryPerMinute
      · rw [if_pos hpos, if_pos hpos, checkedI32]
        by_cases hsum : state.score + recovery state now recoveryPerMinute < 2 ^ 31
        · rw [if_pos (And.intro (by omega) hsum), if_pos (And.intro (fun _ => hfits) hsum)]
          rfl
        · rw [if_neg (mt And.right hsum), if_neg (mt And.right hsum)]
          rfl
      · rw [if_neg hpos, if_neg hpos, if_pos (And.intro (fun _ => hfits) (by omega))]
        rfl
    · rw [if_neg fun h => hfits (h.1 hrate), checkedI32, if_neg (mt And.right hfits)]
      rfl

end Values

section Calls
variable {Peer : Type} [DecidableEq Peer] {config : ReputationConfig} {instantLimit : ℕ}
  {state : PeerScore} {now : ℕ} {kind : Penalty} {scores scores' : PeerScores Peer}
  {report : Report Peer} {transition : Option (PeerReputationState × PeerReputationState)}

/-- The four reports are three penalties and a reward. -/
theorem performReport_penalty (h : report.penalty = some kind) :
    performReport config instantLimit scores report =
      applyPenalty config instantLimit scores report.peer kind.points (countPenalty kind)
        report.now report.created := by
  unfold performReport
  rw [h]
  cases kind <;> rfl

theorem countPenalty_isSome : (countPenalty kind state).isSome ↔
    state.penalties kind < 2 ^ 32 - 1 := by
  cases kind <;>
  · simp only [countPenalty, checkedSucc, PeerScore.penalties]
    split_ifs <;> simp <;> omega

theorem countPenalty_score {counted : PeerScore} (h : countPenalty kind state = some counted) :
    counted.score = state.score := by
  cases kind <;>
  · obtain ⟨count, -, rfl⟩ := Option.map_eq_some_iff.mp h
    rfl

theorem update_inj {peer : Peer} {state' : PeerScore}
    (h : Function.update scores peer (some state) = Function.update scores peer (some state')) :
    state = state' := by
  simpa using congrFun h peer

/-- What a penalty makes of a record. -/
theorem performReport_some (hreport : report.penalty = some kind)
    (h : performReport config instantLimit scores report =
      some (transition, Function.update scores report.peer (some state))) :
    ∃ decayed, applyScoreDecay (recordOf scores report) report.now
        config.scoreRecoveryPerMinute = some decayed ∧
      checkedI32 (decayed.score - kind.points) = some state.score ∧
      (recordOf scores report).penalties kind < 2 ^ 32 - 1 := by
  rw [performReport_penalty hreport] at h
  obtain ⟨decayed, hdecay, h⟩ := Option.bind_eq_some_iff.mp h
  obtain ⟨score, hscore, h⟩ := Option.bind_eq_some_iff.mp h
  obtain ⟨counted, hcounted, h⟩ := Option.bind_eq_some_iff.mp h
  obtain ⟨enforced, henforced, h⟩ := Option.bind_eq_some_iff.mp h
  obtain rfl := update_inj (Prod.mk.inj (Option.some.inj h)).2
  refine ⟨decayed, hdecay, ?_, ?_⟩
  · rw [(enforcePolicy_sets henforced).1, countPenalty_score hcounted]
    exact hscore
  · have hroom := countPenalty_isSome.mp (Option.isSome_of_mem hcounted)
    rwa [penalties_eq decayed, (applyScoreDecay_keeps hdecay).1] at hroom

/-- What a reward makes of a record. -/
theorem performReport_none (hreport : report.penalty = none)
    (h : performReport config instantLimit scores report =
      some (transition, Function.update scores report.peer (some state))) :
    ∃ score, checkedI32 ((recordOf scores report).score + 6) = some score ∧
      state.score = min score 20 := by
  unfold performReport at h
  rw [hreport] at h
  obtain ⟨_, hsuccess, heq⟩ := Option.map_eq_some_iff.mp h
  obtain ⟨-, rfl⟩ := Prod.mk.inj heq
  obtain ⟨score, hscore, hsome⟩ := Option.bind_eq_some_iff.mp hsuccess
  refine ⟨score, hscore, ?_⟩
  rw [← update_inj (Option.some.inj hsome)]
  split_ifs <;> rfl

/-- A report that goes through with the seconds it was given had room, and stores what the
integers lead to. -/
theorem room_of_performReport (htyped : (recordOf scores report).Typed)
    (hnarrows : report.penalty.isSome →
      Narrows (recordOf scores report) report.now config.scoreRecoveryPerMinute)
    (h : performReport config instantLimit scores report =
      some (transition, Function.update scores report.peer (some state))) :
    RoomForReport config scores report ∧ state.score = reportedScore config scores report := by
  have hscore := htyped.score
  unfold RoomForReport reportedScore
  cases hreport : report.penalty with
  | none =>
    obtain ⟨score, hsum, hstate⟩ := performReport_none hreport h
    obtain ⟨rfl, -, hupper⟩ := checkedI32_eq_some.mp hsum
    exact ⟨by dsimp only; omega, hstate⟩
  | some kind =>
    obtain ⟨decayed, hdecay, hdifference, hcounter⟩ := performReport_some hreport h
    have hdecayed := applyScoreDecay_eq htyped (hnarrows (by simp [hreport]))
    rw [hdecay, Option.map_some] at hdecayed
    split_ifs at hdecayed with hroom
    rw [Option.some.inj hdecayed, checkedI32_eq_some] at hdifference
    have hrecovery := recovery_nonneg (recordOf scores report) report.now
      config.scoreRecoveryPerMinute
    refine ⟨⟨hroom.1, ?_, hroom.2, hcounter⟩, hdifference.1⟩
    have hpoints := kind.points_bounds
    have hlower := hdifference.2.1
    unfold decayedScore at hlower
    split_ifs at hlower <;> omega

theorem RoomForPenalty.narrows (h : RoomForPenalty config state now kind) :
    Narrows state now config.scoreRecoveryPerMinute := by
  intro hrate
  have hproduct := h.product hrate
  have hle := le_mul_of_one_le_right (Int.natCast_nonneg (state.elapsedSecs now)) hrate
  exact asI32_eq_self.mpr (by omega)

/-- The points can be taken off the decayed score. -/
theorem RoomForPenalty.subtracts (h : RoomForPenalty config state now kind) (htyped : state.Typed) :
    checkedI32 (decayedScore state now config.scoreRecoveryPerMinute - kind.points) =
      some (decayedScore state now config.scoreRecoveryPerMinute - kind.points) := by
  have hpoints := kind.points_bounds
  have hscore := htyped.score
  have hlower := h.lower
  have hupper := h.upper
  unfold decayedScore
  refine checkedI32_eq_some.mpr ⟨rfl, ?_, ?_⟩ <;> split_ifs <;> omega

/-- With room for it, a report goes through on a clock that runs long enough. -/
theorem performReport_of_room (htyped : (recordOf scores report).Typed)
    (hroom : RoomForReport config scores report) :
    (report.penalty.isSome →
      Narrows (recordOf scores report) report.now config.scoreRecoveryPerMinute) ∧
    ∃ instantLimit, (performReport config instantLimit scores report).isSome := by
  have hscore := htyped.score
  unfold RoomForReport at hroom
  cases hreport : report.penalty with
  | none =>
    rw [hreport] at hroom
    refine ⟨by simp, 0, ?_⟩
    have hsum : checkedI32 ((recordOf scores report).score + 6) =
        some ((recordOf scores report).score + 6) := by
      refine checkedI32_eq_some.mpr ⟨rfl, ?_, ?_⟩ <;> dsimp only at hroom <;> omega
    unfold recordOf at hsum
    simp [performReport, hreport, reportSuccessfulInteraction, hsum]
  | some kind =>
    rw [hreport] at hroom
    refine ⟨fun _ => hroom.narrows,
      report.now + config.peerBanDuration + config.peerProbationDuration + 1, ?_⟩
    have hdecay := applyScoreDecay_eq htyped hroom.narrows
    rw [if_pos ⟨hroom.product, hroom.upper⟩] at hdecay
    obtain ⟨decayed, hdecay, hdecayed⟩ := Option.map_eq_some_iff.mp hdecay
    have hdifference := hroom.subtracts htyped
    rw [← hdecayed] at hdifference
    have hcounts : (countPenalty kind
        { decayed with score := decayed.score - kind.points }).isSome := by
      rw [countPenalty_isSome, penalties_eq decayed, (applyScoreDecay_keeps hdecay).1]
      exact hroom.counter
    obtain ⟨counted, hcounted⟩ := Option.isSome_iff_exists.mp hcounts
    rw [recordOf] at hdecay
    rw [performReport_penalty hreport, applyPenalty]
    simp only [hdecay, hdifference, hcounted, Option.bind_eq_bind, Option.bind_some,
      enforcePolicy, instantAdd]
    split_ifs <;> first | rfl | omega

variable (config) in
/-- A report stores exact values exactly if its record leaves room for it. -/
theorem exactReport_iff (htyped : (recordOf scores report).Typed) :
    ExactReport config scores report ↔ RoomForReport config scores report := by
  constructor
  · rintro ⟨hnarrows, instantLimit, transition, state, -, hperform⟩
    exact (room_of_performReport htyped hnarrows hperform).1
  · intro hroom
    obtain ⟨hnarrows, instantLimit, hsome⟩ := performReport_of_room htyped hroom
    obtain ⟨⟨transition, scores'⟩, hperform⟩ := Option.isSome_iff_exists.mp hsome
    obtain ⟨state, rfl, hfollows⟩ := performReport_follows hperform
    exact ⟨hnarrows, instantLimit, transition, state,
      ⟨(room_of_performReport htyped hnarrows hperform).2, hfollows.penalties⟩, hperform⟩

/-- Reports keep the types of the records. -/
theorem performReport_typed (htyped : (recordOf scores report).Typed)
    (h : performReport config instantLimit scores report =
      some (transition, Function.update scores report.peer (some state))) :
    state.Typed := by
  obtain ⟨state', hupdate, hfollows⟩ := performReport_follows h
  obtain rfl := update_inj hupdate
  refine ⟨?_, fun other => ?_⟩
  · cases hreport : report.penalty with
    | none =>
      obtain ⟨score, hsum, hstate⟩ := performReport_none hreport h
      have hrange := checkedI32_eq_some.mp hsum
      omega
    | some kind =>
      obtain ⟨decayed, -, hdifference, -⟩ := performReport_some hreport h
      have hrange := checkedI32_eq_some.mp hdifference
      omega
  · have hother := htyped.penalties other
    rw [hfollows.penalties other]
    split_ifs with hreport
    · obtain ⟨-, -, -, hcounter⟩ := performReport_some hreport h
      exact Nat.add_lt_of_lt_sub hcounter
    · exact hother

end Calls

section Runs
variable {Peer : Type} [DecidableEq Peer] {config : ReputationConfig} {instantLimit count : ℕ}
  {scores : PeerScores Peer} {reports : List (Report Peer)} {P : PeerScore → Prop}

/-- A property of every record. -/
def AllRecords (P : PeerScore → Prop) (scores : PeerScores Peer) : Prop :=
  ∀ peer, ∀ state ∈ scores peer, P state

omit [DecidableEq Peer] in
/-- What every record has, and a neutral one, the record of a report has. -/
theorem recordOf_of_all (h : AllRecords P scores) (hneutral : ∀ created, P (.neutral created))
    (report : Report Peer) : P (recordOf scores report) := by
  unfold recordOf
  cases hstate : scores report.peer with
  | none => exact hneutral _
  | some state => exact h _ state hstate

/-- What a report leaves to every record, from what it makes of its own. -/
theorem handleReport_all {Q : PeerScore → Prop} {report : Report Peer} (h : AllRecords P scores)
    (hkept : ∀ state, P state → Q state)
    (hstored : ∀ instantLimit transition state, performReport config instantLimit scores report =
      some (transition, Function.update scores report.peer (some state)) → Q state) :
    AllRecords Q (handleReport config instantLimit scores report).2 := by
  unfold handleReport
  cases hperform : performReport config instantLimit scores report with
  | none => exact fun peer state hstate => hkept state (h peer state hstate)
  | some result =>
    obtain ⟨transition, scores'⟩ := result
    obtain ⟨stored, rfl, -⟩ := performReport_follows hperform
    intro peer state hstate
    dsimp only at hstate
    by_cases hpeer : peer = report.peer
    · rw [hpeer, Function.update_self] at hstate
      exact Option.some.inj hstate ▸ hstored _ _ _ hperform
    · rw [Function.update_of_ne hpeer] at hstate
      exact hkept state (h peer state hstate)

theorem typed_neutral (created : ℕ) : (PeerScore.neutral created).Typed :=
  ⟨by norm_num [PeerScore.neutral], fun kind => by cases kind <;> simp [PeerScore.neutral,
    PeerScore.penalties]⟩

theorem spares_neutral (h : 30 * count ≤ 2 ^ 31) (created : ℕ) :
    (PeerScore.neutral created).Spares count := by
  refine ⟨?_, by norm_num [PeerScore.neutral], fun kind => ?_⟩
  · simp only [PeerScore.neutral]
    omega
  · cases kind <;> simp only [PeerScore.neutral, PeerScore.penalties] <;> omega

theorem PeerScore.Spares.typed {state : PeerScore} (h : state.Spares count) : state.Typed := by
  have hlower := h.lower
  have hupper := h.upper
  exact ⟨by omega, fun kind => by have := h.penalties kind; omega⟩

omit [DecidableEq Peer] in
/-- A report uses up a part of the room. -/
theorem PeerScore.Spares.step {report : Report Peer}
    (h : (recordOf scores report).Spares (count + 1)) (hcount : 30 * (count + 1) ≤ 2 ^ 31)
    (htime : wholeSeconds report.now * config.scoreRecoveryPerMinute < 2 ^ 31) :
    RoomForReport config scores report ∧
      -2 ^ 31 + 30 * count ≤ reportedScore config scores report ∧
      reportedScore config scores report ≤ 2 * 10 ^ 9 := by
  have hlower := h.lower
  have hupper := h.upper
  have hnonneg := recovery_nonneg (recordOf scores report) report.now
    config.scoreRecoveryPerMinute
  have hproduct : 0 < config.scoreRecoveryPerMinute →
      (recordOf scores report).elapsedSecs report.now * config.scoreRecoveryPerMinute <
        2 ^ 31 := by
    intro hrate
    refine lt_of_le_of_lt (mul_le_mul_of_nonneg_right ?_ hrate.le) htime
    exact_mod_cast Nat.div_le_div_right (Nat.sub_le _ _)
  have hrecovery : recovery (recordOf scores report) report.now
      config.scoreRecoveryPerMinute < 2 ^ 26 := by
    unfold recovery
    split_ifs with hrate
    · norm_num
    · have hbound := hproduct (not_le.mp hrate)
      omega
  unfold RoomForReport reportedScore
  cases report.penalty with
  | none =>
    dsimp only
    omega
  | some kind =>
    have hpoints := kind.points_bounds
    have hcounter := h.penalties kind
    refine ⟨⟨hproduct, by omega, by omega, by omega⟩, ?_⟩
    dsimp only
    unfold decayedScore
    split_ifs <;> omega

theorem room_of_spares (hscores : AllRecords (PeerScore.Spares · reports.length) scores)
    (hcount : 30 * reports.length ≤ 2 ^ 31)
    (htimes : ∀ report ∈ reports,
      wholeSeconds report.now * config.scoreRecoveryPerMinute < 2 ^ 31) :
    ∀ turn ∈ transcript (handleReport config instantLimit) scores reports,
      RoomForReport config turn.before turn.input := by
  induction reports generalizing scores with
  | nil => exact List.forall_mem_nil _
  | cons report reports ih =>
    rw [List.forall_mem_cons] at htimes
    rw [List.length_cons] at hscores hcount
    have hrecord := recordOf_of_all hscores (spares_neutral hcount) report
    obtain ⟨hroom, hlower, hupper⟩ := hrecord.step hcount htimes.1
    rw [transcript_cons, List.forall_mem_cons]
    refine ⟨hroom, ih (handleReport_all hscores (fun state hstate => ?_) ?_) (by omega) htimes.2⟩
    · have hkept := hstate.lower
      exact ⟨by omega, hstate.upper, fun kind => by have := hstate.penalties kind; omega⟩
    · intro instantLimit transition state hperform
      obtain ⟨hnarrows, -⟩ := performReport_of_room hrecord.typed hroom
      obtain ⟨-, hscore⟩ := room_of_performReport hrecord.typed hnarrows hperform
      obtain ⟨state', hupdate, hfollows⟩ := performReport_follows hperform
      obtain rfl := update_inj hupdate
      refine ⟨by omega, by omega, fun kind => ?_⟩
      have hkind := hrecord.penalties kind
      rw [recordOf] at hkind
      rw [hfollows.penalties kind]
      split_ifs <;> omega

/-- What the records of a snapshot have that reports compute with, the restored records have. -/
theorem restoreSnapshot_all {libp2p : Libp2p Peer} {node node' : TransportNode Peer}
    {start : Moment} {snapshot : PersistedBootstrapState}
    (hP : ∀ record ∈ snapshot.peerReputation, ∀ state : PeerScore,
      state.score = record.score → state.penalties = record.kept.penalties → P state)
    (h : restoreSnapshot libp2p instantLimit node start snapshot = some node') :
    AllRecords P (Table.get node'.peerScores) := by
  obtain ⟨peerStore, -, h⟩ := Option.bind_eq_some_iff.mp h
  obtain ⟨peerScores, hfill, h⟩ := Option.bind_eq_some_iff.mp h
  obtain rfl := Option.some.inj h
  intro peer state hstate
  have hmem := (Table.get_eq_some (Table.nodup_fill hfill)).mp hstate
  obtain ⟨record, hlast, hload⟩ := (Table.mem_fill hfill).mp hmem
  obtain ⟨earlier, later, hrecords, -⟩ := hlast
  obtain ⟨probationUntil, -, hload⟩ := Option.bind_eq_some_iff.mp hload
  obtain ⟨bannedUntil, -, hload⟩ := Option.bind_eq_some_iff.mp hload
  obtain rfl := Option.some.inj hload
  refine hP record (by simp [hrecords]) _ rfl ?_
  funext kind
  cases kind <;> rfl

end Runs

/-- On a node that has restored a snapshot, the reports of a run compute exact values exactly
if every record leaves room for the report about it. They do if the snapshot leaves room for
all of them. -/
theorem score_arithmetic_exact_iff {Peer : Type} [DecidableEq Peer] (config : ReputationConfig)
    {libp2p : Libp2p Peer} {instantLimit : ℕ} {node node' : TransportNode Peer} {start : Moment}
    {snapshot : PersistedBootstrapState}
    (htyped : ∀ record ∈ snapshot.peerReputation, record.kept.Typed)
    (hrestored : restoreSnapshot libp2p instantLimit node start snapshot = some node')
    (reports : List (Report Peer)) :
    ((∀ turn ∈ transcript (handleReport config instantLimit) (Table.get node'.peerScores) reports,
      ExactReport config turn.before turn.input) ↔
    ∀ turn ∈ transcript (handleReport config instantLimit) (Table.get node'.peerScores) reports,
      RoomForReport config turn.before turn.input) ∧
    (Sustains config snapshot reports →
      ∀ turn ∈ transcript (handleReport config instantLimit) (Table.get node'.peerScores) reports,
        ExactReport config turn.before turn.input) := by
  have hstart := restoreSnapshot_all (fun record hrecord state hscore hpenalties =>
    (⟨hscore ▸ (htyped record hrecord).score,
      hpenalties ▸ (htyped record hrecord).penalties⟩ : state.Typed)) hrestored
  have hkept : ∀ turn ∈ transcript (handleReport config instantLimit)
      (Table.get node'.peerScores) reports,
      AllRecords PeerScore.Typed turn.before → AllRecords PeerScore.Typed turn.after := by
    intro turn hturn hbefore
    rw [after_eq hturn]
    exact handleReport_all hbefore (fun _ => id) fun _ _ _ hperform =>
      performReport_typed (recordOf_of_all hbefore typed_neutral _) hperform
  have hturns := (invariant (AllRecords PeerScore.Typed) hstart hkept).1
  have hexact := forall₂_congr fun turn hturn => exactReport_iff config
    (recordOf_of_all (hturns turn hturn) typed_neutral turn.input)
  refine ⟨hexact, fun hsustains => hexact.mpr ?_⟩
  refine room_of_spares (restoreSnapshot_all (fun record hrecord state hscore hpenalties => ?_)
    hrestored) hsustains.count hsustains.times
  have hspares := hsustains.records record hrecord
  exact ⟨hscore ▸ hspares.lower, hscore ▸ hspares.upper, hpenalties ▸ hspares.penalties⟩

section Sample

/-- A snapshot of a record with a score, as it is restored. -/
def scoreSnapshot (score : ℤ) : PersistedBootstrapState :=
  { PersistedBootstrapState.empty with peerReputation := [⟨"peer", score, 0, 0, 0, none, none⟩] }

/-- The node that has restored the snapshot. -/
def restoredNode (score : ℤ) : Option (TransportNode ℕ) :=
  restoreSnapshot sampleLibp2p (2 ^ 63 * second) {} sampleMoment (scoreSnapshot score)

theorem typed_scoreSnapshot {score : ℤ} (h : -2 ^ 31 ≤ score ∧ score < 2 ^ 31) :
    ∀ record ∈ (scoreSnapshot score).peerReputation, record.kept.Typed := by
  intro record hrecord
  obtain rfl := List.mem_singleton.mp hrecord
  exact ⟨h, fun kind => by cases kind <;> exact Nat.two_pow_pos 32⟩

/-- A timeout of the peer, a minute after the start, and a success a minute later. -/
def twoReports : List (Report ℕ) :=
  [⟨1, some .timeout, 65 * second, 65 * second⟩, ⟨1, none, 125 * second, 125 * second⟩]

/-- A snapshot at the threshold of a ban leaves room for a timeout and a success. -/
theorem score_arithmetic_exact_sample : ∃ node, restoredNode (-70) = some node ∧
    ∀ turn ∈ transcript (handleReport {} (2 ^ 63 * second)) (Table.get node.peerScores) twoReports,
      ExactReport {} turn.before turn.input := by
  have htyped : ∀ record ∈ (scoreSnapshot (-70)).peerReputation, record.kept.Typed :=
    typed_scoreSnapshot (by norm_num)
  obtain ⟨node, hnode⟩ : ∃ node, restoredNode (-70) = some node := ⟨_, rfl⟩
  refine ⟨node, hnode, (score_arithmetic_exact_iff {} htyped hnode twoReports).2
    ⟨by decide, fun record hrecord => ?_, by decide⟩⟩
  obtain rfl := List.mem_singleton.mp hrecord
  exact ⟨by decide, by decide, fun kind => by cases kind <;> decide⟩

/-- The least score that a snapshot may hold does not survive a timeout. -/
theorem restored_score_underflows :
    (∀ record ∈ (scoreSnapshot (-2 ^ 31)).peerReputation, record.kept.Typed) ∧
    ∃ node, restoredNode (-2 ^ 31) = some node ∧
      ¬ ∀ turn ∈ transcript (handleReport {} (2 ^ 63 * second)) (Table.get node.peerScores)
        twoReports, ExactReport {} turn.before turn.input := by
  refine ⟨typed_scoreSnapshot (by norm_num), _, rfl, fun h => ?_⟩
  have hroom := (exactReport_iff _ ⟨by decide, fun kind => by cases kind <;> decide⟩).mp
    (h _ List.mem_cons_self)
  exact absurd (RoomForPenalty.lower hroom) (by decide)

end Sample
end Spex.P2p
