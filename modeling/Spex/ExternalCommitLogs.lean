import Spex.ExternalCommits
import Spex.Transcript

/-!
# Groups that follow a log of external commits

The commits of a log each lead to one epoch. Groups that begin alike and are only given
commits of the log, in any order, with repeats, losses and failures, agree whenever their
epochs do. What is asked of the library is that a commit moves a group to the next epoch
and changes what is seen of it in one way, or does neither.
-/
namespace Spex
open Fallible KeySort Transcript

variable {σ μ δ α : Type}

/-- A commit of a log, with its label. -/
def labelled (log : UInt64 → μ) (epoch : UInt64) : ExternalCommit μ := ⟨epoch, log epoch⟩

/-- A commit of the log under its own epoch. No commit leads to the epoch a group begins
with. -/
def ExternalCommit.Of (log : UInt64 → μ) (commit : ExternalCommit μ) : Prop :=
  commit.message = log commit.epoch ∧ commit.epoch ≠ 0

/-- The library and a log of commits, what is seen of a group, what a commit does to it,
and the epoch and the view that groups begin with. -/
structure Course (σ μ δ α : Type) extends MlsLibrary σ μ δ where
  view : σ → α
  act : μ → α → α
  log : UInt64 → μ
  origin : UInt64
  value : α
  evolves : ∀ group epoch, let after := (processIncomingMessage group (log epoch)).2
    currentEpoch after = currentEpoch group ∧ view after = view group ∨
    currentEpoch after = currentEpoch group + 1 ∧ view after = act (log epoch) (view group)

section Logs
variable {course : Course σ μ δ α} {group last : σ} {commit : ExternalCommit μ}
  {commits : List (ExternalCommit μ)} {epoch : UInt64} {fetchMissing : FetchMissing μ}

/-- What is seen of a group after some commits of the log. -/
def Course.viewAfter (course : Course σ μ δ α) : ℕ → α
  | 0 => course.value
  | n + 1 => course.act (course.log (UInt64.ofNat (course.origin.toNat + n + 1)))
    (course.viewAfter n)

/-- The group has taken over the log up to its own epoch. -/
structure Course.Follows (course : Course σ μ δ α) (group : σ) : Prop where
  since : course.origin.toNat ≤ (course.currentEpoch group).toNat
  view : course.view group =
    course.viewAfter ((course.currentEpoch group).toNat - course.origin.toNat)

theorem toNat_next (h : epoch + 1 ≠ 0) : (epoch + 1).toNat = epoch.toNat + 1 := by
  apply toNat_succ_of_lt
  by_contra hlast
  apply h
  have hlt := epoch.toNat_lt
  rw [← UInt64.toNat_inj, UInt64.toNat_add, UInt64.toNat_one, UInt64.toNat_zero]
  omega

theorem next_ne_zero (h : epoch.toNat + 1 < 2 ^ 64) : epoch + 1 ≠ 0 := by
  rw [Ne, ← UInt64.toNat_inj, toNat_succ_of_lt h, UInt64.toNat_zero]
  omega

/-- One commit of the log, handed over at its own epoch. -/
theorem follows_step (h : course.Follows group) (hcommit : commit.Of course.log)
    (hepoch : commit.epoch = course.currentEpoch group + 1) :
    course.Follows (course.processIncomingMessage group commit.message).2 ∧
      course.currentEpoch group ≤
        course.currentEpoch (course.processIncomingMessage group commit.message).2 := by
  obtain ⟨hmessage, hpositive⟩ := hcommit
  have hnext : (course.currentEpoch group + 1).toNat = (course.currentEpoch group).toNat + 1 :=
    toNat_next (hepoch ▸ hpositive)
  have hevolves := course.evolves group commit.epoch
  rw [← hmessage] at hevolves
  rcases hevolves with ⟨hsame, hview⟩ | ⟨hmoved, hview⟩
  · constructor
    · constructor
      · rw [hsame]
        exact h.since
      · rw [hview, hsame]
        exact h.view
    · exact hsame ▸ UInt64.le_refl _
  · have hsince := h.since
    have hlabel : UInt64.ofNat (course.origin.toNat + ((course.currentEpoch group).toNat -
        course.origin.toNat) + 1) = commit.epoch := by
      rw [hepoch, ← UInt64.ofNat_toNat (x := course.currentEpoch group + 1), hnext]
      congr 1
      omega
    constructor
    · constructor
      · rw [hmoved, hnext]
        omega
      · have hcount : (course.currentEpoch group).toNat + 1 - course.origin.toNat =
            (course.currentEpoch group).toNat - course.origin.toNat + 1 := by omega
        rw [hmoved, hnext, hcount, Course.viewAfter, hlabel, ← hmessage, ← h.view]
        exact hview
    · rw [hmoved, UInt64.le_iff_toNat_le, hnext]
      omega

theorem follows_feeds (h : course.Follows group)
    (hfeeds : Feeds course.toMlsLibrary group commits last)
    (hcommits : ∀ commit ∈ commits, commit.Of course.log) :
    course.Follows last ∧ course.currentEpoch group ≤ course.currentEpoch last := by
  induction hfeeds with
  | nil => exact ⟨h, UInt64.le_refl _⟩
  | cons hepoch _ ih =>
    rw [List.forall_mem_cons] at hcommits
    obtain ⟨hstep, hle⟩ := follows_step h hcommits.1 hepoch
    obtain ⟨hlast, hle'⟩ := ih hstep hcommits.2
    exact ⟨hlast, UInt64.le_trans hle hle'⟩

/-- Every group that has followed the log takes over the next commit of it. -/
def Course.Takes (course : Course σ μ δ α) : Prop :=
  ∀ group, course.Follows group → course.currentEpoch group + 1 ≠ 0 →
    ∃ description after, course.processIncomingMessage group
        (course.log (course.currentEpoch group + 1)) = (.ok (.commit description), after) ∧
      course.currentEpoch after = course.currentEpoch group + 1

theorem explicit_takes (htakes : course.Takes) (h : course.Follows group)
    (hroom : (course.currentEpoch group).toNat + 1 < 2 ^ 64) :
    ∃ description after, processExternalCommitExplicit course.toMlsLibrary group
        (labelled course.log (course.currentEpoch group + 1)) = (.ok description, after) ∧
      course.Follows after ∧ course.currentEpoch after = course.currentEpoch group + 1 := by
  have hpositive := next_ne_zero hroom
  obtain ⟨description, after, hprocess, hepoch⟩ := htakes group h hpositive
  refine ⟨description, after, ?_, ?_, hepoch⟩
  · rw [explicit_of_next rfl, processCommitMessage]
    simp only [labelled, hprocess]
  · have hcommit : (labelled course.log (course.currentEpoch group + 1)).Of course.log :=
      ⟨rfl, hpositive⟩
    have hstep := (follows_step h hcommit rfl).1
    simp only [labelled, hprocess] at hstep
    exact hstep

/-- The commits of the log that are missing are taken over one after the other. -/
theorem externalCommits_take (htakes : course.Takes) (h : course.Follows group) {n : ℕ}
    (hroom : (course.currentEpoch group).toNat + n < 2 ^ 64) :
    ∃ after, processExternalCommits course.toMlsLibrary group
        (((List.range' ((course.currentEpoch group).toNat + 1) n).map UInt64.ofNat).map
          (labelled course.log)) = (.ok (), after) ∧
      course.Follows after ∧
      (course.currentEpoch after).toNat = (course.currentEpoch group).toNat + n := by
  induction n generalizing group with
  | zero => exact ⟨group, rfl, h, rfl⟩
  | succ n ih =>
    have hnext : (course.currentEpoch group + 1).toNat = (course.currentEpoch group).toNat + 1 :=
      toNat_succ_of_lt (by omega)
    have hlabel : UInt64.ofNat ((course.currentEpoch group).toNat + 1) =
        course.currentEpoch group + 1 := by
      rw [← hnext, UInt64.ofNat_toNat]
    obtain ⟨description, middle, hexplicit, hmiddle, hepoch⟩ :=
      explicit_takes htakes h (by omega)
    have hcount : (course.currentEpoch middle).toNat = (course.currentEpoch group).toNat + 1 := by
      rw [hepoch, hnext]
    obtain ⟨after, hloop, hafter, hreached⟩ := ih hmiddle (by omega)
    refine ⟨after, ?_, hafter, by omega⟩
    rw [List.range'_succ, List.map_cons, List.map_cons, hlabel, processExternalCommits, hexplicit]
    dsimp only
    rw [← hcount]
    exact hloop

/-- The caller gets the missing commits of the log, in any order. -/
def Supplies (log : UInt64 → μ) (fetchMissing : FetchMissing μ) : Prop :=
  ∀ expected found, ∃ commits, fetchMissing expected found = .ok commits ∧
    commits.Perm ((epochRange expected found).map (labelled log))

theorem map_epoch_labelled {log : UInt64 → μ} (epochs : List UInt64) :
    (epochs.map (labelled log)).map ExternalCommit.epoch = epochs := by
  rw [List.map_map]
  exact List.map_id _

theorem sortOn_supplied {log : UInt64 → μ} {epochs : List UInt64}
    (hsorted : epochs.Pairwise (· < ·)) (hperm : commits.Perm (epochs.map (labelled log))) :
    sortOn (· ≤ ·) ExternalCommit.epoch commits = epochs.map (labelled log) := by
  have hnodup : ((epochs.map (labelled log)).map ExternalCommit.epoch).Nodup := by
    rw [map_epoch_labelled]
    exact hsorted.imp UInt64.ne_of_lt
  rw [← sortOn_eq_of_perm (· ≤ ·) ExternalCommit.epoch hnodup hperm.symm]
  apply sortOn_of_pairwise
  rw [List.pairwise_map]
  exact hsorted.imp UInt64.le_of_lt

/-- With the commits in between, which are taken over, the commit itself is what is left. -/
theorem resync_of_gap (hfar : (course.currentEpoch group).toNat + 1 < commit.epoch.toNat)
    (hsupplies : Supplies course.log fetchMissing)
    (hloop : processExternalCommits course.toMlsLibrary group
      ((epochRange (course.currentEpoch group + 1) commit.epoch).map (labelled course.log)) =
        (.ok (), last)) :
    processExternalCommitWithResync course.toMlsLibrary group commit fetchMissing =
      processExternalCommitExplicit course.toMlsLibrary last commit := by
  have hlast := commit.epoch.toNat_lt
  have hgap : detectExternalCommitGap course.toMlsLibrary group commit.epoch =
      .gap (course.currentEpoch group + 1) commit.epoch
        (epochRange (course.currentEpoch group + 1) commit.epoch) := by
    rw [detectExternalCommitGap, detectEpochGap_of_lt (by omega), if_neg (by omega),
      if_neg (by omega), if_neg (by omega)]
  obtain ⟨commits, hfetch, hperm⟩ := hsupplies (course.currentEpoch group + 1) commit.epoch
  rw [processExternalCommitWithResync, hgap]
  dsimp only
  rw [hfetch]
  dsimp only
  rw [sortOn_supplied (pairwise_epochRange _ _) hperm,
    if_neg (not_not.mpr (map_epoch_labelled _)), hloop]

/-- A group that has followed the log reaches any later epoch of it in one call. -/
theorem resync_takes (htakes : course.Takes) (h : course.Follows group)
    (hsupplies : Supplies course.log fetchMissing) (hlater : course.currentEpoch group < epoch) :
    ∃ description after, processExternalCommitWithResync course.toMlsLibrary group
        (labelled course.log epoch) fetchMissing = (.ok description, after) ∧
      course.currentEpoch after = epoch := by
  rw [UInt64.lt_iff_toNat_lt] at hlater
  have hlast := epoch.toNat_lt
  have hnext : (course.currentEpoch group + 1).toNat = (course.currentEpoch group).toNat + 1 :=
    toNat_succ_of_lt (by omega)
  by_cases hone : epoch = course.currentEpoch group + 1
  · subst hone
    obtain ⟨description, after, hexplicit, -, hepoch⟩ := explicit_takes htakes h (by omega)
    rw [resync_of_next rfl]
    exact ⟨description, after, hexplicit, hepoch⟩
  · have hfar : (course.currentEpoch group).toNat + 1 < epoch.toNat := by
      rw [← UInt64.toNat_inj, hnext] at hone
      omega
    obtain ⟨middle, hloop, hmiddle, hreached⟩ := externalCommits_take htakes h
      (n := epoch.toNat - ((course.currentEpoch group).toNat + 1)) (by omega)
    rw [← hnext] at hloop
    have hbefore : course.currentEpoch middle + 1 = epoch := by
      rw [← UInt64.toNat_inj, toNat_succ_of_lt (by omega)]
      omega
    obtain ⟨description, after, hexplicit, -, hepoch⟩ := explicit_takes htakes hmiddle (by omega)
    rw [hbefore] at hexplicit hepoch
    rw [resync_of_gap hfar hsupplies hloop]
    exact ⟨description, after, hexplicit, hepoch⟩

end Logs

/-- A call for one of several groups. -/
inductive SyncEvent (ι μ : Type) where
  | explicit (i : ι) (commit : ExternalCommit μ)
  | resync (i : ι) (commit : ExternalCommit μ) (fetchMissing : FetchMissing μ)

section Groups
variable {ι : Type} [DecidableEq ι] {course : Course σ μ δ α} {start : ι → σ}
  {events : List (SyncEvent ι μ)}

def syncStep (library : MlsLibrary σ μ δ) (groups : ι → σ) :
    SyncEvent ι μ → Except ExternalCommitError δ × (ι → σ)
  | .explicit i commit =>
    let processed := processExternalCommitExplicit library (groups i) commit
    (processed.1, Function.update groups i processed.2)
  | .resync i commit fetchMissing =>
    let processed := processExternalCommitWithResync library (groups i) commit fetchMissing
    (processed.1, Function.update groups i processed.2)

/-- Whatever the group is given, it is given from the log. -/
def SyncEvent.Of (log : UInt64 → μ) : SyncEvent ι μ → Prop
  | .explicit _ commit => commit.Of log
  | .resync _ commit fetchMissing => commit.Of log ∧ ∀ expected found commits,
    fetchMissing expected found = .ok commits → ∀ other ∈ commits, ExternalCommit.Of log other

theorem follows_update {groups : ι → σ} {i : ι} {last : σ} (h : ∀ j, course.Follows (groups j))
    (hlast : course.Follows last ∧ course.currentEpoch (groups i) ≤ course.currentEpoch last)
    (j : ι) : course.Follows (Function.update groups i last j) ∧
      course.currentEpoch (groups j) ≤ course.currentEpoch (Function.update groups i last j) := by
  by_cases hj : j = i
  · subst hj
    rw [Function.update_self]
    exact hlast
  · rw [Function.update_of_ne hj]
    exact ⟨h j, UInt64.le_refl _⟩

theorem follows_syncStep {groups : ι → σ} (h : ∀ j, course.Follows (groups j))
    {event : SyncEvent ι μ} (hevent : event.Of course.log) (j : ι) :
    course.Follows ((syncStep course.toMlsLibrary groups event).2 j) ∧
      course.currentEpoch (groups j) ≤
        course.currentEpoch ((syncStep course.toMlsLibrary groups event).2 j) := by
  cases event with
  | explicit i commit =>
    obtain ⟨fed, hfed, hfeeds⟩ := feeds_explicit course.toMlsLibrary (groups i) commit
    have hlog : ∀ other ∈ fed, other.Of course.log :=
      fun other hother => hfed other hother ▸ hevent
    exact follows_update h (follows_feeds (h i) hfeeds hlog) j
  | resync i commit fetchMissing =>
    obtain ⟨fed, hfed, hfeeds⟩ :=
      feeds_resync course.toMlsLibrary (groups i) commit fetchMissing
    have hlog : ∀ other ∈ fed, other.Of course.log := by
      intro other hother
      rcases hfed other hother with rfl | ⟨expected, found, commits, hfetch, hmem⟩
      · exact hevent.1
      · exact hevent.2 expected found commits hfetch other hmem
    exact follows_update h (follows_feeds (h i) hfeeds hlog) j

theorem follows_run (h : ∀ j, course.Follows (start j))
    (hevents : ∀ event ∈ events, event.Of course.log) (j : ι) :
    course.Follows (final (syncStep course.toMlsLibrary) start events j) ∧
      course.currentEpoch (start j) ≤
        course.currentEpoch (final (syncStep course.toMlsLibrary) start events j) := by
  induction events generalizing start with
  | nil => exact ⟨h j, UInt64.le_refl _⟩
  | cons event events ih =>
    rw [List.forall_mem_cons] at hevents
    have hstep := follows_syncStep h hevents.1
    obtain ⟨hrun, hle⟩ := ih (fun i => (hstep i).1) hevents.2
    exact ⟨hrun, UInt64.le_trans (hstep j).2 hle⟩

variable (course) in
/-- Groups that begin alike and are only given commits of one log, in any order, with
repeats, losses and failures, agree whenever their epochs do, at the same time or at
different ones. Their epochs never go back. If the library takes over the commits of the
log, any of the groups reaches any later epoch in one call. -/
theorem external_commits_agree
    (hstart : ∀ i, course.currentEpoch (start i) = course.origin ∧
      course.view (start i) = course.value)
    (hevents : ∀ event ∈ events, event.Of course.log) :
    let reached (past : List (SyncEvent ι μ)) := final (syncStep course.toMlsLibrary) start past
    (∀ past past' i j, past <+: events → past' <+: events →
      course.currentEpoch (reached past i) = course.currentEpoch (reached past' j) →
      course.view (reached past i) = course.view (reached past' j)) ∧
    (∀ past later i, past ++ later <+: events →
      course.currentEpoch (reached past i) ≤ course.currentEpoch (reached (past ++ later) i)) ∧
    (course.Takes → ∀ past i epoch fetchMissing, past <+: events →
      Supplies course.log fetchMissing → course.currentEpoch (reached past i) < epoch →
      ∃ description after, processExternalCommitWithResync course.toMlsLibrary (reached past i)
          (labelled course.log epoch) fetchMissing = (.ok description, after) ∧
        course.currentEpoch after = epoch) := by
  intro reached
  have hfollows : ∀ i, course.Follows (start i) := by
    intro i
    obtain ⟨hepoch, hvalue⟩ := hstart i
    refine ⟨by rw [hepoch], ?_⟩
    rw [hepoch, hvalue, Nat.sub_self, Course.viewAfter]
  have hreached {past : List (SyncEvent ι μ)} (hpast : past <+: events) (i : ι) :
      course.Follows (reached past i) :=
    (follows_run hfollows (fun event hevent => hevents event (hpast.subset hevent)) i).1
  refine ⟨?_, ?_, ?_⟩
  · intro past past' i j hpast hpast' hepoch
    rw [(hreached hpast i).view, (hreached hpast' j).view, hepoch]
  · intro past later i hlater
    have hpast : past <+: events := (List.prefix_append past later).trans hlater
    have hrest : ∀ event ∈ later, event.Of course.log := fun event hevent =>
      hevents event (hlater.subset (List.mem_append_right past hevent))
    simp only [reached, final_append]
    exact (follows_run (hreached hpast) hrest i).2
  · intro htakes past i epoch fetchMissing hpast hsupplies hlater
    exact resync_takes htakes (hreached hpast i) hsupplies hlater

end Groups

section OwnGroup
variable (sha256 : Bytes → Bytes) {log : UInt64 → Commit}

/-- What is seen of a group of the crate: its members and the hash of its configuration. -/
def groupView (group : Group) : List String × Bytes := (group.members, group.context.cfgHash)

def groupAct (commit : Commit) (seen : List String × Bytes) : List String × Bytes :=
  (Group.updateMembers seen.1 commit, commit.cfgHash.getD seen.2)

/-- The course of groups of the crate. -/
def groupCourse (log : UInt64 → Commit) (origin : UInt64) (value : List String × Bytes) :
    Course Group Commit GroupContext (List String × Bytes) where
  toMlsLibrary := groupLibrary sha256
  view := groupView
  act := groupAct
  log := log
  origin := origin
  value := value
  evolves group epoch := by
    dsimp only [groupLibrary]
    generalize hnext : Group.applyCommit sha256 group (log epoch) = applied
    cases Group.applyCommit_case hnext with
    | outOfOrder => exact .inl ⟨rfl, rfl⟩
    | unsupported => exact .inl ⟨rfl, rfl⟩
    | panicked => exact .inl ⟨rfl, rfl⟩
    | applied hepoch hids hshort context hcontext =>
      exact .inr ⟨hepoch, Prod.ext rfl hcontext.cfgHash⟩

theorem short_viewAfter {course : Course Group Commit GroupContext (List String × Bytes)}
    (hact : course.act = groupAct) (hlog : ∀ epoch, (course.log epoch).Supported)
    (hvalue : course.value.2.length ≤ 255) (n : ℕ) : (course.viewAfter n).2.length ≤ 255 := by
  induction n with
  | zero => exact hvalue
  | succ n ih =>
    rw [Course.viewAfter, hact, groupAct]
    cases hhash : (course.log (UInt64.ofNat (course.origin.toNat + n + 1))).cfgHash with
    | none => exact ih
    | some hash => exact (hlog _).short hash hhash

theorem takes_groupCourse (hepochs : ∀ epoch, (log epoch).epoch = epoch)
    (hlog : ∀ epoch, (log epoch).Supported) (origin : UInt64) {value : List String × Bytes}
    (hvalue : value.2.length ≤ 255) : (groupCourse sha256 log origin value).Takes := by
  intro group hfollows hpositive
  have hseen : group.context.cfgHash.length ≤ 255 := by
    change ((groupCourse sha256 log origin value).view group).2.length ≤ 255
    rw [hfollows.view]
    exact short_viewAfter rfl hlog hvalue _
  dsimp only [groupCourse, groupLibrary]
  generalize hnext : Group.applyCommit sha256 group (log (group.epoch + 1)) = applied
  cases Group.applyCommit_case hnext with
  | outOfOrder hepoch => exact absurd (hepochs _) hepoch
  | unsupported hepoch id hid hne => exact absurd ((hlog _).hashId id hid) hne
  | panicked hepoch hids hlong =>
    cases hhash : (log (group.epoch + 1)).cfgHash with
    | none =>
      rw [hhash] at hlong
      exact absurd hseen (not_le.mpr hlong)
    | some hash =>
      rw [hhash] at hlong
      exact absurd ((hlog _).short hash hhash) (not_le.mpr hlong)
  | applied hepoch hids hshort context hcontext => exact ⟨context, _, rfl, hepoch⟩

end OwnGroup

section Sample

def chainLog (epoch : UInt64) : Commit :=
  if epoch = 1 then Group.firstCommit
  else if epoch = 2 then Group.secondCommit
  else { epoch, addedMembers := ["carol"] }

theorem epoch_chainLog (epoch : UInt64) : (chainLog epoch).epoch = epoch := by
  unfold chainLog
  split_ifs with hfirst hsecond
  · rw [hfirst]
    rfl
  · rw [hsecond]
    rfl
  · rfl

theorem supported_chainLog (epoch : UInt64) : (chainLog epoch).Supported := by
  unfold chainLog
  split_ifs
  all_goals exact ⟨nofun, nofun⟩

def chainCourse : Course Group Commit GroupContext (List String × Bytes) :=
  groupCourse (Tabulated.tabulated Group.chainDigests) chainLog 0 ([], List.replicate 32 0x90)

/-- One group takes two commits in order, the other gets the second one first. -/
def lateEvents : List (SyncEvent Bool Commit) :=
  [.explicit false (labelled chainLog 1),
    .resync true (labelled chainLog 2) (fun _ _ => .ok [labelled chainLog 1]),
    .explicit false (labelled chainLog 2)]

def newGroups (_ : Bool) : Group := Group.chainGroup 0 []

/-- The two groups when all calls are done. -/
def lateGroups : Bool → Group :=
  final (syncStep chainCourse.toMlsLibrary) newGroups lateEvents

theorem late_group_agrees :
    groupView (lateGroups false) = groupView (lateGroups true) ∧
      ∃ context after, processExternalCommitWithResync chainCourse.toMlsLibrary (lateGroups true)
        (labelled chainLog 5)
          (fun expected found => .ok ((epochRange expected found).map (labelled chainLog))) =
            (.ok context, after) ∧ after.epoch = 5 := by
  have hcommit (epoch : UInt64) (h : epoch ≠ 0) : (labelled chainLog epoch).Of chainLog := ⟨rfl, h⟩
  have hevents : ∀ event ∈ lateEvents, event.Of chainLog := by
    simp only [lateEvents, List.forall_mem_cons, List.not_mem_nil, SyncEvent.Of]
    refine ⟨hcommit 1 (by decide), ⟨hcommit 2 (by decide), ?_⟩, hcommit 2 (by decide), nofun⟩
    intro expected found commits hfetch other hother
    obtain rfl := Except.ok.inj hfetch
    rw [List.mem_singleton.mp hother]
    exact hcommit 1 (by decide)
  have hstart : ∀ i, chainCourse.currentEpoch (newGroups i) = chainCourse.origin ∧
      chainCourse.view (newGroups i) = chainCourse.value := fun _ => ⟨rfl, rfl⟩
  obtain ⟨hagree, -, hreach⟩ := external_commits_agree chainCourse hstart hevents
  refine ⟨hagree lateEvents lateEvents false true (List.prefix_refl _) (List.prefix_refl _) rfl, ?_⟩
  have htakes : chainCourse.Takes :=
    takes_groupCourse _ epoch_chainLog supported_chainLog 0 (by decide)
  exact hreach htakes lateEvents true 5 _ (List.prefix_refl _)
    (fun expected found => ⟨_, rfl, List.Perm.refl _⟩) (by decide)

end Sample
end Spex
