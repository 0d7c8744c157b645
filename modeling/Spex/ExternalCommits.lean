import Spex.EpochGaps
import Spex.MlsExtensions

/-!
# External commits of the MLS library

A group of the MLS library is given commits that carry the epoch they lead to as a
label. One that is labelled with the next epoch is handed to the library; for one that
is further ahead the commits in between are fetched first. The library is never handed a
commit out of order, and with the crate's own group in its place the calls do what the
crate's own recovery does.
-/
namespace Spex
open Fallible KeySort

/-- What the library takes an incoming message for. -/
inductive ReceivedMessage (δ : Type) where
  | commit (description : δ)
  | other
  deriving DecidableEq, Repr

/-- What is asked of the library. A message may have changed the group whatever the
answer to it is. -/
structure MlsLibrary (σ μ δ : Type) where
  fromBytes : Bytes → Except String μ
  currentEpoch : σ → UInt64
  processIncomingMessage : σ → μ → Except String (ReceivedMessage δ) × σ

/-- The errors of the calls below. Those of the other functions can come from the caller's
source of missing commits. -/
inductive ExternalCommitError where
  | libraryError (text : String)
  | malformedExternalCommit (text : String)
  | outOfOrderCommit (error : CommitOrderError)
  | context (error : MlsRsError)
  deriving DecidableEq, Repr

structure ExternalCommit (μ : Type) where
  epoch : UInt64
  message : μ
  deriving DecidableEq, Repr

variable {σ μ δ : Type}

section Calls
variable (library : MlsLibrary σ μ δ)

def parseExternalCommit (bytes : Bytes) (epoch : UInt64) :
    Except ExternalCommitError (ExternalCommit μ) :=
  ((library.fromBytes bytes).mapError .malformedExternalCommit).map fun message => ⟨epoch, message⟩

def processCommitMessage (group : σ) (message : μ) : Except ExternalCommitError δ × σ :=
  match library.processIncomingMessage group message with
  | (.error text, group) => (.error (.libraryError text), group)
  | (.ok (.commit description), group) => (.ok description, group)
  | (.ok .other, group) => (.error (.libraryError "unexpected MLS message type"), group)

def detectExternalCommitGap (group : σ) (incomingEpoch : UInt64) : EpochGap :=
  detectEpochGap (library.currentEpoch group) incomingEpoch

def outOfOrder (group : σ) (commit : ExternalCommit μ) : ExternalCommitError :=
  .outOfOrderCommit ⟨library.currentEpoch group + 1, commit.epoch⟩

def processExternalCommitExplicit (group : σ) (commit : ExternalCommit μ) :
    Except ExternalCommitError δ × σ :=
  match detectExternalCommitGap library group commit.epoch with
  | .next => processCommitMessage library group commit.message
  | _ => (.error (outOfOrder library group commit), group)

/-- The loop over the commits that were fetched. -/
def processExternalCommits (group : σ) :
    List (ExternalCommit μ) → Except ExternalCommitError Unit × σ
  | [] => (.ok (), group)
  | commit :: commits =>
    match processExternalCommitExplicit library group commit with
    | (.error fault, group) => (.error fault, group)
    | (.ok _, group) => processExternalCommits group commits

/-- Where the caller gets the commits from that are missing. -/
abbrev FetchMissing (μ : Type) :=
  UInt64 → UInt64 → Except ExternalCommitError (List (ExternalCommit μ))

def processExternalCommitWithResync (group : σ) (commit : ExternalCommit μ)
    (fetchMissing : FetchMissing μ) : Except ExternalCommitError δ × σ :=
  match detectExternalCommitGap library group commit.epoch with
  | .current | .stale _ _ => (.error (outOfOrder library group commit), group)
  | .next => processExternalCommitExplicit library group commit
  | .gap expected found missing =>
    match fetchMissing expected found with
    | .error fault => (.error fault, group)
    | .ok commits =>
      let commits := sortOn (· ≤ ·) ExternalCommit.epoch commits
      if commits.map ExternalCommit.epoch ≠ missing then
        (.error (.outOfOrderCommit ⟨expected, found⟩), group)
      else
        match processExternalCommits library group commits with
        | (.error fault, group) => (.error fault, group)
        | (.ok _, group) => processExternalCommitExplicit library group commit

end Calls

section Feeding
variable {library : MlsLibrary σ μ δ} {group last : σ} {commit : ExternalCommit μ}
  {commits : List (ExternalCommit μ)}

/-- The library is handed the commits one after the other, each at the epoch before the
one it is labelled with. -/
inductive Feeds (library : MlsLibrary σ μ δ) : σ → List (ExternalCommit μ) → σ → Prop
  | nil (group : σ) : Feeds library group [] group
  | cons {group last : σ} {commit : ExternalCommit μ} {commits : List (ExternalCommit μ)}
    (hepoch : commit.epoch = library.currentEpoch group + 1)
    (h : Feeds library (library.processIncomingMessage group commit.message).2 commits last) :
    Feeds library group (commit :: commits) last

theorem Feeds.append {middle : σ} {commits' : List (ExternalCommit μ)}
    (h : Feeds library group commits middle) (h' : Feeds library middle commits' last) :
    Feeds library group (commits ++ commits') last := by
  induction h with
  | nil => exact h'
  | cons hepoch _ ih => exact .cons hepoch (ih h')

variable (library) in
theorem processCommitMessage_snd (group : σ) (message : μ) :
    (processCommitMessage library group message).2 =
      (library.processIncomingMessage group message).2 := by
  unfold processCommitMessage
  split
  all_goals rename_i hprocess; rw [hprocess]

theorem detectExternalCommitGap_eq_next :
    detectExternalCommitGap library group commit.epoch = .next ↔
      commit.epoch = library.currentEpoch group + 1 := by
  unfold detectExternalCommitGap detectEpochGap
  split_ifs with hcurrent hnext hstale
  · simp [hcurrent]
  · simp [hnext]
  · simp [hnext]
  · simp [hnext]

theorem explicit_of_next (h : commit.epoch = library.currentEpoch group + 1) :
    processExternalCommitExplicit library group commit =
      processCommitMessage library group commit.message := by
  rw [processExternalCommitExplicit, detectExternalCommitGap_eq_next.mpr h]

theorem explicit_of_ne (h : commit.epoch ≠ library.currentEpoch group + 1) :
    processExternalCommitExplicit library group commit =
      (.error (outOfOrder library group commit), group) := by
  have hne := mt detectExternalCommitGap_eq_next.mp h
  unfold processExternalCommitExplicit
  split
  · exact absurd ‹_› hne
  · rfl

theorem resync_of_next (h : commit.epoch = library.currentEpoch group + 1)
    {fetchMissing : FetchMissing μ} :
    processExternalCommitWithResync library group commit fetchMissing =
      processExternalCommitExplicit library group commit := by
  rw [processExternalCommitWithResync, detectExternalCommitGap_eq_next.mpr h]

variable (library) in
theorem feeds_explicit (group : σ) (commit : ExternalCommit μ) :
    ∃ fed, (∀ other ∈ fed, other = commit) ∧
      Feeds library group fed (processExternalCommitExplicit library group commit).2 := by
  by_cases hepoch : commit.epoch = library.currentEpoch group + 1
  · refine ⟨[commit], fun other => List.mem_singleton.mp, .cons hepoch ?_⟩
    rw [explicit_of_next hepoch, processCommitMessage_snd]
    exact .nil _
  · refine ⟨[], by simp, ?_⟩
    rw [explicit_of_ne hepoch]
    exact .nil _

variable (library) in
theorem feeds_externalCommits (group : σ) (commits : List (ExternalCommit μ)) :
    ∃ fed, (∀ other ∈ fed, other ∈ commits) ∧
      Feeds library group fed (processExternalCommits library group commits).2 := by
  induction commits generalizing group with
  | nil => exact ⟨[], by simp, .nil group⟩
  | cons commit commits ih =>
    obtain ⟨fed, hfed, hfeeds⟩ := feeds_explicit library group commit
    unfold processExternalCommits
    rcases hexplicit : processExternalCommitExplicit library group commit with ⟨result, group'⟩
    rw [hexplicit] at hfeeds
    have hfirst : ∀ other ∈ fed, other ∈ commit :: commits :=
      fun other hother => hfed other hother ▸ List.mem_cons_self
    cases result with
    | error fault => exact ⟨fed, hfirst, hfeeds⟩
    | ok description =>
      obtain ⟨fed', hfed', hfeeds'⟩ := ih group'
      refine ⟨fed ++ fed', fun other hother => ?_, hfeeds.append hfeeds'⟩
      rcases List.mem_append.mp hother with hother | hother
      · exact hfirst other hother
      · exact List.mem_cons_of_mem _ (hfed' other hother)

/-- Whatever is fetched, the library is handed nothing but the commit and what was fetched,
and nothing out of order. -/
theorem feeds_resync (library : MlsLibrary σ μ δ) (group : σ) (commit : ExternalCommit μ)
    (fetchMissing : FetchMissing μ) :
    ∃ fed, (∀ other ∈ fed, other = commit ∨
        ∃ expected found commits, fetchMissing expected found = .ok commits ∧ other ∈ commits) ∧
      Feeds library group fed
        (processExternalCommitWithResync library group commit fetchMissing).2 := by
  unfold processExternalCommitWithResync
  split
  · exact ⟨[], by simp, .nil group⟩
  · exact ⟨[], by simp, .nil group⟩
  · obtain ⟨fed, hfed, hfeeds⟩ := feeds_explicit library group commit
    exact ⟨fed, fun other hother => .inl (hfed other hother), hfeeds⟩
  · split
    · exact ⟨[], by simp, .nil group⟩
    · rename_i fetched hfetched
      dsimp only
      split_ifs
      · exact ⟨[], by simp, .nil group⟩
      · obtain ⟨fed, hfed, hfeeds⟩ :=
          feeds_externalCommits library group (sortOn (· ≤ ·) ExternalCommit.epoch fetched)
        have hsource : ∀ other ∈ fed, other = commit ∨ ∃ expected found commits,
            fetchMissing expected found = .ok commits ∧ other ∈ commits := fun other hother =>
          .inr ⟨_, _, fetched, hfetched, (mem_sortOn _ _ _ _).mp (hfed other hother)⟩
        rcases hloop : processExternalCommits library group
          (sortOn (· ≤ ·) ExternalCommit.epoch fetched) with ⟨result, group'⟩
        rw [hloop] at hfeeds
        cases result with
        | error fault => exact ⟨fed, hsource, hfeeds⟩
        | ok _ =>
          obtain ⟨fed', hfed', hfeeds'⟩ := feeds_explicit library group' commit
          refine ⟨fed ++ fed', fun other hother => ?_, hfeeds.append hfeeds'⟩
          rcases List.mem_append.mp hother with hother | hother
          · exact hsource other hother
          · exact .inl (hfed' other hother)

end Feeding

section OwnGroup
variable (sha256 : Bytes → Bytes)

/-- The group of the crate in the place of the library's. A commit that panics is taken to
leave the group as it was. -/
def groupLibrary : MlsLibrary Group Commit GroupContext where
  fromBytes _ := .error "not on the wire"
  currentEpoch := Group.epoch
  processIncomingMessage group commit :=
    match Group.applyCommit sha256 group commit with
    | (.ok context, group') => (.ok (.commit context), group')
    | (.error (.returned error), group') => (.error error.message, group')
    | (.error .panicked, _) => (.error "panicked", group)

/-- Both calls succeed or both fail, and they leave the same group if there is no panic. -/
def SameOutcome {α β : Type} (processed : Except ExternalCommitError α × Group)
    (applied : Except (Fault MlsError) β × Group) : Prop :=
  processed.1.isOk = applied.1.isOk ∧ (applied.1 ≠ .error .panicked → processed.2 = applied.2)

/-- A commit of the crate under the label of its own epoch. -/
def ownCommit (commit : Commit) : ExternalCommit Commit := ⟨commit.epoch, commit⟩

theorem sameOutcome_explicit (group : Group) (commit : Commit) :
    SameOutcome (processExternalCommitExplicit (groupLibrary sha256) group (ownCommit commit))
      (Group.applyCommit sha256 group commit) := by
  by_cases hepoch : commit.epoch = group.epoch + 1
  · have hnext : (ownCommit commit).epoch = (groupLibrary sha256).currentEpoch group + 1 := hepoch
    rw [explicit_of_next hnext, processCommitMessage]
    rcases happly : Group.applyCommit sha256 group commit with ⟨result, group'⟩
    rcases result with (error | _) | context
    all_goals simp [groupLibrary, ownCommit, happly, SameOutcome, Except.isOk, Except.toBool]
  · have hne : (ownCommit commit).epoch ≠ (groupLibrary sha256).currentEpoch group + 1 := hepoch
    rw [explicit_of_ne hne, Group.applyCommit, if_pos hepoch]
    exact ⟨rfl, fun _ => rfl⟩

/-- The calls fail together, or succeed together with the same group. -/
theorem SameOutcome.cases {α β : Type} {processed : Except ExternalCommitError α × Group}
    {applied : Except (Fault MlsError) β × Group} (h : SameOutcome processed applied) :
    (∃ fault fault' group group', processed = (.error fault, group) ∧
        applied = (.error fault', group') ∧ (fault' ≠ .panicked → group = group')) ∨
      ∃ a b group, processed = (.ok a, group) ∧ applied = (.ok b, group) := by
  obtain ⟨result, group⟩ := processed
  obtain ⟨result', group'⟩ := applied
  obtain ⟨hok, hsame⟩ := h
  cases result' with
  | error fault' =>
    cases result with
    | error fault =>
      exact .inl ⟨fault, fault', group, group', rfl, rfl,
        fun hpanic => hsame (by simpa using hpanic)⟩
    | ok _ => cases hok
  | ok b =>
    cases result with
    | error fault => cases hok
    | ok a =>
      obtain rfl : group = group' := hsame (by simp)
      exact .inr ⟨a, b, group, rfl, rfl⟩

theorem sameOutcome_error {α β : Type} {fault : ExternalCommitError} {fault' : Fault MlsError}
    {group group' : Group} (h : fault' ≠ .panicked → group = group') :
    SameOutcome (α := α) (β := β) (.error fault, group) (.error fault', group') :=
  ⟨rfl, fun hpanic => h fun heq => hpanic (by rw [heq])⟩

theorem sameOutcome_commits (group : Group) (commits : List Commit) :
    SameOutcome (processExternalCommits (groupLibrary sha256) group (commits.map ownCommit))
      (Group.applyCommits sha256 group commits) := by
  induction commits generalizing group with
  | nil => exact ⟨rfl, fun _ => rfl⟩
  | cons commit commits ih =>
    rw [List.map_cons, processExternalCommits, Group.applyCommits]
    rcases (sameOutcome_explicit sha256 group commit).cases with
      ⟨fault, fault', group, group', hprocess, happly, hsame⟩ | ⟨_, _, group, hprocess, happly⟩
    · rw [hprocess, happly]
      exact sameOutcome_error hsame
    · rw [hprocess, happly]
      exact ih group

/-- With the crate's own group in the place of the library's, the resynchronisation accepts
what the recovery of the crate accepts, and leaves the group that it leaves. -/
theorem resync_matches_recovery (group : Group) (target : Commit) (missing : List Commit) :
    SameOutcome
      (processExternalCommitWithResync (groupLibrary sha256) group (ownCommit target)
        fun _ _ => .ok (missing.map ownCommit))
      (Group.applyCommitWithRecovery sha256 group target missing) := by
  have hdetect : detectExternalCommitGap (groupLibrary sha256) group (ownCommit target).epoch =
      detectEpochGap group.epoch target.epoch := rfl
  have hrefused (h : detectEpochGap group.epoch target.epoch ≠ .next) :
      Group.applyCommit sha256 group target =
        (.error (.returned (.outOfOrderCommit ⟨group.epoch + 1, target.epoch⟩)), group) := by
    rw [← hdetect, Ne, detectExternalCommitGap_eq_next] at h
    have hne : target.epoch ≠ group.epoch + 1 := h
    rw [Group.applyCommit, if_pos hne]
  rw [processExternalCommitWithResync, hdetect, Group.applyCommitWithRecovery]
  cases hgap : detectEpochGap group.epoch target.epoch with
  | current =>
    dsimp only
    rw [hrefused (by simp [hgap])]
    exact ⟨rfl, fun _ => rfl⟩
  | stale expected found =>
    dsimp only
    rw [hrefused (by simp [hgap])]
    exact ⟨rfl, fun _ => rfl⟩
  | next => exact sameOutcome_explicit sha256 group target
  | gap expected found epochs =>
    have hsort : sortOn (· ≤ ·) ExternalCommit.epoch (missing.map ownCommit) =
        (sortOn (· ≤ ·) Commit.epoch missing).map ownCommit :=
      (map_sortOn (· ≤ ·) Commit.epoch ExternalCommit.epoch ownCommit missing
        fun _ _ => rfl).symm
    have hlabels (commits : List Commit) :
        (commits.map ownCommit).map ExternalCommit.epoch = commits.map Commit.epoch := by
      rw [List.map_map]
      rfl
    dsimp only
    rw [hsort, hlabels]
    split_ifs
    · exact ⟨rfl, fun _ => rfl⟩
    rcases (sameOutcome_commits sha256 group (sortOn (· ≤ ·) Commit.epoch missing)).cases with
      ⟨fault, fault', group, group', hprocess, happly, hsame⟩ | ⟨_, _, group, hprocess, happly⟩
    · rw [hprocess, happly]
      exact sameOutcome_error hsame
    · rw [hprocess, happly]
      exact sameOutcome_explicit sha256 group target

end OwnGroup
end Spex
