import Spex.KeySort
import Spex.MlsGroup
import Spex.Tabulated

/-!
# Recovery over a gap of epochs

A commit that is several epochs ahead is applied together with the commits in
between. These are sorted by epoch, compared with the epochs that are missing,
and applied one after the other, so the result is that of applying them in
order. A commit that fails leaves behind what was changed before it failed.
-/
namespace Spex
open Fallible KeySort Cbor

inductive EpochGap where
  | current
  | next
  | stale (expected found : UInt64)
  | gap (expected found : UInt64) (missing : List UInt64)
  deriving DecidableEq, Repr

/-- `(start..stop).collect()`. -/
def epochRange (start stop : UInt64) : List UInt64 :=
  (List.range' start.toNat (stop.toNat - start.toNat)).map UInt64.ofNat

def detectEpochGap (localEpoch receivedEpoch : UInt64) : EpochGap :=
  if receivedEpoch = localEpoch then .current
  else if receivedEpoch = localEpoch + 1 then .next
  else if receivedEpoch < localEpoch then .stale (localEpoch + 1) receivedEpoch
  else .gap (localEpoch + 1) receivedEpoch (epochRange (localEpoch + 1) receivedEpoch)

theorem toNat_succ_of_lt {epoch : UInt64} (h : epoch.toNat + 1 < 2 ^ 64) :
    (epoch + 1).toNat = epoch.toNat + 1 := by
  rw [UInt64.toNat_add, UInt64.toNat_one]
  omega

namespace Group
section Calls
variable (sha256 : Bytes → Bytes)

def removeMember (self : Group) (memberId : String) : Except (Fault MlsError) Commit × Group :=
  let commit : Commit := { epoch := self.epoch + 1, removedMembers := [memberId] }
  let (result, group) := applyCommit sha256 self commit
  (result.map fun _ => commit, group)

/-- The loop over the missing commits. -/
def applyCommits (self : Group) : List Commit → Except (Fault MlsError) Unit × Group
  | [] => (.ok (), self)
  | commit :: commits =>
    match applyCommit sha256 self commit with
    | (.error fault, group) => (.error fault, group)
    | (.ok _, group) => applyCommits group commits

def applyCommitWithRecovery (self : Group) (target : Commit) (missingCommits : List Commit) :
    Except (Fault MlsError) GroupContext × Group :=
  match detectEpochGap self.epoch target.epoch with
  | .current | .stale _ _ => applyCommit sha256 self target
  | .next => applyCommit sha256 self target
  | .gap _ _ missing =>
    let missingCommits := sortOn (· ≤ ·) Commit.epoch missingCommits
    if missingCommits.map Commit.epoch ≠ missing then
      (.error (.returned (.outOfOrderCommit ⟨self.epoch + 1, target.epoch⟩)), self)
    else
      match applyCommits sha256 self missingCommits with
      | (.error fault, group) => (.error fault, group)
      | (.ok _, group) => applyCommit sha256 group target

end Calls

/-- The group after the suite and the flags of a commit have been taken over. -/
def described (group : Group) (commit : Commit) : Group :=
  { group with context := { group.context with
    protoSuite := commit.protoSuite.getD group.context.protoSuite
    flags := commit.flags.getD group.context.flags } }

/-- The context that a commit leads to. -/
structure Refreshed (context : GroupContext) (commit : Commit) (context' : GroupContext) :
    Prop where
  protoSuite : context'.protoSuite = commit.protoSuite.getD context.protoSuite
  flags : context'.flags = commit.flags.getD context.flags
  cfgHashId : context'.cfgHashId = commit.cfgHashId.getD context.cfgHashId
  cfgHash : context'.cfgHash = commit.cfgHash.getD context.cfgHash
  extensions : mlsExtensions context'.protoSuite context'.flags context'.cfgHashId
    context'.cfgHash = some context'.extensions

/-- Everything a commit can do to a group. -/
inductive CommitCase (sha256 : Bytes → Bytes) (group : Group) (commit : Commit) :
    Except (Fault MlsError) GroupContext × Group → Prop
  | outOfOrder (hepoch : commit.epoch ≠ group.epoch + 1) :
    CommitCase sha256 group commit
      (.error (.returned (.outOfOrderCommit ⟨group.epoch + 1, commit.epoch⟩)), group)
  | unsupported (hepoch : commit.epoch = group.epoch + 1) (id : UInt16)
    (hid : commit.cfgHashId = some id) (hne : id ≠ 1) :
    CommitCase sha256 group commit
      (.error (.returned (.unsupportedHashId id)), group.described commit)
  | panicked (hepoch : commit.epoch = group.epoch + 1)
    (hids : ∀ id ∈ commit.cfgHashId, id = 1)
    (hlong : 255 < (commit.cfgHash.getD group.context.cfgHash).length) (group' : Group) :
    CommitCase sha256 group commit (.error .panicked, group')
  | applied (hepoch : commit.epoch = group.epoch + 1)
    (hids : ∀ id ∈ commit.cfgHashId, id = 1)
    (hshort : (commit.cfgHash.getD group.context.cfgHash).length ≤ 255) (context : GroupContext)
    (hcontext : Refreshed group.context commit context) :
    CommitCase sha256 group commit (.ok context, ⟨commit.epoch, context,
      updateMembers group.members commit,
      updateSecrets sha256 group.hashId group.secrets commit, group.hashId⟩)

theorem setHashId_of_unsupported {commit : Commit} {id : UInt16}
    (hid : commit.cfgHashId = some id) (hne : id ≠ 1) (group : Group) :
    group.setHashId commit.cfgHashId = .error (.unsupportedHashId id) := by
  simp [hid, setHashId, hashIdFromU16, hne, Except.map]

theorem setHashId_of_ids {commit : Commit} (hids : ∀ id ∈ commit.cfgHashId, id = 1)
    (group : Group) : group.setHashId commit.cfgHashId = .ok { group with
      context := { group.context with
        cfgHashId := commit.cfgHashId.getD group.context.cfgHashId } } := by
  cases hid : commit.cfgHashId with
  | none => rfl
  | some id =>
    have hone : id = 1 := hids id hid
    simp [setHashId, hashIdFromU16, hone, Except.map]

theorem applyCommit_case {sha256 : Bytes → Bytes} {group : Group} {commit : Commit}
    {outcome : Except (Fault MlsError) GroupContext × Group}
    (h : applyCommit sha256 group commit = outcome) : CommitCase sha256 group commit outcome := by
  rw [← h, applyCommit]
  split_ifs with hepoch
  · exact .outOfOrder hepoch
  rw [not_not] at hepoch
  dsimp only
  by_cases hids : ∀ id ∈ commit.cfgHashId, id = 1
  · rw [setHashId_of_ids hids]
    dsimp only
    rcases le_or_gt (commit.cfgHash.getD group.context.cfgHash).length 255 with hshort | hlong
    · simp only [GroupContext.rebuildExtensions, mlsExtensions, extCfgHashBytes, hshort, if_true]
      refine .applied hepoch hids hshort _ ⟨rfl, rfl, rfl, rfl, ?_⟩
      simp [mlsExtensions, extCfgHashBytes, hshort]
    · simp only [GroupContext.rebuildExtensions, mlsExtensions, extCfgHashBytes,
        if_neg (not_le.mpr hlong)]
      exact .panicked hepoch hids hlong _
  · push Not at hids
    obtain ⟨id, hid, hne⟩ := hids
    rw [setHashId_of_unsupported hid hne]
    exact .unsupported hepoch id hid hne

section Recovery
variable {sha256 : Bytes → Bytes} {group : Group} {target : Commit} {ordered missing : List Commit}

/-- Commits applied one after the other, up to the first that fails. -/
def inOrder (sha256 : Bytes → Bytes) (group : Group) (commits : List Commit) :
    Except (Fault MlsError) Group :=
  commits.foldlM (fun group commit => settled (applyCommit sha256 group commit)) group

variable (sha256) in
theorem settled_applyCommits (group : Group) (commits : List Commit) :
    settled (applyCommits sha256 group commits) = inOrder sha256 group commits := by
  induction commits generalizing group with
  | nil => rfl
  | cons commit commits ih =>
    rw [applyCommits, inOrder, List.foldlM_cons]
    rcases happly : applyCommit sha256 group commit with ⟨result, group'⟩
    cases result with
    | error fault => rfl
    | ok context => exact ih group'

/-- The list holds the commits for the epochs between the group's and the
target's, in order. -/
def FillsGap (group : Group) (target : Commit) (ordered : List Commit) : Prop :=
  ordered.map (fun commit => commit.epoch.toNat) =
    List.range' (group.epoch.toNat + 1) (target.epoch.toNat - group.epoch.toNat - 1)

instance (group : Group) (target : Commit) (ordered : List Commit) :
    Decidable (FillsGap group target ordered) := inferInstanceAs (Decidable (_ = _))

theorem toNat_epochRange (start stop : UInt64) :
    (epochRange start stop).map UInt64.toNat =
      List.range' start.toNat (stop.toNat - start.toNat) := by
  rw [epochRange, List.map_map]
  refine (List.map_congr_left fun n hn => ?_).trans (List.map_id _)
  have hlt := stop.toNat_lt
  rw [List.mem_range'_1] at hn
  exact UInt64.toNat_ofNat_of_lt' (lt_of_lt_of_le (by omega : n < stop.toNat) hlt.le)

/-- The sort brings any list that fills the gap into the one order that does. -/
theorem sortOn_of_fillsGap (hfill : FillsGap group target ordered) (hperm : ordered.Perm missing) :
    sortOn (· ≤ ·) Commit.epoch missing = ordered := by
  have hsorted : (ordered.map fun commit => commit.epoch.toNat).Pairwise (· < ·) := by
    rw [hfill]
    exact List.pairwise_lt_range'
  rw [List.pairwise_map] at hsorted
  have hnodup : (ordered.map Commit.epoch).Nodup := by
    rw [List.Nodup, List.pairwise_map]
    refine hsorted.imp fun hlt heq => ?_
    rw [heq] at hlt
    exact lt_irrefl _ hlt
  rw [← sortOn_eq_of_perm (· ≤ ·) Commit.epoch hnodup hperm]
  refine sortOn_of_pairwise _ _ _ (hsorted.imp fun hlt => ?_)
  exact UInt64.le_iff_toNat_le.mpr hlt.le

section Gap
variable (hgap : group.epoch.toNat + 1 < target.epoch.toNat)
include hgap

theorem toNat_succ_of_gap : (group.epoch + 1).toNat = group.epoch.toNat + 1 :=
  toNat_succ_of_lt (hgap.trans target.epoch.toNat_lt)

theorem fillsGap_iff (ordered : List Commit) : FillsGap group target ordered ↔
      ordered.map Commit.epoch = epochRange (group.epoch + 1) target.epoch := by
  have hrange := toNat_epochRange (group.epoch + 1) target.epoch
  rw [toNat_succ_of_gap hgap, ← Nat.sub_sub] at hrange
  have hmap : ordered.map (fun commit => commit.epoch.toNat) =
      (ordered.map Commit.epoch).map UInt64.toNat := by
    rw [List.map_map]
    rfl
  rw [FillsGap, ← hrange, hmap]
  exact (List.map_injective_iff.mpr fun _ _ => UInt64.toNat_inj.mp).eq_iff

theorem detectEpochGap_of_gap :
    detectEpochGap group.epoch target.epoch = .gap (group.epoch + 1) target.epoch
      (epochRange (group.epoch + 1) target.epoch) := by
  have hsucc := toNat_succ_of_gap hgap
  unfold detectEpochGap
  rw [if_neg, if_neg, if_neg]
  · rw [UInt64.lt_iff_toNat_lt]
    omega
  · rw [← UInt64.toNat_inj]
    omega
  · rw [← UInt64.toNat_inj]
    omega

/-- Without the missing commits nothing is applied. -/
theorem recovery_of_not_fills
    (hnot : ∀ ordered : List Commit, ordered.Perm missing → ¬ FillsGap group target ordered) :
    applyCommitWithRecovery sha256 group target missing =
      (.error (.returned (.outOfOrderCommit ⟨group.epoch + 1, target.epoch⟩)), group) := by
  rw [applyCommitWithRecovery, detectEpochGap_of_gap hgap]
  dsimp only
  rw [if_pos]
  exact fun h => hnot _ (sortOn_perm _ _ _) ((fillsGap_iff hgap _).mpr h)

/-- With them, they are applied in order and then the target. -/
theorem recovery_of_fills (hfill : FillsGap group target ordered) (hperm : ordered.Perm missing) :
    applyCommitWithRecovery sha256 group target missing =
      match applyCommits sha256 group ordered with
      | (.error fault, group) => (.error fault, group)
      | (.ok _, group) => applyCommit sha256 group target := by
  rw [applyCommitWithRecovery, detectEpochGap_of_gap hgap]
  dsimp only
  rw [sortOn_of_fillsGap hfill hperm, if_neg]
  exact not_not_intro ((fillsGap_iff hgap ordered).mp hfill)

theorem settled_recovery (hfill : FillsGap group target ordered) (hperm : ordered.Perm missing) :
    settled (applyCommitWithRecovery sha256 group target missing) =
      inOrder sha256 group (ordered ++ [target]) := by
  rw [recovery_of_fills hgap hfill hperm, inOrder, List.foldlM_append]
  have hsettled := settled_applyCommits sha256 group ordered
  rcases happly : applyCommits sha256 group ordered with ⟨result, group'⟩
  rw [happly, inOrder] at hsettled
  rw [← hsettled]
  cases result with
  | error fault => rfl
  | ok done =>
    simp only [settled, Except.map, ok_bind, List.foldlM_cons, List.foldlM_nil]
    rcases applyCommit sha256 group' target with ⟨_ | _, _⟩ <;> rfl

theorem recovery_inOrder (missing : List Commit) (group' : Group) :
    settled (applyCommitWithRecovery sha256 group target missing) = .ok group' ↔
      ∃ ordered : List Commit, ordered.Perm missing ∧ FillsGap group target ordered ∧
        inOrder sha256 group (ordered ++ [target]) = .ok group' := by
  constructor
  · intro h
    by_cases hfills : ∃ ordered : List Commit,
        ordered.Perm missing ∧ FillsGap group target ordered
    · obtain ⟨ordered, hperm, hfill⟩ := hfills
      rw [settled_recovery hgap hfill hperm] at h
      exact ⟨ordered, hperm, hfill, h⟩
    · push Not at hfills
      rw [recovery_of_not_fills hgap hfills] at h
      cases h
  · rintro ⟨ordered, hperm, hfill, h⟩
    rwa [settled_recovery hgap hfill hperm]

theorem recovery_perm {missing' : List Commit} (hmissing : missing'.Perm missing) :
    applyCommitWithRecovery sha256 group target missing' =
      applyCommitWithRecovery sha256 group target missing := by
  by_cases hfills : ∃ ordered : List Commit, ordered.Perm missing ∧ FillsGap group target ordered
  · obtain ⟨ordered, hperm, hfill⟩ := hfills
    rw [recovery_of_fills hgap hfill hperm,
      recovery_of_fills hgap hfill (hperm.trans hmissing.symm)]
  · push Not at hfills
    rw [recovery_of_not_fills hgap hfills, recovery_of_not_fills hgap]
    exact fun ordered hperm => hfills ordered (hperm.trans hmissing)

end Gap

/-- Over a gap, recovery succeeds exactly when the missing commits are those of
the epochs in between, once each, and applying them in the order of their epochs
and then the target succeeds; it ends in the same group. The order in which they
are supplied does not matter. -/
theorem recovery_eq_inOrder (hgap : group.epoch.toNat + 1 < target.epoch.toNat)
    (missing : List Commit) :
    (∀ group', settled (applyCommitWithRecovery sha256 group target missing) = .ok group' ↔
      ∃ ordered : List Commit, ordered.Perm missing ∧ FillsGap group target ordered ∧
        inOrder sha256 group (ordered ++ [target]) = .ok group') ∧
    ∀ missing' : List Commit, missing'.Perm missing →
      applyCommitWithRecovery sha256 group target missing' =
        applyCommitWithRecovery sha256 group target missing :=
  ⟨recovery_inOrder hgap missing, fun _ hmissing => recovery_perm hgap hmissing⟩

end Recovery

section Sample
open Tabulated

def chainSeed : Bytes := List.replicate 32 0x11

/-- The group secrets of the first four epochs. -/
def chainSecrets : List Bytes :=
  [BigEndian.write 32 0xf81644b212d3462ef98c29d15b7238744daf88e7c6622e7fe3cfaaf938f60f88,
   BigEndian.write 32 0x2c2f69b719266b652fb57b3b7b76c5bdc70db02867a0563f128063eb8f653ee1,
   BigEndian.write 32 0xa8632d1f6578ae663fa5a6771beddba20295ce2eb3241d5676e43b0315a25257,
   BigEndian.write 32 0x07bbf3ff87d6e3fdb4e85158988df600fd9dc0df915eb85c5c4392e8de8a4f9f]

def chainDigests : List (Bytes × Bytes) :=
  chainSecrets.mapIdx fun epoch secret =>
    ((chainSeed :: chainSecrets).getD epoch [] ++ u64Be (UInt64.ofNat epoch), secret)

def chainConfig : GroupConfig := ⟨⟨0, 1, 1⟩, 0, 1, List.replicate 32 0x90, some chainSeed⟩

/-- The group of `chainConfig` at an epoch, with some members. -/
def chainGroup (epoch : ℕ) (members : List String) : Group :=
  ⟨UInt64.ofNat epoch, ⟨⟨0, 1, 1⟩, 0, 1, List.replicate 32 0x90,
    [extProtoSuiteBytes 0 1 1 0,
      extension extSpexCfgHash (u16Be 1 ++ [32] ++ List.replicate 32 0x90)]⟩,
    members, ⟨UInt64.ofNat epoch, chainSecrets.getD epoch []⟩, .sha256⟩

theorem create_chainGroup : create (tabulated chainDigests) chainConfig =
    .ok (chainGroup 0 []) := rfl

def firstCommit : Commit := { epoch := 1, addedMembers := ["alice", "bob"] }

def secondCommit : Commit := { epoch := 2, removedMembers := ["alice"] }

/-- Two missing commits, supplied in the wrong order, and the target. -/
theorem recovery_eq_inOrder_sample :
    create (tabulated chainDigests) chainConfig = .ok (chainGroup 0 []) ∧
      settled (applyCommitWithRecovery (tabulated chainDigests) (chainGroup 0 [])
        { epoch := 3, addedMembers := ["carol"] } [secondCommit, firstCommit]) =
        .ok (chainGroup 3 ["bob", "carol"]) := by
  refine ⟨create_chainGroup, ?_⟩
  refine ((recovery_eq_inOrder (by decide) _).1 _).mpr ⟨[firstCommit, secondCommit], ?_, ?_, ?_⟩
  · exact .swap _ _ _
  · decide
  · rfl

end Sample

section Failure
variable {sha256 : Bytes → Bytes} {group : Group} {commit target : Commit}
  {commits ordered : List Commit}

/-- The commit names a hash function that is not supported. -/
def Unsupported (commit : Commit) : Prop := ∃ id ∈ commit.cfgHashId, id ≠ 1

/-- The commit brings a suite or flags other than the group's. -/
def Redescribes (group : Group) (commit : Commit) : Prop :=
  (∃ suite ∈ commit.protoSuite, suite ≠ group.context.protoSuite) ∨
    ∃ flags ∈ commit.flags, flags ≠ group.context.flags

theorem described_eq_iff (group : Group) (commit : Commit) :
    group.described commit = group ↔ ¬ Redescribes group commit := by
  have hsuite : commit.protoSuite.getD group.context.protoSuite = group.context.protoSuite ↔
      ∀ suite ∈ commit.protoSuite, suite = group.context.protoSuite := by
    cases commit.protoSuite <;> simp
  have hflags : commit.flags.getD group.context.flags = group.context.flags ↔
      ∀ flags ∈ commit.flags, flags = group.context.flags := by
    cases commit.flags <;> simp
  have heq : group.described commit = group ↔
      commit.protoSuite.getD group.context.protoSuite = group.context.protoSuite ∧
        commit.flags.getD group.context.flags = group.context.flags := by
    obtain ⟨epoch, ⟨suite, flags, id, hash, extensions⟩, members, secrets, hashId⟩ := group
    simp [described]
  rw [heq, hsuite, hflags, Redescribes]
  push Not
  rfl

/-- The commits succeed one after the other on a group with this configuration
hash. -/
def Passes : Bytes → List Commit → Prop
  | _, [] => True
  | cfgHash, commit :: commits =>
    (∀ id ∈ commit.cfgHashId, id = 1) ∧ (commit.cfgHash.getD cfgHash).length ≤ 255 ∧
      Passes (commit.cfgHash.getD cfgHash) commits

/-- The commits are for the epochs that follow the group's. -/
def Continues (group : Group) (commits : List Commit) : Prop :=
  commits.map (fun commit => commit.epoch.toNat) =
    List.range' (group.epoch.toNat + 1) commits.length

theorem continues_cons (h : Continues group (commit :: commits)) :
    commit.epoch = group.epoch + 1 ∧ commit.epoch.toNat = group.epoch.toNat + 1 ∧
      ∀ group' : Group, group'.epoch = commit.epoch → Continues group' commits := by
  rw [Continues, List.map_cons, List.length_cons, List.range'_succ, List.cons.injEq] at h
  have hlt := commit.epoch.toNat_lt
  refine ⟨UInt64.toNat_inj.mp ?_, h.1, fun group' hepoch => ?_⟩
  · rw [h.1, UInt64.toNat_add, UInt64.toNat_one]
    omega
  · rw [Continues, hepoch, h.1, h.2]

variable (sha256) in
/-- What a commit that passes leaves behind. -/
theorem applyCommit_of_passes (hepoch : commit.epoch = group.epoch + 1)
    (hids : ∀ id ∈ commit.cfgHashId, id = 1)
    (hshort : (commit.cfgHash.getD group.context.cfgHash).length ≤ 255) :
    ∃ context group', applyCommit sha256 group commit = (.ok context, group') ∧
      group'.epoch = commit.epoch ∧
      group'.context.cfgHash = commit.cfgHash.getD group.context.cfgHash := by
  generalize hnext : applyCommit sha256 group commit = outcome
  cases applyCommit_case hnext with
  | outOfOrder hne => exact absurd hepoch hne
  | unsupported _ id hid hne => exact absurd (hids id hid) hne
  | panicked _ _ hlong => omega
  | applied _ _ _ context hcontext => exact ⟨context, _, rfl, rfl, hcontext.cfgHash⟩

variable (sha256) in
/-- An unsupported commit for the next epoch changes the description only. -/
theorem applyCommit_of_unsupported (hepoch : commit.epoch = group.epoch + 1)
    (h : Unsupported commit) : ∃ error, applyCommit sha256 group commit =
      (.error (.returned error), group.described commit) := by
  obtain ⟨id, hid, hne⟩ := h
  generalize hnext : applyCommit sha256 group commit = outcome
  cases applyCommit_case hnext with
  | outOfOrder hne => exact absurd hepoch hne
  | unsupported _ id _ _ => exact ⟨_, rfl⟩
  | panicked _ hids => exact absurd (hids id hid) hne
  | applied _ hids => exact absurd (hids id hid) hne

/-- An error of a commit for the next epoch says that it is unsupported. -/
theorem unsupported_of_error (hepoch : commit.epoch = group.epoch + 1) {error : MlsError}
    (h : (applyCommit sha256 group commit).1 = .error (.returned error)) : Unsupported commit := by
  generalize hnext : applyCommit sha256 group commit = outcome at h
  cases applyCommit_case hnext with
  | outOfOrder hne => exact absurd hepoch hne
  | unsupported _ id hid hne => exact ⟨id, hid, hne⟩
  | panicked => cases h
  | applied => cases h

/-- The commits fail at an unsupported one after others have been applied, or at
a first one that has changed the description. -/
def BreaksOff (group : Group) (commits : List Commit) : Prop :=
  ∃ applied commit rest, commits = applied ++ commit :: rest ∧
    Passes group.context.cfgHash applied ∧ Unsupported commit ∧
    (applied = [] → Redescribes group commit)

variable (sha256) in
/-- Where the commits fail: the group that the ones before have led to. -/
theorem applyCommits_split {applied rest : List Commit}
    (hcontinues : Continues group (applied ++ commit :: rest))
    (hpasses : Passes group.context.cfgHash applied) (hcommit : Unsupported commit) :
    ∃ error group', applyCommits sha256 group (applied ++ commit :: rest) =
        (.error (.returned error), group'.described commit) ∧
      group'.epoch.toNat = group.epoch.toNat + applied.length ∧
      (applied = [] → group' = group) := by
  induction applied generalizing group with
  | nil =>
    obtain ⟨hepoch, -, -⟩ := continues_cons hcontinues
    obtain ⟨error, happly⟩ := applyCommit_of_unsupported sha256 hepoch hcommit
    refine ⟨error, group, ?_, rfl, fun _ => rfl⟩
    rw [List.nil_append, applyCommits, happly]
  | cons first applied ih =>
    obtain ⟨hepoch, hsucc, hrest⟩ := continues_cons hcontinues
    obtain ⟨hids, hshort, hpasses⟩ := hpasses
    obtain ⟨context, next, happly, hnext, hcfg⟩ :=
      applyCommit_of_passes sha256 hepoch hids hshort
    rw [← hcfg] at hpasses
    obtain ⟨error, group', hstop, hcount, -⟩ := ih (hrest next hnext) hpasses
    refine ⟨error, group', ?_, ?_, fun h => by simp at h⟩
    · rw [List.cons_append, applyCommits, happly]
      exact hstop
    · rw [hcount, hnext, hsucc, List.length_cons]
      omega

/-- Commits that continue the group and return an error fail at an unsupported
one, with the ones before it applied. -/
theorem exists_split_of_error (hcontinues : Continues group commits) {error : MlsError}
    (h : (applyCommits sha256 group commits).1 = .error (.returned error)) :
    ∃ applied commit rest, commits = applied ++ commit :: rest ∧
      Passes group.context.cfgHash applied ∧ Unsupported commit := by
  induction commits generalizing group with
  | nil => cases h
  | cons commit commits ih =>
    obtain ⟨hepoch, -, hrest⟩ := continues_cons hcontinues
    by_cases hunsupported : Unsupported commit
    · exact ⟨[], commit, commits, rfl, trivial, hunsupported⟩
    have herror := @unsupported_of_error sha256 group commit hepoch
    rw [applyCommits] at h
    generalize hnext : applyCommit sha256 group commit = outcome at h herror
    cases applyCommit_case hnext with
    | outOfOrder hne => exact absurd hepoch hne
    | unsupported => exact absurd (herror rfl) hunsupported
    | panicked => cases h
    | applied _ hids hshort context hcontext =>
      have hcfg := hcontext.cfgHash
      obtain ⟨applied, stop, rest, rfl, hpasses, hstop⟩ := ih (hrest _ rfl) h
      dsimp only at hpasses
      rw [hcfg] at hpasses
      exact ⟨commit :: applied, stop, rest, rfl, ⟨hids, hshort, hpasses⟩, hstop⟩

/-- An error that is returned leaves the group as it was. -/
def Untouched {α : Type} (group : Group) (outcome : Except (Fault MlsError) α × Group) : Prop :=
  ∀ error, outcome.1 = .error (.returned error) → outcome.2 = group

theorem untouched_error {α : Type} {fault : Fault MlsError} {group' : Group} :
    Untouched (α := α) group (.error fault, group') ↔
      ∀ error, fault = .returned error → group' = group := by
  simp [Untouched]

theorem untouched_ok {α : Type} (value : α) (group' : Group) :
    Untouched group (.ok value, group') := fun _ h => by cases h

theorem untouched_applyCommits (hcontinues : Continues group commits) :
    Untouched group (applyCommits sha256 group commits) ↔ ¬ BreaksOff group commits := by
  constructor
  · rintro h ⟨applied, commit, rest, rfl, hpasses, hcommit, hdescribes⟩
    obtain ⟨error, group', hstop, hcount, hfirst⟩ :=
      applyCommits_split sha256 hcontinues hpasses hcommit
    rw [hstop] at h
    have hsame : group'.described commit = group := h error rfl
    have hepoch : (group'.described commit).epoch = group.epoch := congrArg Group.epoch hsame
    have hnil : applied = [] := by
      rw [← hepoch] at hcount
      exact List.length_eq_zero_iff.mp (Nat.left_eq_add.mp hcount)
    rw [hfirst hnil] at hsame
    exact (described_eq_iff group commit).mp hsame (hdescribes hnil)
  · intro h error herror
    obtain ⟨applied, commit, rest, rfl, hpasses, hcommit⟩ := exists_split_of_error hcontinues herror
    have hfirst : applied = [] ∧ ¬ Redescribes group commit := by
      by_contra hnot
      rw [← Classical.not_imp, not_not] at hnot
      exact h ⟨applied, commit, rest, rfl, hpasses, hcommit, hnot⟩
    obtain ⟨error', group', hstop, -, hgroup⟩ :=
      applyCommits_split sha256 hcontinues hpasses hcommit
    rw [hstop, hgroup hfirst.1]
    exact (described_eq_iff group commit).mpr hfirst.2

theorem applyCommits_append (group : Group) (commits rest : List Commit) :
    applyCommits sha256 group (commits ++ rest) =
      match applyCommits sha256 group commits with
      | (.error fault, group) => (.error fault, group)
      | (.ok _, group) => applyCommits sha256 group rest := by
  induction commits generalizing group with
  | nil => rfl
  | cons commit commits ih =>
    rw [List.cons_append, applyCommits, applyCommits]
    rcases applyCommit sha256 group commit with ⟨_ | _, group'⟩
    · rfl
    · exact ih group'

/-- A commit is refused after its suite and its flags have been taken over. -/
def HalfApplied (group : Group) (commit : Commit) : Prop :=
  commit.epoch = group.epoch + 1 ∧ Unsupported commit ∧ Redescribes group commit

theorem untouched_applyCommit (group : Group) (commit : Commit) :
    Untouched group (applyCommit sha256 group commit) ↔ ¬ HalfApplied group commit := by
  by_cases hepoch : commit.epoch = group.epoch + 1
  · by_cases hunsupported : Unsupported commit
    · obtain ⟨error, happly⟩ := applyCommit_of_unsupported sha256 hepoch hunsupported
      rw [happly]
      have hdescribed := described_eq_iff group commit
      constructor
      · rintro h ⟨-, -, hredescribes⟩
        exact hdescribed.mp (h error rfl) hredescribes
      · intro h _ _
        exact hdescribed.mpr fun hredescribes => h ⟨hepoch, hunsupported, hredescribes⟩
    · constructor
      · rintro - ⟨-, h, -⟩
        exact hunsupported h
      · intro _ error herror
        exact absurd (unsupported_of_error hepoch herror) hunsupported
  · rw [applyCommit, if_pos hepoch]
    exact ⟨fun _ h => hepoch h.1, fun _ _ _ => rfl⟩

theorem continues_of_fillsGap (hgap : group.epoch.toNat + 1 < target.epoch.toNat)
    (hfill : FillsGap group target ordered) : Continues group (ordered ++ [target]) := by
  have hlength : ordered.length = target.epoch.toNat - group.epoch.toNat - 1 := by
    have h := congrArg List.length hfill
    rwa [List.length_map, List.length_range'] at h
  rw [FillsGap, ← hlength] at hfill
  rw [Continues, List.map_append, hfill, List.length_append, List.range'_append_1.symm]
  simp only [List.map_cons, List.map_nil, List.length_cons, List.length_nil, zero_add,
    List.range'_one, List.append_cancel_left_eq, List.cons.injEq, and_true]
  omega

/-- A recovery over a gap fails as the chain of its commits does. -/
theorem untouched_recovery (hgap : group.epoch.toNat + 1 < target.epoch.toNat)
    {missing : List Commit} (hfill : FillsGap group target ordered) (hperm : ordered.Perm missing) :
    Untouched group (applyCommitWithRecovery sha256 group target missing) ↔
      Untouched group (applyCommits sha256 group (ordered ++ [target])) := by
  rw [recovery_of_fills hgap hfill hperm, applyCommits_append]
  rcases applyCommits sha256 group ordered with ⟨_ | _, group'⟩
  · exact untouched_error.trans untouched_error.symm
  · dsimp only
    rw [applyCommits]
    rcases applyCommit sha256 group' target with ⟨_ | context, final⟩
    · exact untouched_error.trans untouched_error.symm
    · exact iff_of_true (untouched_ok context final) (untouched_ok () final)

theorem recovery_of_not_gap (hgap : ¬ group.epoch.toNat + 1 < target.epoch.toNat)
    (missing : List Commit) :
    applyCommitWithRecovery sha256 group target missing = applyCommit sha256 group target := by
  unfold applyCommitWithRecovery detectEpochGap
  split_ifs with hcurrent hnext hstale
  · rfl
  · rfl
  · rfl
  · rw [← UInt64.toNat_inj] at hcurrent hnext
    rw [UInt64.lt_iff_toNat_lt] at hstale
    have hlt := target.epoch.toNat_lt
    rw [UInt64.toNat_add, UInt64.toNat_one] at hnext
    omega

/-- A failed commit leaves the group untouched unless it names an unsupported
hash function and brings another suite or other flags. A failed recovery leaves
it untouched unless the chain breaks off: an unsupported commit comes after
others, or comes first and brings another suite or other flags. -/
theorem failed_commit_untouched_iff (sha256 : Bytes → Bytes) (group : Group) :
    (∀ commit, Untouched group (applyCommit sha256 group commit) ↔
      ¬ HalfApplied group commit) ∧
    ∀ target missing, Untouched group (applyCommitWithRecovery sha256 group target missing) ↔
      if group.epoch.toNat + 1 < target.epoch.toNat then
        ∀ ordered : List Commit, ordered.Perm missing → FillsGap group target ordered →
          ¬ BreaksOff group (ordered ++ [target])
      else ¬ HalfApplied group target := by
  refine ⟨untouched_applyCommit group, fun target missing => ?_⟩
  split_ifs with hgap
  · constructor
    · intro h ordered hperm hfill
      rw [untouched_recovery hgap hfill hperm] at h
      exact (untouched_applyCommits (continues_of_fillsGap hgap hfill)).mp h
    · intro h
      by_cases hfills : ∃ ordered : List Commit,
          ordered.Perm missing ∧ FillsGap group target ordered
      · obtain ⟨ordered, hperm, hfill⟩ := hfills
        rw [untouched_recovery hgap hfill hperm]
        exact (untouched_applyCommits (continues_of_fillsGap hgap hfill)).mpr
          (h ordered hperm hfill)
      · push Not at hfills
        rw [recovery_of_not_fills hgap hfills]
        exact fun _ _ => rfl
  · rw [recovery_of_not_gap hgap]
    exact untouched_applyCommit group target

/-- A refused commit that changes the flags, and a chain of two of which the
second is refused. -/
theorem failed_commits_leave_traces :
    create (Tabulated.tabulated chainDigests) chainConfig = .ok (chainGroup 0 []) ∧
      ¬ Untouched (chainGroup 0 []) (applyCommit (Tabulated.tabulated chainDigests)
        (chainGroup 0 []) { epoch := 1, flags := some 1, cfgHashId := some 2 }) ∧
      ¬ Untouched (chainGroup 0 []) (applyCommitWithRecovery (Tabulated.tabulated chainDigests)
        (chainGroup 0 []) { epoch := 2, cfgHashId := some 2 }
        [{ epoch := 1, addedMembers := ["alice"] }]) := by
  refine ⟨create_chainGroup, fun h => ?_, fun h => ?_⟩
  · have hflags : (1 : UInt8) = 0 := congrArg (fun group => group.context.flags) (h _ rfl)
    exact absurd hflags (by decide)
  · have hepoch : (1 : UInt64) = 0 := congrArg Group.epoch (h _ rfl)
    exact absurd hepoch (by decide)

end Failure
end Group
end Spex
