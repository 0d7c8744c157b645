import Spex.GroupRecovery
import Spex.Tabulated

/-!
# What holds of every group

A group is made by `create` and changed by commits, recoveries and the addition
and removal of members. Whatever calls succeed, in whatever order, its members
are distinct, its extensions are those of its configuration, its secret is of
its epoch, and its epoch counts the commits since its creation.
-/
namespace Spex
open Fallible KeySort

namespace Group

/-- The calls that change a group. -/
inductive Change where
  | commit (commit : Commit)
  | recovery (target : Commit) (missing : List Commit)
  | add (memberId : String)
  | remove (memberId : String)

section Changes
variable (sha256 : Bytes → Bytes)

/-- The group after a call that succeeded. -/
def change (group : Group) : Change → Except (Fault MlsError) Group
  | .commit commit => settled (applyCommit sha256 group commit)
  | .recovery target missing => settled (applyCommitWithRecovery sha256 group target missing)
  | .add memberId => settled (addMember sha256 group memberId)
  | .remove memberId => settled (removeMember sha256 group memberId)

end Changes

/-- The commits that a call applies when it succeeds. -/
def applied (group : Group) : Change → List Commit
  | .commit commit => [commit]
  | .recovery target missing =>
    if group.epoch.toNat + 1 < target.epoch.toNat then
      sortOn (· ≤ ·) Commit.epoch missing ++ [target]
    else [target]
  | .add memberId => [{ epoch := group.epoch + 1, addedMembers := [memberId] }]
  | .remove memberId => [{ epoch := group.epoch + 1, removedMembers := [memberId] }]

/-- The groups that successful calls lead to, with the commits applied since the
creation. -/
inductive Reached (sha256 : Bytes → Bytes) : ℕ → Group → Prop
  | created {config : GroupConfig} {group : Group} (h : create sha256 config = .ok group) :
    Reached sha256 0 group
  | changed {commits : ℕ} {group group' : Group} (call : Change)
    (h : Reached sha256 commits group) (hcall : change sha256 group call = .ok group') :
    Reached sha256 (commits + (applied group call).length) group'

/-- The representation invariant after a number of commits. -/
structure Sound (commits : ℕ) (group : Group) : Prop where
  members : group.members.Nodup
  extensions : mlsExtensions group.context.protoSuite group.context.flags
    group.context.cfgHashId group.context.cfgHash = some group.context.extensions
  secrets : group.secrets.epoch = group.epoch
  hashId : hashIdFromU16 group.context.cfgHashId = .ok group.hashId
  epoch : group.epoch = UInt64.ofNat commits

variable {sha256 : Bytes → Bytes} {group group' : Group} {commits : ℕ}

theorem settled_addMember (memberId : String) : settled (addMember sha256 group memberId) =
    settled (applyCommit sha256 group
      { epoch := group.epoch + 1, addedMembers := [memberId] }) := by
  rw [addMember]
  rcases applyCommit sha256 group _ with ⟨_ | _, _⟩ <;> rfl

theorem settled_removeMember (memberId : String) : settled (removeMember sha256 group memberId) =
    settled (applyCommit sha256 group
      { epoch := group.epoch + 1, removedMembers := [memberId] }) := by
  rw [removeMember]
  rcases applyCommit sha256 group _ with ⟨_ | _, _⟩ <;> rfl

/-- Every call that succeeds applies its commits in order. -/
theorem change_eq_inOrder {call : Change} (h : change sha256 group call = .ok group') :
    inOrder sha256 group (applied group call) = .ok group' := by
  have hsingle : ∀ commit, inOrder sha256 group [commit] =
      settled (applyCommit sha256 group commit) := by
    intro commit
    rw [inOrder, List.foldlM_cons]
    cases settled (applyCommit sha256 group commit) <;> rfl
  cases call with
  | commit commit => exact (hsingle commit).trans h
  | recovery target missing =>
    rw [applied]
    split_ifs with hgap
    · obtain ⟨ordered, hperm, hfill, hrun⟩ := (recovery_inOrder hgap missing group').mp h
      rwa [sortOn_of_fillsGap hfill hperm]
    · rw [change, recovery_of_not_gap hgap] at h
      exact (hsingle target).trans h
  | add memberId => exact (hsingle _).trans ((settled_addMember memberId).symm.trans h)
  | remove memberId => exact (hsingle _).trans ((settled_removeMember memberId).symm.trans h)

theorem create_sound {config : GroupConfig} (h : create sha256 config = .ok group) :
    Sound 0 group := by
  rw [create] at h
  cases hid : hashIdFromU16 config.cfgHashId with
  | error error =>
    rw [hid] at h
    cases h
  | ok hashId =>
    rw [hid] at h
    dsimp only at h
    cases hext : mlsExtensions config.protoSuite config.flags config.cfgHashId
        config.cfgHash with
    | none =>
      rw [GroupContext.rebuildExtensions, hext] at h
      cases h
    | some extensions =>
      rw [GroupContext.rebuildExtensions, hext] at h
      rw [← Except.ok.inj h]
      exact ⟨.nil, hext, rfl, hid, rfl⟩

theorem nodup_updateMembers {members : List String} (h : members.Nodup) (commit : Commit) :
    (updateMembers members commit).Nodup := by
  rw [updateMembers_eq]
  exact (Roster.nodup_pushAll h commit.addedMembers).filter _

/-- The secret after a commit is of the commit's epoch, whether the commit brings
it or it is derived. -/
theorem epoch_updateSecrets {hashId : HashId} {secrets : GroupSecrets} {commit : Commit}
    (h : commit.epoch ≠ secrets.epoch) :
    (updateSecrets sha256 hashId secrets commit).epoch = commit.epoch := by
  rw [updateSecrets]
  cases commit.groupSecret with
  | some groupSecret => rfl
  | none => simp [h]

theorem Sound.applyCommit (h : Sound commits group) {commit : Commit}
    (hcommit : settled (applyCommit sha256 group commit) = .ok group') :
    Sound (commits + 1) group' := by
  generalize hnext : Group.applyCommit sha256 group commit = outcome at hcommit
  cases applyCommit_case hnext with
  | outOfOrder => cases hcommit
  | unsupported => cases hcommit
  | panicked => cases hcommit
  | applied hepoch hids _ context hcontext =>
    rw [← Except.ok.inj hcommit]
    exact {
      members := nodup_updateMembers h.members commit
      extensions := hcontext.extensions
      secrets := by
        refine epoch_updateSecrets ?_
        rw [hepoch, h.secrets]
        simp
      hashId := by
        dsimp only
        rw [hcontext.cfgHashId, ← h.hashId]
        cases hid : commit.cfgHashId with
        | none => rfl
        | some id =>
          have hone : id = 1 := hids id hid
          have hhash := h.hashId
          rw [hashIdFromU16] at hhash
          split_ifs at hhash with hcfg
          rw [Option.getD_some, hone, hcfg]
      epoch := by
        dsimp only
        rw [hepoch, h.epoch, UInt64.ofNat_add]
        rfl }

theorem Sound.inOrder (h : Sound commits group) {chain : List Commit}
    (hchain : inOrder sha256 group chain = .ok group') :
    Sound (commits + chain.length) group' := by
  induction chain generalizing group commits with
  | nil =>
    rw [← Except.ok.inj hchain]
    exact h
  | cons commit chain ih =>
    rw [Group.inOrder, List.foldlM_cons] at hchain
    obtain ⟨next, hnext, hrest⟩ := bind_eq_ok.mp hchain
    have hsound := ih (h.applyCommit hnext) hrest
    rwa [Nat.add_assoc, Nat.add_comm 1] at hsound

/-- In every group that successful calls lead to, the members are distinct, the
extensions are those of the configuration, the secret is of the group's epoch,
the hash function is the one named, and the epoch counts the commits applied
since the creation. -/
theorem reached_sound (h : Reached sha256 commits group) :
    Sound commits group ∧ (commits < 2 ^ 64 → group.epoch.toNat = commits) := by
  have hsound : Sound commits group := by
    induction h with
    | created hcreate => exact create_sound hcreate
    | changed call _ hcall ih => exact ih.inOrder (change_eq_inOrder hcall)
  refine ⟨hsound, fun hlt => ?_⟩
  rw [hsound.epoch]
  exact UInt64.toNat_ofNat_of_lt' hlt

/-- A member is added, then a commit two epochs ahead comes with the one in
between. -/
theorem reached_sound_sample :
    Reached (Tabulated.tabulated chainDigests) 3 (chainGroup 3 ["alice", "carol"]) ∧
      Sound 3 (chainGroup 3 ["alice", "carol"]) ∧
      (chainGroup 3 ["alice", "carol"]).epoch.toNat = 3 := by
  have hadded : Reached (Tabulated.tabulated chainDigests) 1 (chainGroup 1 ["alice"]) :=
    .changed (.add "alice") (.created create_chainGroup) rfl
  have hreached : Reached (Tabulated.tabulated chainDigests) 3
      (chainGroup 3 ["alice", "carol"]) :=
    .changed (.recovery { epoch := 3, removedMembers := ["bob"] }
      [{ epoch := 2, addedMembers := ["bob", "carol", "bob"] }]) hadded rfl
  obtain ⟨hsound, hepoch⟩ := reached_sound hreached
  exact ⟨hreached, hsound, hepoch (by decide)⟩

end Group
end Spex
