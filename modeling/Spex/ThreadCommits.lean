import Spex.Tabulated
import Spex.ThreadState
import Spex.Transcript

/-!
# Thread metadata and the group under commits

A thread forgets its commits and keeps a list of members, from which the group
is built again with one epoch a member. So the rebuilt group agrees with the
group that saw every commit as long as each commit leaves the list one entry
longer, drops every entry of a removed member, and brings nothing that the
metadata has no place for.
-/
namespace Spex
open Fallible Cbor Tabulated Transcript

/-- The members a commit brings in for good, each once. -/
def newcomers (members : List String) (commit : Commit) : List String :=
  Roster.firsts (commit.addedMembers.filter fun member =>
    member ∉ members ∧ member ∉ commit.removedMembers)

/-- A commit that thread metadata with these members can follow. -/
@[mk_iff] structure KeepsUp (members : List String) (commit : Commit) : Prop where
  supported : commit.Supported
  noSecret : commit.groupSecret = none
  removesAll : ∀ member ∈ commit.removedMembers,
    members.count member ≤ commit.removedMembers.count member
  growsByOne : (newcomers members commit).length =
    members.countP (· ∈ commit.removedMembers) + 1

instance (members : List String) (commit : Commit) : Decidable (KeepsUp members commit) :=
  decidable_of_iff' _ (keepsUp_iff members commit)

namespace KeepsUp
variable {members : List String} {commit : Commit}

theorem membersAfter_eq (h : KeepsUp members commit) : membersAfter members commit =
    (Roster.pushAll members commit.addedMembers).filter (· ∉ commit.removedMembers) := by
  apply Roster.diff_eq_filter
  intro member hmember
  have hcount := Roster.count_pushAll_le members commit.addedMembers member
  have hlisted : 0 < commit.removedMembers.count member := List.count_pos_iff.mpr hmember
  have hall := h.removesAll member hmember
  omega

/-- The group arrives at the same members. -/
theorem firsts_membersAfter (h : KeepsUp members commit) :
    Roster.firsts (membersAfter members commit) =
      Group.updateMembers (Roster.firsts members) commit := by
  rw [h.membersAfter_eq, ← Roster.filter_firsts, Roster.firsts_pushAll, Group.updateMembers_eq]

theorem length_membersAfter (h : KeepsUp members commit) :
    (membersAfter members commit).length = members.length + 1 := by
  have hnew : (Roster.firsts (commit.addedMembers.filter (· ∉ members))).filter
      (· ∉ commit.removedMembers) = newcomers members commit := by
    rw [Roster.filter_firsts, List.filter_filter, newcomers]
    congr 1
    apply List.filter_congr
    intro member _
    simp [Bool.and_comm]
  have hsplit : members.length = members.countP (· ∈ commit.removedMembers) +
      (members.filter (· ∉ commit.removedMembers)).length := by
    rw [List.length_eq_countP_add_countP (· ∈ commit.removedMembers),
      ← List.countP_eq_length_filter]
    simp
  rw [h.membersAfter_eq, Roster.pushAll_eq, List.filter_append, List.length_append, hnew,
    h.growsByOne]
  omega

theorem not_mem_membersAfter (h : KeepsUp members commit) {member : String}
    (hmember : member ∈ commit.removedMembers) : member ∉ membersAfter members commit := by
  rw [h.membersAfter_eq]
  simp [hmember]

end KeepsUp

theorem mem_of_mem_membersAfter {members : List String} {commit : Commit} {member : String}
    (h : member ∈ membersAfter members commit) :
    member ∈ members ∨ member ∈ commit.addedMembers :=
  Roster.mem_pushAll.mp (List.diff_subset _ _ h)

section Simulation
variable {sha256 : Bytes → Bytes} {seed : Bytes} {threadState : ThreadState}

/-- The group is the one that the thread rebuilds, at the epoch of the thread. -/
structure Tracks (sha256 : Bytes → Bytes) (seed : Bytes) (threadState : ThreadState)
    (group : Group) : Prop where
  stored : Stored seed threadState
  epoch : threadState.epoch = UInt64.ofNat threadState.members.length
  replays : Replays sha256 seed threadState.members group

theorem Tracks.rebuilt {group : Group} (h : Tracks sha256 seed threadState group) :
    ∃ rebuilt, rebuildThreadGroup sha256 threadState = .ok rebuilt ∧
      rebuilt.epoch = group.epoch ∧ rebuilt.members = group.members ∧
      rebuilt.secrets.groupSecret = group.secrets.groupSecret ∧
      rebuilt.epoch = threadState.epoch := by
  obtain ⟨rebuilt, hrebuild, hreplays⟩ := h.stored.rebuild sha256
  refine ⟨rebuilt, hrebuild, ?_, ?_, ?_, ?_⟩
  · rw [hreplays.epoch, h.replays.epoch]
  · rw [hreplays.members, h.replays.members]
  · rw [hreplays.secrets, h.replays.secrets]
  · rw [hreplays.epoch, h.epoch]

/-- One accepted commit that the metadata can follow. -/
theorem Tracks.commit {group : Group} (h : Tracks sha256 seed threadState group) {commit : Commit}
    (hnext : commit.epoch = threadState.epoch + 1) (hkeeps : KeepsUp threadState.members commit) :
    ∃ group', settled (Group.applyCommit sha256 group commit) = .ok group' ∧
      Tracks sha256 seed (applyThreadCommitWithEvents threadState commit).2 group' := by
  have hgroup : commit.epoch = group.epoch + 1 := by rw [hnext, h.epoch, h.replays.epoch]
  obtain ⟨group', happly, hreplays⟩ := h.replays.applyCommit commit
    (membersAfter threadState.members commit) hgroup hkeeps.supported hkeeps.noSecret
    hkeeps.length_membersAfter hkeeps.firsts_membersAfter
  refine ⟨group', happly, ?_⟩
  rw [(applyThreadCommit_of_next hnext).2]
  refine ⟨⟨h.stored.secret, h.stored.cfgHash⟩, ?_, hreplays⟩
  dsimp only
  rw [hkeeps.length_membersAfter, UInt64.ofNat_add, hnext, h.epoch]
  rfl

/-- A member that a run removes stays away until a commit adds it again. -/
theorem removed_stays_away {before after : List Commit} {commit : Commit} {member : String}
    (haccepted : ∀ r ∈ transcript applyThreadCommitWithEvents threadState
      (before ++ commit :: after), r.outcome.isOk)
    (hkeeps : ∀ r ∈ transcript applyThreadCommitWithEvents threadState
      (before ++ commit :: after), KeepsUp r.before.members r.input)
    (hmember : member ∈ commit.removedMembers)
    (hafter : ∀ later ∈ after, member ∉ later.addedMembers) :
    member ∉ (final applyThreadCommitWithEvents threadState
      (before ++ commit :: after)).members := by
  rw [transcript_append, transcript_cons] at haccepted hkeeps
  obtain ⟨hcommit, hrest⟩ := List.forall_mem_cons.mp (List.forall_mem_append.mp haccepted).2
  have hkeep := (List.forall_mem_cons.mp (List.forall_mem_append.mp hkeeps).2).1
  rw [final_append, final_cons]
  refine (invariant (fun s : ThreadState => member ∉ s.members) ?_ ?_).2
  · rw [(applyThreadCommit_of_next (next_of_isOk hcommit)).2]
    exact hkeep.not_mem_membersAfter hmember
  · intro r hr haway
    have hok := hrest r hr
    rw [outcome_eq hr] at hok
    rw [after_eq hr, (applyThreadCommit_of_next (next_of_isOk hok)).2]
    intro hmem
    exact (mem_of_mem_membersAfter hmem).elim haway (hafter r.input (input_mem hr))

/-- Along every run of accepted commits that the metadata can follow, the
rebuilt group has the epoch, the members and the secret of the group that saw
the commits, the thread stores that epoch, and removed members are gone. -/
theorem thread_simulates_group {identity : IdentityState} {members : List String}
    {randomThreadId randomSecret : Bytes} {now : UInt64} {threadState : ThreadState}
    (hcreate : createThreadState sha256 identity members randomThreadId randomSecret now =
      .ok threadState) (commits : List Commit)
    (haccepted : ∀ r ∈ transcript applyThreadCommitWithEvents threadState commits,
      r.outcome.isOk)
    (hkeeps : ∀ r ∈ transcript applyThreadCommitWithEvents threadState commits,
      KeepsUp r.before.members r.input) :
    ∃ start group rebuilt, rebuildThreadGroup sha256 threadState = .ok start ∧
      commits.foldlM (fun group commit => settled (Group.applyCommit sha256 group commit)) start =
        .ok group ∧
      rebuildThreadGroup sha256 (final applyThreadCommitWithEvents threadState commits) =
        .ok rebuilt ∧
      rebuilt.epoch = group.epoch ∧ rebuilt.members = group.members ∧
      rebuilt.secrets.groupSecret = group.secrets.groupSecret ∧
      rebuilt.epoch = (final applyThreadCommitWithEvents threadState commits).epoch ∧
      ∀ before commit after, commits = before ++ commit :: after →
        ∀ member ∈ commit.removedMembers, (∀ later ∈ after, member ∉ later.addedMembers) →
          member ∉ (final applyThreadCommitWithEvents threadState commits).members := by
  obtain ⟨hstored, hepoch⟩ := stored_of_create hcreate
  obtain ⟨start, hstart, hreplays⟩ := hstored.rebuild sha256
  have hturn : ∀ r ∈ transcript applyThreadCommitWithEvents threadState commits, ∀ group,
      Tracks sha256 randomSecret r.before group →
      ∃ group', settled (Group.applyCommit sha256 group r.input) = .ok group' ∧
        Tracks sha256 randomSecret r.after group' := by
    intro r hr group htracks
    have hok := haccepted r hr
    rw [outcome_eq hr] at hok
    rw [after_eq hr]
    exact htracks.commit (next_of_isOk hok) (hkeeps r hr)
  have hbegin : Tracks sha256 randomSecret threadState start := ⟨hstored, hepoch, hreplays⟩
  obtain ⟨group, hgroup, htracks⟩ := simulation
    (fun group commit => settled (Group.applyCommit sha256 group commit)) hbegin hturn
  obtain ⟨rebuilt, hrebuilt, hsame, hmembers, hsecret, hthread⟩ := htracks.rebuilt
  refine ⟨start, group, rebuilt, hstart, hgroup, hrebuilt, hsame, hmembers, hsecret, hthread, ?_⟩
  rintro before commit after rfl member hmember hafter
  exact removed_stays_away haccepted hkeeps hmember hafter

end Simulation

section Sample

/-- A thread with id `11..11` and secret `22..22`, created by the user `aa` with
the user `bb`, and the SHA-256 digests that its group needs. -/
def sampleIdentity : IdentityState := ⟨"aa", Hex.encode (List.replicate 32 7)⟩

def sampleThreadId : Bytes := List.replicate 32 0x11

def sampleSecret : Bytes := List.replicate 32 0x22

def sampleConfig : Bytes :=
  [0xa6, 0, 1, 1, 1, 2, 1, 3, 0, 4, 0x58, 0x20] ++ sampleThreadId ++ [5, 0x80]

def sampleCfgHash : Bytes := BigEndian.write 32
  0xe5fc5ab49241b2a654f008ead1a89cef1e2b2b00eea2652c78dbd6c2b025df13

/-- The group secrets of the first five epochs. -/
def sampleSecrets : List Bytes :=
  [BigEndian.write 32 0xf91b337d83bdbe27156e7edd977a126af56ea98b487e19dd6fa114eeac042a8a,
   BigEndian.write 32 0xe90201f86283ae4a31c48422df8e20a67eb1737e5d5d642de804703e2e4b735f,
   BigEndian.write 32 0x30e0b9e5814a71ac1851d86a37c4c74022b93a684479c9df57ecbca3e807901c,
   BigEndian.write 32 0xc4461f0aa9b952cb7b5e51479eb697d472664d638338f37d9e2b1fb752fb8f9f,
   BigEndian.write 32 0x18852a98ee0d380287d59c3eecce93c547d9e73b4269d1e245ffe92748b4e02b]

def groupDigests : List (Bytes × Bytes) :=
  (sampleConfig, sampleCfgHash) ::
    sampleSecrets.mapIdx fun epoch secret =>
      ((sampleSecret :: sampleSecrets).getD epoch [] ++ u64Be (UInt64.ofNat epoch), secret)

def sampleThread : ThreadState :=
  ⟨Hex.encode sampleThreadId, ["bb", "aa"], 1700000000, 1, 1, 1, 1, Hex.encode sampleCfgHash, 0,
    Hex.encode sampleSecret, 0, 2⟩

theorem sampleConfig_bytes :
    toCtap2CanonicalBytes (⟨1, 1, 1, 0, sampleThreadId, [], ∅⟩ : ThreadConfig) =
      .ok sampleConfig := by
  apply encodeValue_of_fits
  refine fits_bare (by simp [ThreadConfig.fields]) ?_
  simp [ThreadConfig.fields, sampleThreadId, Value.fits_bytes, Value.fits_integer,
    Value.fits_array]

theorem sampleThread_created (sha256 : Bytes → Bytes) (h : sha256 sampleConfig = sampleCfgHash) :
    createThreadState sha256 sampleIdentity ["bb"] sampleThreadId sampleSecret 1700000000 =
      .ok sampleThread := by
  have hcfg := buildThreadCfgHash_eq sha256 sampleConfig_bytes
  rw [h] at hcfg
  exact createThreadState_eq hcfg (by decide) sampleIdentity ["bb"] sampleSecret 1700000000

def sampleCommits : List Commit :=
  [{ epoch := 3, addedMembers := ["cc"] },
   { epoch := 4, addedMembers := ["dd", "ee"], removedMembers := ["bb"] }]

/-- A run that adds a member, then adds two and removes one. -/
theorem thread_simulates_group_sample :
    createThreadState (tabulated groupDigests) sampleIdentity ["bb"] sampleThreadId sampleSecret
        1700000000 = .ok sampleThread ∧
      ∃ start group rebuilt, rebuildThreadGroup (tabulated groupDigests) sampleThread = .ok start ∧
        sampleCommits.foldlM (fun group commit =>
          settled (Group.applyCommit (tabulated groupDigests) group commit)) start = .ok group ∧
        rebuildThreadGroup (tabulated groupDigests)
          (final applyThreadCommitWithEvents sampleThread sampleCommits) = .ok rebuilt ∧
        rebuilt.epoch = 4 ∧ group.epoch = 4 ∧ rebuilt.members = group.members ∧
        rebuilt.secrets.groupSecret = group.secrets.groupSecret ∧
        "bb" ∉ (final applyThreadCommitWithEvents sampleThread sampleCommits).members := by
  have hcreate := sampleThread_created (tabulated groupDigests) (by decide)
  obtain ⟨start, group, rebuilt, hstart, hgroup, hrebuilt, hsame, hmembers, hsecret, hepoch,
    haway⟩ := thread_simulates_group hcreate sampleCommits (by decide) (by decide)
  have hfour : rebuilt.epoch = 4 := hepoch.trans (by decide)
  refine ⟨hcreate, start, group, rebuilt, hstart, hgroup, hrebuilt, hfour, ?_, hmembers, hsecret,
    ?_⟩
  · rw [← hsame, hfour]
  · exact haway [{ epoch := 3, addedMembers := ["cc"] }] _ [] rfl "bb" (by simp) (by simp)

def sampleRemoval : Commit := { epoch := 3, removedMembers := ["bb"] }

/-- One removal is enough to part the thread from the group: the group goes on
to epoch three, the thread stores epoch three, and the group rebuilt from the
one member left is at epoch one. -/
theorem removal_breaks_simulation :
    createThreadState (tabulated groupDigests) sampleIdentity ["bb"] sampleThreadId sampleSecret
        1700000000 = .ok sampleThread ∧
      (applyThreadCommitWithEvents sampleThread sampleRemoval).1.isOk ∧
      ∃ start group rebuilt, rebuildThreadGroup (tabulated groupDigests) sampleThread = .ok start ∧
        settled (Group.applyCommit (tabulated groupDigests) start sampleRemoval) = .ok group ∧
        rebuildThreadGroup (tabulated groupDigests)
          (applyThreadCommitWithEvents sampleThread sampleRemoval).2 = .ok rebuilt ∧
        group.epoch = 3 ∧ (applyThreadCommitWithEvents sampleThread sampleRemoval).2.epoch = 3 ∧
        rebuilt.epoch = 1 ∧ rebuilt.secrets.groupSecret ≠ group.secrets.groupSecret := by
  have hcreate := sampleThread_created (tabulated groupDigests) (by decide)
  have hstored := (stored_of_create hcreate).1
  obtain ⟨start, hstart, hreplays⟩ := hstored.rebuild (tabulated groupDigests)
  have hnext : sampleRemoval.epoch = start.epoch + 1 := by
    rw [hreplays.epoch]
    decide
  obtain ⟨group, hgroup, hepoch, -, hsecrets, -⟩ :=
    hreplays.exists_settled hnext (by decide) rfl
  have hafter : Stored sampleSecret (applyThreadCommitWithEvents sampleThread sampleRemoval).2 :=
    ⟨hstored.secret, hstored.cfgHash⟩
  obtain ⟨rebuilt, hrebuilt, hreplays'⟩ := hafter.rebuild (tabulated groupDigests)
  have hone : rebuilt.epoch = 1 := hreplays'.epoch.trans (by decide)
  refine ⟨hcreate, by decide, start, group, rebuilt, hstart, hgroup, hrebuilt, hepoch, by decide,
    hone, ?_⟩
  rw [hreplays'.secrets, hsecrets]
  intro hsame
  have hinj : Function.Injective (tabulated groupDigests) := tabulated_injective (by decide)
  exact absurd (ofNat_eq_of_secretAt_eq hinj hsame) (by decide)

end Sample
end Spex
