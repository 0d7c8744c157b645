import Spex.GroupInvariant
import Spex.GroupMessages
import Spex.Replication
import Spex.Transcript

/-!
# Replicas of a group

Replicas start from one group. Each adds and removes members, applies commits of
the others that reach it late, repeatedly or not at all, and encrypts and
decrypts messages. The secret of an epoch does not depend on the members, so
replicas that made different commits for one epoch accept each other's messages.
While nobody commits for an epoch that others have already changed the members
for in another way, a message is accepted only where the members are the
sender's.
-/
namespace Spex
open Fallible Transcript

/-- A message, with the group that its sender had when it encrypted it. -/
structure Posted where
  group : Group
  senderId : String
  messageId : UInt64
  message : GroupMessage

/-- A group with the commits made and the messages encrypted at it. -/
structure Replica where
  group : Group
  commits : List Commit := []
  posted : List Posted := []

inductive ReplicaEvent (ι : Type*) where
  | add (replica : ι) (memberId : String)
  | remove (replica : ι) (memberId : String)
  | deliver (source target : ι) (index : ℕ)
  | encrypt (replica : ι) (senderId : String) (messageId : UInt64) (plaintext : Bytes)
  | decrypt (source target : ι) (index : ℕ)

inductive ReplicaAnswer where
  | committed (result : Except (Fault MlsError) Commit)
  | applied (result : Except (Fault MlsError) GroupContext)
  | encrypted (result : Except MlsError GroupMessage)
  | decrypted (result : Except MlsError Bytes)
  | nothing

section Machine
variable {ι : Type*} [DecidableEq ι] (sha256 : Bytes → Bytes) (aead : Aead)

/-- A call that makes a commit, and the commit kept for the other replicas. -/
def Replica.commit (self : Replica) (call : Group → Except (Fault MlsError) Commit × Group) :
    ReplicaAnswer × Replica :=
  let (result, group) := call self.group
  (.committed result, { self with group, commits := self.commits ++ result.toOption.toList })

def replicaStep (replicas : ι → Replica) : ReplicaEvent ι → ReplicaAnswer × (ι → Replica)
  | .add replica memberId =>
    let (answer, changed) := (replicas replica).commit (Group.addMember sha256 · memberId)
    (answer, Function.update replicas replica changed)
  | .remove replica memberId =>
    let (answer, changed) := (replicas replica).commit (Group.removeMember sha256 · memberId)
    (answer, Function.update replicas replica changed)
  | .deliver source target index =>
    match (replicas source).commits[index]? with
    | none => (.nothing, replicas)
    | some commit =>
      let (result, group) := Group.applyCommit sha256 (replicas target).group commit
      (.applied result, Function.update replicas target { replicas target with group })
  | .encrypt replica senderId messageId plaintext =>
    let group := (replicas replica).group
    match Group.encrypt sha256 aead group senderId messageId plaintext with
    | .error error => (.encrypted (.error error), replicas)
    | .ok message => (.encrypted (.ok message), Function.update replicas replica
      { replicas replica with
        posted := (replicas replica).posted ++ [⟨group, senderId, messageId, message⟩] })
  | .decrypt source target index =>
    match (replicas source).posted[index]? with
    | none => (.nothing, replicas)
    | some posted => (.decrypted (Group.decrypt sha256 aead (replicas target).group
        posted.senderId posted.messageId posted.message), replicas)

/-- The run of replicas that start from equal groups. -/
def replicaRun (start : Group) (events : List (ReplicaEvent ι)) :
    List (Turn (ι → Replica) (ReplicaEvent ι) ReplicaAnswer) :=
  transcript (replicaStep sha256 aead) (fun _ => { group := start }) events

end Machine

section Agreement
variable {ι : Type*} {i : ι} {replica : Replica}

/-- Every message that a replica accepts was encrypted for the members that the
replica has. -/
def AgreesOnMembers (turns : List (Turn (ι → Replica) (ReplicaEvent ι) ReplicaAnswer)) : Prop :=
  ∀ turn ∈ turns, ∀ source target index posted plaintext,
    turn.input = .decrypt source target index →
    (turn.before source).posted[index]? = some posted →
    turn.outcome = .decrypted (.ok plaintext) →
    ∀ member, member ∈ posted.group.members ↔ member ∈ (turn.before target).group.members

/-- The commit that an event makes, and the replica it is made at. -/
def ReplicaEvent.announces (replicas : ι → Replica) : ReplicaEvent ι → Option (ι × Commit)
  | .add replica memberId => some (replica,
    { epoch := (replicas replica).group.epoch + 1, addedMembers := [memberId] })
  | .remove replica memberId => some (replica,
    { epoch := (replicas replica).group.epoch + 1, removedMembers := [memberId] })
  | _ => none

/-- A commit is made for an epoch that does not wrap to zero, and every commit
that is already there for this epoch changes the members in the same way. -/
def Coordinated (replicas : ι → Replica) (event : ReplicaEvent ι) : Prop :=
  ∀ replica commit, event.announces replicas = some (replica, commit) → commit.epoch ≠ 0 ∧
    ∀ other, ∀ earlier ∈ (replicas other).commits, earlier.epoch = commit.epoch →
      ∀ member, member ∈ Group.updateMembers (replicas replica).group.members earlier ↔
        member ∈ Group.updateMembers (replicas replica).group.members commit

/-- What a commit does to a set of members. -/
def Commit.changeSet (commit : Commit) (members : Set String) : Set String :=
  (members ∪ {member | member ∈ commit.addedMembers}) \ {member | member ∈ commit.removedMembers}

def Group.memberSet (group : Group) : Set String := {member | member ∈ group.members}

theorem setOf_mem_updateMembers (members : List String) (commit : Commit) :
    {member | member ∈ Group.updateMembers members commit} =
      commit.changeSet {member | member ∈ members} := by
  ext member
  simp [Group.updateMembers_eq, Commit.changeSet]

/-- The positions of the replicas, with the members as a set. -/
def positions (replicas : ι → Replica) : Replication.Replicas ι (Set String) Commit where
  epoch i := (replicas i).group.epoch.toNat
  value i := (replicas i).group.memberSet
  announced := {p | ∃ i, p.2 ∈ (replicas i).commits ∧ p.1 = p.2.epoch.toNat}
  recorded := {p | ∃ i, ∃ posted ∈ (replicas i).posted,
    p = (posted.group.epoch.toNat, posted.group.memberSet)}

/-- What the positions leave out: configuration hashes are short, commits have a
supported configuration and an epoch that is not zero, and a message carries its
group's epoch. -/
structure Ready (replicas : ι → Replica) : Prop where
  short : ∀ i, (replicas i).group.context.cfgHash.length ≤ 255
  commits : ∀ i, ∀ commit ∈ (replicas i).commits, commit.Supported ∧ commit.epoch ≠ 0
  posted : ∀ i, ∀ posted ∈ (replicas i).posted, posted.message.epoch = posted.group.epoch

variable {sha256 : Bytes → Bytes} {aead : Aead} {replicas : ι → Replica}

/-- A message that is accepted where all positions follow one history was
encrypted for the same members. -/
theorem mem_iff_of_decrypt (h : Ready replicas) {origin : ℕ} {history : ℕ → Set String}
    (hfollows : Replication.Follows Commit.changeSet origin history (positions replicas))
    {source target : ι} {posted : Posted} {plaintext : Bytes}
    (hposted : posted ∈ (replicas source).posted)
    (hdecrypt : Group.decrypt sha256 aead (replicas target).group posted.senderId
      posted.messageId posted.message = .ok plaintext) (member : String) :
    member ∈ posted.group.members ↔ member ∈ (replicas target).group.members := by
  have hepoch : posted.group.epoch = (replicas target).group.epoch :=
    (h.posted source posted hposted).symm.trans (Group.epoch_of_decrypt hdecrypt)
  obtain ⟨hrecord, -⟩ := hfollows.recorded _ _ ⟨source, posted, hposted, rfl⟩
  have hvalue : (replicas target).group.memberSet =
      history (replicas target).group.epoch.toNat := hfollows.value target
  rw [hepoch, ← hvalue] at hrecord
  exact Set.ext_iff.mp hrecord member

variable [DecidableEq ι]

theorem Ready.update (h : Ready replicas) (hshort : replica.group.context.cfgHash.length ≤ 255)
    (hcommits : ∀ commit ∈ replica.commits, commit.Supported ∧ commit.epoch ≠ 0)
    (hposted : ∀ posted ∈ replica.posted, posted.message.epoch = posted.group.epoch) :
    Ready (Function.update replicas i replica) where
  short := (Function.forall_update_iff replicas fun _ replica =>
    replica.group.context.cfgHash.length ≤ 255).mpr ⟨hshort, fun j _ => h.short j⟩
  commits := (Function.forall_update_iff replicas fun _ replica =>
    ∀ commit ∈ replica.commits, commit.Supported ∧ commit.epoch ≠ 0).mpr
      ⟨hcommits, fun j _ => h.commits j⟩
  posted := (Function.forall_update_iff replicas fun _ replica =>
    ∀ posted ∈ replica.posted, posted.message.epoch = posted.group.epoch).mpr
      ⟨hposted, fun j _ => h.posted j⟩

/-- Something that a changed replica has as before, or newly. -/
theorem exists_update {P : Replica → Prop} {Q : Prop} (h : P replica ↔ Q ∨ P (replicas i)) :
    (∃ j, P (Function.update replicas i replica j)) ↔ Q ∨ ∃ j, P (replicas j) := by
  rw [Function.exists_update_iff replicas fun _ replica => P replica, h]
  constructor
  · rintro ((hnew | hold) | ⟨j, -, hj⟩)
    · exact .inl hnew
    · exact .inr ⟨i, hold⟩
    · exact .inr ⟨j, hj⟩
  · rintro (hnew | ⟨j, hj⟩)
    · exact .inl (.inl hnew)
    · by_cases hi : j = i
      · exact .inl (.inr (hi ▸ hj))
      · exact .inr ⟨j, hi, hj⟩

theorem announced_append {commit : Commit}
    (h : replica.commits = (replicas i).commits ++ [commit]) :
    (positions (Function.update replicas i replica)).announced =
      insert (commit.epoch.toNat, commit) (positions replicas).announced := by
  ext ⟨n, c⟩
  refine exists_update (P := fun replica => c ∈ replica.commits ∧ n = c.epoch.toNat) ?_
  rw [h, List.mem_append, List.mem_singleton, Prod.mk.injEq]
  constructor
  · rintro ⟨hold | rfl, rfl⟩
    · exact .inr ⟨hold, rfl⟩
    · exact .inl ⟨rfl, rfl⟩
  · rintro (⟨rfl, rfl⟩ | ⟨hold, rfl⟩)
    · exact ⟨.inr rfl, rfl⟩
    · exact ⟨.inl hold, rfl⟩

theorem announced_same (replica : Replica) (h : replica.commits = (replicas i).commits) :
    (positions (Function.update replicas i replica)).announced =
      (positions replicas).announced := by
  ext ⟨n, c⟩
  refine (exists_update (P := fun replica => c ∈ replica.commits ∧ n = c.epoch.toNat)
    (Q := False) ?_).trans (iff_of_eq (false_or _))
  rw [h, false_or]

theorem recorded_append {posted : Posted} (h : replica.posted = (replicas i).posted ++ [posted]) :
    (positions (Function.update replicas i replica)).recorded =
      insert (posted.group.epoch.toNat, posted.group.memberSet) (positions replicas).recorded := by
  ext p
  refine exists_update (P := fun replica => ∃ posted ∈ replica.posted,
    p = (posted.group.epoch.toNat, posted.group.memberSet)) ?_
  simp only [h, List.mem_append, List.mem_singleton, or_and_right, exists_or, exists_eq_left]
  exact or_comm

theorem recorded_same (replica : Replica) (h : replica.posted = (replicas i).posted) :
    (positions (Function.update replicas i replica)).recorded =
      (positions replicas).recorded := by
  ext p
  refine (exists_update (P := fun replica => ∃ posted ∈ replica.posted,
    p = (posted.group.epoch.toNat, posted.group.memberSet)) (Q := False) ?_).trans
      (iff_of_eq (false_or _))
  rw [h, false_or]

/-- A replica that has applied a commit has advanced. -/
theorem positions_commit {commit : Commit} (hepoch : replica.group.epoch = commit.epoch)
    (hnext : commit.epoch.toNat = (replicas i).group.epoch.toNat + 1)
    (hmembers : replica.group.members = Group.updateMembers (replicas i).group.members commit)
    (hannounced : (positions (Function.update replicas i replica)).announced =
      insert (commit.epoch.toNat, commit) (positions replicas).announced)
    (hposted : replica.posted = (replicas i).posted) :
    positions (Function.update replicas i replica) =
      (positions replicas).advance Commit.changeSet i commit := by
  refine Replication.Replicas.ext (funext fun j => ?_) (funext fun j => ?_) ?_
    (recorded_same replica hposted)
  · by_cases hj : j = i
    · subst hj
      simp [positions, Replication.Replicas.advance, hepoch, hnext]
    · simp [positions, Replication.Replicas.advance, hj]
  · by_cases hj : j = i
    · subst hj
      simp [positions, Replication.Replicas.advance, Group.memberSet, hmembers,
        setOf_mem_updateMembers]
    · simp [positions, Replication.Replicas.advance, hj]
  · rw [hannounced, hnext]
    rfl

/-- A replica that has posted a message stays where it is. -/
theorem positions_post (replica : Replica) (posted : Posted)
    (hgroup : replica.group = (replicas i).group)
    (hcommits : replica.commits = (replicas i).commits)
    (hposted : replica.posted = (replicas i).posted ++ [posted]) :
    positions (Function.update replicas i replica) = { positions replicas with
      recorded := insert (posted.group.epoch.toNat, posted.group.memberSet)
        (positions replicas).recorded } := by
  refine Replication.Replicas.ext (funext fun j => ?_) (funext fun j => ?_)
    (announced_same replica hcommits) (recorded_append hposted) <;>
  · by_cases hj : j = i
    · subst hj
      simp [positions, hgroup]
    · simp [positions, hj]

theorem toNat_of_ne_zero {epoch commit : UInt64} (hnext : commit = epoch + 1)
    (hne : commit ≠ 0) : commit.toNat = epoch.toNat + 1 := by
  have hpos : commit.toNat ≠ 0 := fun h => hne (UInt64.toNat_inj.mp h)
  have hlt := epoch.toNat_lt
  rw [hnext, UInt64.toNat_add, UInt64.toNat_one] at hpos ⊢
  omega

variable (sha256) in
/-- A commit for the next epoch is applied, and the replica advances. -/
theorem Ready.apply (h : Ready replicas) {commit : Commit}
    (hnext : commit.epoch = (replicas i).group.epoch + 1) (hsupported : commit.Supported)
    (hne : commit.epoch ≠ 0) :
    ∃ context group, Group.applyCommit sha256 (replicas i).group commit = (.ok context, group) ∧
      group.context.cfgHash.length ≤ 255 ∧ ∀ replica : Replica, replica.group = group →
        replica.posted = (replicas i).posted →
        (positions (Function.update replicas i replica)).announced =
          insert (commit.epoch.toNat, commit) (positions replicas).announced →
        positions (Function.update replicas i replica) =
          (positions replicas).advance Commit.changeSet i commit := by
  obtain ⟨context, hshort, happly⟩ :=
    Group.applyCommit_of_supported sha256 hnext hsupported (h.short i)
  refine ⟨context, _, happly, hshort, ?_⟩
  rintro replica hgroup hposted hannounced
  refine positions_commit ?_ (toNat_of_ne_zero hnext hne) ?_ hannounced hposted <;> rw [hgroup]

variable (sha256) in
/-- A replica makes a commit of its own. -/
theorem Ready.commit (h : Ready replicas) {commit : Commit}
    (call : Group → Except (Fault MlsError) Commit × Group) (hcall : call (replicas i).group =
      ((Group.applyCommit sha256 (replicas i).group commit).1.map fun _ => commit,
        (Group.applyCommit sha256 (replicas i).group commit).2))
    (hnext : commit.epoch = (replicas i).group.epoch + 1) (hsupported : commit.Supported)
    (hne : commit.epoch ≠ 0)
    (hagree : ∀ other, ∀ earlier ∈ (replicas other).commits, earlier.epoch = commit.epoch →
      ∀ member, member ∈ Group.updateMembers (replicas i).group.members earlier ↔
        member ∈ Group.updateMembers (replicas i).group.members commit) :
    Ready (Function.update replicas i ((replicas i).commit call).2) ∧
      Replication.Step Commit.changeSet (positions replicas)
        (positions (Function.update replicas i ((replicas i).commit call).2)) := by
  obtain ⟨context, group, happly, hshort, hadvance⟩ := h.apply sha256 hnext hsupported hne
  have hcommit : ((replicas i).commit call).2 =
      ⟨group, (replicas i).commits ++ [commit], (replicas i).posted⟩ := by
    rw [Replica.commit, hcall, happly]
    rfl
  rw [hcommit]
  constructor
  · refine h.update hshort ?_ (h.posted i)
    intro c hc
    rcases List.mem_append.mp hc with hold | hnew
    · exact h.commits i c hold
    · rw [List.mem_singleton.mp hnew]
      exact ⟨hsupported, hne⟩
  · rw [hadvance ⟨group, (replicas i).commits ++ [commit], (replicas i).posted⟩ rfl rfl
      (announced_append rfl)]
    refine .announce i commit ?_
    rintro earlier ⟨other, hmem, hepoch⟩
    have hsame : earlier.epoch = commit.epoch := by
      apply UInt64.toNat_inj.mp
      rw [toNat_of_ne_zero hnext hne]
      exact hepoch.symm
    have hset : {member | member ∈ Group.updateMembers (replicas i).group.members earlier} =
        {member | member ∈ Group.updateMembers (replicas i).group.members commit} :=
      Set.ext (hagree other earlier hmem hsame)
    rwa [setOf_mem_updateMembers, setOf_mem_updateMembers] at hset

/-- A commit made at one replica reaches another. -/
theorem Ready.deliver (h : Ready replicas) (source target : ι) (index : ℕ) :
    Ready (replicaStep sha256 aead replicas (.deliver source target index)).2 ∧
      Replication.Step Commit.changeSet (positions replicas)
        (positions (replicaStep sha256 aead replicas (.deliver source target index)).2) := by
  rw [replicaStep]
  cases hcommit : (replicas source).commits[index]? with
  | none => exact ⟨h, .idle⟩
  | some commit =>
    have hmem := List.mem_of_getElem? hcommit
    obtain ⟨hsupported, hne⟩ := h.commits source commit hmem
    dsimp only
    by_cases hnext : commit.epoch = (replicas target).group.epoch + 1
    · obtain ⟨context, group, happly, hshort, hadvance⟩ := h.apply sha256 hnext hsupported hne
      have hknown : (commit.epoch.toNat, commit) ∈ (positions replicas).announced :=
        ⟨source, hmem, rfl⟩
      let changed : Replica := ⟨group, (replicas target).commits, (replicas target).posted⟩
      have hannounced := announced_same (i := target) changed rfl
      rw [← Set.insert_eq_of_mem hknown] at hannounced
      rw [happly]
      refine ⟨h.update hshort (h.commits target) (h.posted target), ?_⟩
      have hpositions := hadvance changed rfl rfl hannounced
      dsimp only [changed] at hpositions
      rw [hpositions]
      rw [toNat_of_ne_zero hnext hne] at hknown
      exact .deliver target commit hknown
    · rw [Group.applyCommit, if_pos hnext]
      have hsame : Function.update replicas target { replicas target with
          group := (replicas target).group } = replicas := Function.update_eq_self _ _
      rw [hsame]
      exact ⟨h, .idle⟩

/-- A message is encrypted at a replica. -/
theorem Ready.encrypt (h : Ready replicas) (i : ι) (senderId : String) (messageId : UInt64)
    (plaintext : Bytes) :
    Ready (replicaStep sha256 aead replicas (.encrypt i senderId messageId plaintext)).2 ∧
      Replication.Step Commit.changeSet (positions replicas) (positions
        (replicaStep sha256 aead replicas (.encrypt i senderId messageId plaintext)).2) := by
  rw [replicaStep]
  dsimp only
  cases hmessage : Group.encrypt sha256 aead (replicas i).group senderId messageId plaintext with
  | error error => exact ⟨h, .idle⟩
  | ok message =>
    constructor
    · refine h.update (h.short i) (h.commits i) ?_
      intro posted hposted
      rcases List.mem_append.mp hposted with hold | hnew
      · exact h.posted i posted hold
      · rw [List.mem_singleton.mp hnew]
        exact Group.epoch_of_encrypt hmessage
    · let posted : Posted := ⟨(replicas i).group, senderId, messageId, message⟩
      let changed : Replica :=
        ⟨(replicas i).group, (replicas i).commits, (replicas i).posted ++ [posted]⟩
      have hpositions := positions_post (i := i) changed posted rfl rfl rfl
      dsimp only [changed, posted] at hpositions ⊢
      rw [hpositions]
      exact .record i

variable (sha256 aead) in
/-- A coordinated event keeps the replicas ready and moves their positions by a
step. -/
theorem Ready.step (h : Ready replicas) {event : ReplicaEvent ι}
    (hcoord : Coordinated replicas event) :
    Ready (replicaStep sha256 aead replicas event).2 ∧
      Replication.Step Commit.changeSet (positions replicas)
        (positions (replicaStep sha256 aead replicas event).2) := by
  cases event with
  | add replica memberId =>
    obtain ⟨hne, hagree⟩ := hcoord replica _ rfl
    exact h.commit sha256 (Group.addMember sha256 · memberId) rfl rfl ⟨by simp, by simp⟩ hne
      hagree
  | remove replica memberId =>
    obtain ⟨hne, hagree⟩ := hcoord replica _ rfl
    exact h.commit sha256 (Group.removeMember sha256 · memberId) rfl rfl ⟨by simp, by simp⟩ hne
      hagree
  | deliver source target index => exact h.deliver source target index
  | encrypt replica senderId messageId plaintext =>
    exact h.encrypt replica senderId messageId plaintext
  | decrypt source target index =>
    rw [replicaStep]
    cases (replicas source).posted[index]? with
    | none => exact ⟨h, .idle⟩
    | some posted => exact ⟨h, .idle⟩

/-- In every run whose commits are coordinated, a replica accepts a message only
if its members are those of the sender at the time of encryption. No group has a
longer configuration hash, as its creation and every commit panics on one. -/
theorem accepted_members_agree {start : Group}
    (hshort : start.context.cfgHash.length ≤ 255) (events : List (ReplicaEvent ι))
    (hcoord : ∀ turn ∈ replicaRun sha256 aead start events,
      Coordinated turn.before turn.input) :
    AgreesOnMembers (replicaRun sha256 aead start events) := by
  have hinv : (∀ turn ∈ replicaRun sha256 aead start events, Ready turn.before ∧ ∃ history,
        Replication.Follows Commit.changeSet start.epoch.toNat history
          (positions turn.before)) ∧ _ :=
    invariant (fun replicas : ι → Replica => Ready replicas ∧ ∃ history,
      Replication.Follows Commit.changeSet start.epoch.toNat history (positions replicas)) ?_ ?_
  · intro turn hturn source target index posted plaintext hinput hposted houtcome
    obtain ⟨hready, history, hfollows⟩ := hinv.1 turn hturn
    have hstep := outcome_eq hturn
    rw [hinput, houtcome, replicaStep, hposted] at hstep
    dsimp only at hstep
    exact mem_iff_of_decrypt hready hfollows (List.mem_of_getElem? hposted)
      (ReplicaAnswer.decrypted.inj hstep).symm
  · refine ⟨⟨fun _ => hshort, by simp, by simp⟩, fun _ => start.memberSet, ?_⟩
    have hpositions : positions (fun _ : ι => ({ group := start } : Replica)) =
        ⟨fun _ => start.epoch.toNat, fun _ => start.memberSet, ∅, ∅⟩ := by
      simp [positions]
    rw [hpositions]
    exact .start _ _ _
  · rintro turn hturn ⟨hready, hfollows⟩
    rw [after_eq hturn]
    obtain ⟨hready', hstep⟩ := hready.step sha256 aead (hcoord turn hturn)
    exact ⟨hready', Replication.exists_follows hfollows hstep⟩

end Agreement

namespace Group
open Tabulated

/-- The digests of the chain, and those for the key and the nonce of a first
message that alice encrypts at epoch 2. -/
def replicaDigests : List (Bytes × Bytes) :=
  let metadata := chainSecrets.getD 2 [] ++ Value.utf8 "alice" ++ Cbor.u64Be 1
  chainDigests ++
   [(metadata ++ keyLabel,
      BigEndian.write 32 0xc01b627b5d4cbfef8ae19b3fe9e06683417de94d3bd2f4181532ac06076af22c),
    (metadata ++ nonceLabel,
      BigEndian.write 32 0x79502312f3ad1b9113a465885651a9f3d6c979f9667918b77327a4113f0996c1)]

def greeting : Bytes := Value.utf8 "hi"

def greetingBody : Bytes := BigEndian.write 18 0xe6ee4789454df0f9ce19f50bb7f6ea129216

def replicaCiphertexts : List (Bytes × Bytes) :=
  [(BigEndian.write 32 0xc01b627b5d4cbfef8ae19b3fe9e06683417de94d3bd2f4181532ac06076af22c ++
    BigEndian.write 12 0x79502312f3ad1b9113a46588 ++ greeting, greetingBody)]

theorem reached_alice : Reached (tabulated replicaDigests) 1 (chainGroup 1 ["alice"]) := by
  have hcreate : create (tabulated replicaDigests) chainConfig = .ok (chainGroup 0 []) := rfl
  exact .changed (.add "alice") (.created hcreate) rfl

/-- Two replicas with one member. The first adds bob, the second adds carol, and
the second accepts what the first then encrypts. -/
theorem accepted_members_differ :
    Function.Injective (tabulated replicaDigests) ∧ (tabulatedAead replicaCiphertexts).Ideal ∧
      Reached (tabulated replicaDigests) 1 (chainGroup 1 ["alice"]) ∧
      ¬ AgreesOnMembers (replicaRun (tabulated replicaDigests)
        (tabulatedAead replicaCiphertexts) (chainGroup 1 ["alice"])
        [.add false "bob", .add true "carol", .encrypt false "alice" 1 greeting,
          .decrypt false true 0]) := by
  refine ⟨tabulated_injective (by decide), tabulatedAead_ideal (by decide), reached_alice, ?_⟩
  intro hagree
  have hbob := hagree _ (List.mem_of_getElem? (i := 3) rfl) false true 0
    ⟨chainGroup 2 ["alice", "bob"], "alice", 1,
      ⟨2, List.replicate 32 0x90, ⟨0, 1, 1⟩, greetingBody⟩⟩
    greeting rfl rfl rfl "bob"
  revert hbob
  decide

/-- The second replica takes over the commit of the first and then accepts the
message. -/
theorem accepted_members_agree_sample :
    let run := replicaRun (tabulated replicaDigests) (tabulatedAead replicaCiphertexts)
      (chainGroup 1 ["alice"])
      [.add false "bob", .deliver false true 0, .encrypt false "alice" 1 greeting,
        .decrypt false true 0]
    run[3]?.map Turn.outcome = some (.decrypted (.ok greeting)) ∧
      (∀ turn ∈ run, Coordinated turn.before turn.input) ∧ AgreesOnMembers run := by
  have hadd : Coordinated (fun _ : Bool => { group := chainGroup 1 ["alice"] })
      (.add false "bob") := by
    intro replica commit hannounce
    cases hannounce
    exact ⟨by decide, by simp⟩
  have hcoord : ∀ turn ∈ replicaRun (tabulated replicaDigests)
      (tabulatedAead replicaCiphertexts) (chainGroup 1 ["alice"])
      [.add false "bob", .deliver false true 0, .encrypt false "alice" 1 greeting,
        .decrypt false true 0], Coordinated turn.before turn.input := by
    rw [replicaRun]
    simp only [transcript_cons, transcript_nil, List.forall_mem_cons]
    exact ⟨hadd, nofun, nofun, nofun, by simp⟩
  exact ⟨rfl, hcoord, accepted_members_agree (by decide) _ hcoord⟩

end Group
end Spex
