import Spex.Fallible
import Spex.HashChain
import Spex.Roster
import Spex.Validation

/-!
# The group of the MLS crate

A group has a context, a list of members, and a secret for its epoch. A commit
for the next epoch changes the context and the members, and the secret moves on
to the hash of itself and the new epoch unless the commit brings a secret. Epochs
are 64-bit words and wrap.
-/
namespace Spex
open Fallible Cbor

structure ProtoSuite where
  major : UInt16
  minor : UInt16
  ciphersuiteId : UInt16
  deriving DecidableEq, Repr

structure CommitOrderError where
  expectedEpoch : UInt64
  receivedEpoch : UInt64
  deriving DecidableEq, Repr

inductive ValidationError where
  | epochMismatch (expected found : UInt64)
  | cfgHashMismatch
  | protoSuiteMismatch
  deriving DecidableEq, Repr

/-- The `Debug` text of a validation error. -/
def ValidationError.debug : ValidationError → String
  | .epochMismatch expected found =>
    s!"EpochMismatch \x7b expected: {expected.toNat}, found: {found.toNat} \x7d"
  | .cfgHashMismatch => "CfgHashMismatch"
  | .protoSuiteMismatch => "ProtoSuiteMismatch"

/-- The errors of the MLS crate that the modelled functions return. -/
inductive MlsError where
  | unsupportedHashId (id : UInt16)
  | validation (error : ValidationError)
  | unknownMember (memberId : String)
  | encryption
  | decryption
  | spex (error : SpexError)
  | outOfOrderCommit (error : CommitOrderError)
  deriving DecidableEq, Repr

/-- The `Display` text of an error. -/
def MlsError.message : MlsError → String
  | .unsupportedHashId value => s!"unsupported hash id: {value.toNat}"
  | .validation err => s!"validation error: {err.debug}"
  | .unknownMember member => s!"unknown member: {member}"
  | .encryption => "encryption error"
  | .decryption => "decryption error"
  | .spex err => s!"spex error: {err.message}"
  | .outOfOrderCommit err =>
    s!"out-of-order commit: expected epoch {err.expectedEpoch.toNat}" ++
      s!", received {err.receivedEpoch.toNat}"

def extSpexProtoSuite : UInt16 := 0xF0A0

def extSpexCfgHash : UInt16 := 0xF0A1

/-- An extension: its type, the length of its data, its data. -/
def extension (type : UInt16) (data : Bytes) : Bytes :=
  u16Be type ++ u16Be (UInt16.ofNat data.length) ++ data

def extProtoSuiteBytes (major minor ciphersuiteId : UInt16) (flags : UInt8) : Bytes :=
  extension extSpexProtoSuite (u16Be major ++ u16Be minor ++ u16Be ciphersuiteId ++ [flags])

/-- `none` is the panic of the assertion on the length of the hash. -/
def extCfgHashBytes (hashId : UInt16) (cfgHash : Bytes) : Option Bytes :=
  if cfgHash.length ≤ 255 then
    some (extension extSpexCfgHash (u16Be hashId ++ [UInt8.ofNat cfgHash.length] ++ cfgHash))
  else none

def mlsExtensions (protoSuite : ProtoSuite) (flags : UInt8) (cfgHashId : UInt16)
    (cfgHash : Bytes) : Option (List Bytes) := do
  let cfgHashExtension ← extCfgHashBytes cfgHashId cfgHash
  return [extProtoSuiteBytes protoSuite.major protoSuite.minor protoSuite.ciphersuiteId flags,
    cfgHashExtension]

/-- What the members agree on besides the secrets. -/
structure GroupContext where
  protoSuite : ProtoSuite
  flags : UInt8
  cfgHashId : UInt16
  cfgHash : Bytes
  extensions : List Bytes
  deriving DecidableEq, Repr

def GroupContext.rebuildExtensions (self : GroupContext) : Option GroupContext :=
  (mlsExtensions self.protoSuite self.flags self.cfgHashId self.cfgHash).map
    fun extensions => { self with extensions }

structure GroupConfig where
  protoSuite : ProtoSuite
  flags : UInt8
  cfgHashId : UInt16
  cfgHash : Bytes
  initialSecret : Option Bytes
  deriving DecidableEq, Repr

/-- The secret of the group in an epoch. -/
structure GroupSecrets where
  epoch : UInt64
  groupSecret : Bytes
  deriving DecidableEq, Repr

structure Group where
  epoch : UInt64
  context : GroupContext
  members : List String
  secrets : GroupSecrets
  hashId : HashId
  deriving DecidableEq, Repr

/-- A change of the group. What it leaves out stays as it is. -/
structure Commit where
  epoch : UInt64
  protoSuite : Option ProtoSuite := none
  flags : Option UInt8 := none
  cfgHashId : Option UInt16 := none
  cfgHash : Option Bytes := none
  groupSecret : Option Bytes := none
  addedMembers : List String := []
  removedMembers : List String := []
  deriving DecidableEq, Repr

def hashIdFromU16 (hashId : UInt16) : Except MlsError HashId :=
  if hashId = 1 then .ok .sha256 else .error (.unsupportedHashId hashId)

section Hashing
variable (sha256 : Bytes → Bytes)

/-- The seed of a group that is created without a secret. -/
def deriveInitialSecretSeed (hashId : HashId) (context : GroupContext) : Bytes :=
  hashBytes sha256 hashId (context.cfgHash ++ u16Be context.protoSuite.major ++
    u16Be context.protoSuite.minor ++ u16Be context.protoSuite.ciphersuiteId ++ [context.flags])

/-- Every epoch has a secret of its own. -/
def deriveGroupSecret (hashId : HashId) (seed : Bytes) (epoch : UInt64) : Bytes :=
  hashBytes sha256 hashId (seed ++ u64Be epoch)

def cfgHashForThreadConfig (hashId : HashId) (threadConfig : ThreadConfig) :
    Except MlsError Bytes :=
  (hashCtap2CborValue sha256 hashId threadConfig).mapError .spex

namespace Group

/-- A hash of more than 255 bytes does not fit its extension, and the call panics. -/
def create (config : GroupConfig) : Except (Fault MlsError) Group :=
  match hashIdFromU16 config.cfgHashId with
  | .error error => .error (.returned error)
  | .ok hashId =>
    let context : GroupContext :=
      ⟨config.protoSuite, config.flags, config.cfgHashId, config.cfgHash, []⟩
    match context.rebuildExtensions with
    | none => .error .panicked
    | some context =>
      let seed := config.initialSecret.getD (deriveInitialSecretSeed sha256 hashId context)
      .ok ⟨0, context, [], ⟨0, deriveGroupSecret sha256 hashId seed 0⟩, hashId⟩

/-- The part of `apply_commit` that takes the hash id over, if there is one. -/
def setHashId (self : Group) : Option UInt16 → Except MlsError Group
  | none => .ok self
  | some cfgHashId => (hashIdFromU16 cfgHashId).map fun hashId =>
    { self with hashId, context := { self.context with cfgHashId } }

/-- The part of `apply_commit` that changes the list of members. -/
def updateMembers (members : List String) (commit : Commit) : List String :=
  commit.removedMembers.foldl (fun members memberId => members.filter (· ≠ memberId))
    (commit.addedMembers.foldl Roster.pushNew members)

/-- The part of `apply_commit` that replaces the secret. -/
def updateSecrets (hashId : HashId) (secrets : GroupSecrets) (commit : Commit) : GroupSecrets :=
  match commit.groupSecret with
  | some groupSecret => ⟨commit.epoch, groupSecret⟩
  | none =>
    if commit.epoch ≠ secrets.epoch then
      ⟨commit.epoch, deriveGroupSecret sha256 hashId secrets.groupSecret commit.epoch⟩
    else secrets

/-- The result of a commit and the group it leaves behind. An unsupported hash
id is found after the suite and the flags have been taken over. -/
def applyCommit (self : Group) (commit : Commit) :
    Except (Fault MlsError) GroupContext × Group :=
  if commit.epoch ≠ self.epoch + 1 then
    (.error (.returned (.outOfOrderCommit ⟨self.epoch + 1, commit.epoch⟩)), self)
  else
    let described := { self with context := { self.context with
      protoSuite := commit.protoSuite.getD self.context.protoSuite
      flags := commit.flags.getD self.context.flags } }
    match described.setHashId commit.cfgHashId with
    | .error error => (.error (.returned error), described)
    | .ok hashed =>
      let updated := { hashed with
        context := { hashed.context with
          cfgHash := commit.cfgHash.getD hashed.context.cfgHash }
        members := updateMembers hashed.members commit
        secrets := updateSecrets sha256 hashed.hashId hashed.secrets commit }
      match updated.context.rebuildExtensions with
      | none => (.error .panicked, updated)
      | some context => (.ok context, { updated with context, epoch := commit.epoch })

/-- The commit is applied to the group itself. -/
def addMember (self : Group) (memberId : String) : Except (Fault MlsError) Commit × Group :=
  let commit : Commit := { epoch := self.epoch + 1, addedMembers := [memberId] }
  let (result, group) := applyCommit sha256 self commit
  (result.map fun _ => commit, group)

end Group
end Hashing

theorem GroupContext.rebuildExtensions_of_le (context : GroupContext)
    (h : context.cfgHash.length ≤ 255) :
    ∃ extensions, context.rebuildExtensions = some { context with extensions } := by
  simp [rebuildExtensions, mlsExtensions, extCfgHashBytes, h]

/-- What a commit has to satisfy for its configuration to be taken over. -/
@[mk_iff] structure Commit.Supported (commit : Commit) : Prop where
  hashId : ∀ id ∈ commit.cfgHashId, id = 1
  short : ∀ hash ∈ commit.cfgHash, hash.length ≤ 255

instance (commit : Commit) : Decidable commit.Supported :=
  have : Decidable (∀ id ∈ commit.cfgHashId, id = 1) :=
    Option.decidableForallMem commit.cfgHashId
  decidable_of_iff' _ commit.supported_iff

section Replay
variable {sha256 : Bytes → Bytes}

theorem hashBytes_eq (hashId : HashId) (data : Bytes) :
    hashBytes sha256 hashId data = sha256 data := by
  cases hashId
  rfl

/-- The bytes of an epoch in the derivation of secrets. -/
def epochLabel (epoch : ℕ) : Bytes := u64Be (UInt64.ofNat epoch)

theorem length_epochLabel (i j : ℕ) : (epochLabel i).length = (epochLabel j).length := by
  simp [epochLabel, u64Be]

theorem ofNat_eq_of_epochLabel_eq {i j : ℕ} (h : epochLabel i = epochLabel j) :
    UInt64.ofNat i = UInt64.ofNat j :=
  UInt64.toNat_inj.mp (BigEndian.write_inj (UInt64.toNat_lt _) (UInt64.toNat_lt _) h)

/-- The secret after a number of commits that bring no secret of their own. -/
def secretAt (sha256 : Bytes → Bytes) (seed : Bytes) (commits : ℕ) : Bytes :=
  HashChain.chain sha256 epochLabel seed commits

theorem deriveGroupSecret_secretAt (hashId : HashId) (seed : Bytes) (commits : ℕ) :
    deriveGroupSecret sha256 hashId (secretAt sha256 seed commits)
      (UInt64.ofNat (commits + 1)) = secretAt sha256 seed (commits + 1) := hashBytes_eq hashId _

/-- Secrets at counts that differ as 64-bit words differ. -/
theorem ofNat_eq_of_secretAt_eq (hinj : Function.Injective sha256) {seed : Bytes} {i j : ℕ}
    (h : secretAt sha256 seed i = secretAt sha256 seed j) : UInt64.ofNat i = UInt64.ofNat j :=
  ofNat_eq_of_epochLabel_eq (HashChain.label_eq_of_chain_eq hinj length_epochLabel h)

/-- The group stands where adding the entries one by one to a new group leaves
it: the epoch counts the entries, a member entered twice is held once, and the
secret depends on the number of entries only. -/
structure Replays (sha256 : Bytes → Bytes) (seed : Bytes) (entries : List String)
    (group : Group) : Prop where
  epoch : group.epoch = UInt64.ofNat entries.length
  members : group.members = Roster.firsts entries
  secrets : group.secrets = ⟨group.epoch, secretAt sha256 seed entries.length⟩
  short : group.context.cfgHash.length ≤ 255

namespace Group

theorem updateMembers_eq (members : List String) (commit : Commit) :
    updateMembers members commit =
      (Roster.pushAll members commit.addedMembers).filter (· ∉ commit.removedMembers) :=
  Roster.foldl_retain _ _

variable (sha256) in
theorem create_replays (config : GroupConfig) {seed : Bytes} (hid : config.cfgHashId = 1)
    (hshort : config.cfgHash.length ≤ 255) (hseed : config.initialSecret = some seed) :
    ∃ group, create sha256 config = .ok group ∧ Replays sha256 seed [] group := by
  obtain ⟨extensions, hext⟩ := GroupContext.rebuildExtensions_of_le
    ⟨config.protoSuite, config.flags, config.cfgHashId, config.cfgHash, []⟩ hshort
  simp only [create, hashIdFromU16, hid, if_true, hseed, Option.getD_some] at hext ⊢
  rw [hext]
  refine ⟨_, rfl, ?_⟩
  exact {
    epoch := rfl
    members := rfl
    secrets := by rw [deriveGroupSecret, hashBytes_eq]; rfl
    short := hshort }

theorem setHashId_of_supported {commit : Commit} (h : commit.Supported) (group : Group) :
    ∃ cfgHashId, group.setHashId commit.cfgHashId =
      .ok { group with context := { group.context with cfgHashId } } := by
  cases hid : commit.cfgHashId with
  | none => exact ⟨group.context.cfgHashId, rfl⟩
  | some id =>
    refine ⟨id, ?_⟩
    have hone : id = 1 := h.hashId id hid
    simp [setHashId, hashIdFromU16, hone, Except.map]

variable (sha256) in
/-- A supported commit for the next epoch succeeds. -/
theorem applyCommit_of_supported {group : Group} {commit : Commit}
    (hnext : commit.epoch = group.epoch + 1) (h : commit.Supported)
    (hshort : group.context.cfgHash.length ≤ 255) :
    ∃ context : GroupContext, context.cfgHash.length ≤ 255 ∧
      applyCommit sha256 group commit = (.ok context,
        ⟨commit.epoch, context, updateMembers group.members commit,
          updateSecrets sha256 group.hashId group.secrets commit, group.hashId⟩) := by
  have hcfg : (commit.cfgHash.getD group.context.cfgHash).length ≤ 255 := by
    cases hc : commit.cfgHash with
    | none => exact hshort
    | some hash => exact h.short hash hc
  unfold applyCommit
  rw [if_neg (not_not_intro hnext)]
  dsimp only
  obtain ⟨cfgHashId, hset⟩ := setHashId_of_supported h { group with
    context := { group.context with
      protoSuite := commit.protoSuite.getD group.context.protoSuite
      flags := commit.flags.getD group.context.flags } }
  rw [hset]
  dsimp only
  obtain ⟨extensions, hext⟩ := GroupContext.rebuildExtensions_of_le { group.context with
    protoSuite := commit.protoSuite.getD group.context.protoSuite
    flags := commit.flags.getD group.context.flags
    cfgHashId := cfgHashId
    cfgHash := commit.cfgHash.getD group.context.cfgHash } hcfg
  rw [hext]
  exact ⟨_, hcfg, rfl⟩

end Group

namespace Replays
variable {seed : Bytes} {entries : List String} {group : Group}

theorem updateSecrets_eq (h : Replays sha256 seed entries group) {commit : Commit}
    (hnext : commit.epoch = group.epoch + 1) (hsecret : commit.groupSecret = none) :
    Group.updateSecrets sha256 group.hashId group.secrets commit =
      ⟨commit.epoch, secretAt sha256 seed (entries.length + 1)⟩ := by
  have hepoch : commit.epoch = UInt64.ofNat (entries.length + 1) := by
    rw [hnext, h.epoch, UInt64.ofNat_add]
    rfl
  have hne : commit.epoch ≠ group.secrets.epoch := by
    rw [hnext, h.secrets]
    simp
  rw [Group.updateSecrets, hsecret]
  dsimp only
  rw [if_pos hne, h.secrets, hepoch, deriveGroupSecret_secretAt]

/-- What a commit that brings no secret leaves: the next epoch, the updated
members and the next secret of the chain. -/
theorem exists_settled (h : Replays sha256 seed entries group) {commit : Commit}
    (hnext : commit.epoch = group.epoch + 1) (hs : commit.Supported)
    (hsecret : commit.groupSecret = none) :
    ∃ group', settled (Group.applyCommit sha256 group commit) = .ok group' ∧
      group'.epoch = commit.epoch ∧
      group'.members = Group.updateMembers (Roster.firsts entries) commit ∧
      group'.secrets = ⟨commit.epoch, secretAt sha256 seed (entries.length + 1)⟩ ∧
      group'.context.cfgHash.length ≤ 255 := by
  obtain ⟨context, hshort, happly⟩ :=
    Group.applyCommit_of_supported sha256 hnext hs h.short
  rw [happly]
  refine ⟨_, rfl, rfl, ?_, ?_, hshort⟩
  · rw [← h.members]
  · rw [← h.updateSecrets_eq hnext hsecret]

/-- A commit that brings no secret moves the group to any list with one more
entry and the same first occurrences as the group's members after the commit. -/
theorem applyCommit (h : Replays sha256 seed entries group) (commit : Commit)
    (entries' : List String) (hnext : commit.epoch = group.epoch + 1) (hs : commit.Supported)
    (hsecret : commit.groupSecret = none)
    (hlength : entries'.length = entries.length + 1)
    (hmembers : Roster.firsts entries' = Group.updateMembers (Roster.firsts entries) commit) :
    ∃ group', settled (Group.applyCommit sha256 group commit) = .ok group' ∧
      Replays sha256 seed entries' group' := by
  obtain ⟨group', hsettled, hepoch, hmembers', hsecrets, hshort⟩ :=
    h.exists_settled hnext hs hsecret
  refine ⟨group', hsettled, ?_⟩
  exact {
    epoch := by
      rw [hlength, UInt64.ofNat_add, ← h.epoch, hepoch]
      exact hnext
    members := by rw [hmembers', hmembers]
    secrets := by rw [hlength, hsecrets, hepoch]
    short := hshort }

theorem addMember (h : Replays sha256 seed entries group) (memberId : String) :
    ∃ group', settled (Group.addMember sha256 group memberId) = .ok group' ∧
      Replays sha256 seed (entries ++ [memberId]) group' := by
  obtain ⟨group', hsettled, hreplays⟩ := h.applyCommit
    { epoch := group.epoch + 1, addedMembers := [memberId] } (entries ++ [memberId]) rfl
    ⟨by simp, by simp⟩ rfl (by simp) (by simp [Group.updateMembers_eq, Roster.firsts_append])
  refine ⟨group', ?_, hreplays⟩
  rw [← hsettled, Group.addMember]
  cases hresult : (Group.applyCommit sha256 group
    { epoch := group.epoch + 1, addedMembers := [memberId] }).1 <;>
    simp [settled, hresult, Except.map]

end Replays
end Replay
end Spex
