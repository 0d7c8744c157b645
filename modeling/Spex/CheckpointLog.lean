import Spex.Base64
import Spex.Forest
import Spex.Tabulated
import Spex.Validation

/-!
# The checkpoint log

The log of key checkpoints, recovery keys and revocations of `log.rs`. It keeps a
Merkle state beside its entries, with a slot for every level of the tree, and
updates it with every appended entry; a log that is read from bytes rebuilds it.
The root is the one of the perfect trees over the leaf hashes.
-/
namespace Spex
open Cbor Fallible

/-- The keys of a user at a time. -/
@[ext]
structure KeyCheckpoint where
  userId : Bytes
  verifyingKey : Bytes
  deviceId : Bytes
  issuedAt : UInt64
  deriving DecidableEq, Repr

def KeyCheckpoint.fields (self : KeyCheckpoint) : List (UInt64 × Option Value) :=
  [(0, some (.bytes self.userId)),
   (1, some (.bytes self.verifyingKey)),
   (2, some (.bytes self.deviceId)),
   (3, some (.integer self.issuedAt.toNat))]

instance : Ctap2Cbor KeyCheckpoint where
  toCborValue self := FieldMap.toValue (FieldMap.ofFields self.fields)

/-- A key that may revoke in place of a lost one. -/
@[ext]
structure RecoveryKey where
  userId : Bytes
  recoveryKey : Bytes
  issuedAt : UInt64
  deriving DecidableEq, Repr

def RecoveryKey.fields (self : RecoveryKey) : List (UInt64 × Option Value) :=
  [(0, some (.bytes self.userId)),
   (1, some (.bytes self.recoveryKey)),
   (2, some (.integer self.issuedAt.toNat))]

instance : Ctap2Cbor RecoveryKey where
  toCborValue self := FieldMap.toValue (FieldMap.ofFields self.fields)

/-- A key is revoked by its hash, and so is the recovery key named. -/
@[ext]
structure RevocationDeclaration where
  userId : Bytes
  revokedKeyHash : Bytes
  revokedAt : UInt64
  recoveryKeyHash : Option Bytes
  reason : Option String
  deriving DecidableEq, Repr

def RevocationDeclaration.fields (self : RevocationDeclaration) : List (UInt64 × Option Value) :=
  [(0, some (.bytes self.userId)),
   (1, some (.bytes self.revokedKeyHash)),
   (2, some (.integer self.revokedAt.toNat)),
   (3, self.recoveryKeyHash.map .bytes),
   (4, self.reason.map .text)]

instance : Ctap2Cbor RevocationDeclaration where
  toCborValue self := FieldMap.toValue (FieldMap.ofFields self.fields)

inductive CheckpointEntry where
  | key (entry : KeyCheckpoint)
  | recovery (entry : RecoveryKey)
  | revocation (entry : RevocationDeclaration)
  deriving DecidableEq, Repr

/-- An entry is written with the number of its kind. -/
def CheckpointEntry.fields : CheckpointEntry → List (UInt64 × Option Value)
  | .key entry => [(0, some (.integer 0)), (1, some (toCborValue entry))]
  | .recovery entry => [(0, some (.integer 1)), (1, some (toCborValue entry))]
  | .revocation entry => [(0, some (.integer 2)), (1, some (toCborValue entry))]

instance : Ctap2Cbor CheckpointEntry where
  toCborValue self := FieldMap.toValue (FieldMap.ofFields self.fields)

/-- How two copies of a log stand to each other. -/
inductive LogConsistency where
  | identical
  | localBehind
  | localAhead
  | diverged
  deriving DecidableEq, Repr

/-- The roots of the complete subtrees, the smallest first. -/
structure MerkleState where
  frontier : List (Option Bytes)
  leafCount : ℕ
  deriving DecidableEq, Repr

/-- The Merkle state is skipped when a log is serialized. -/
structure CheckpointLog where
  entries : List CheckpointEntry
  merkleState : MerkleState

/-- The serialization of the entries of a log, with the error texts of the
libraries that read CBOR and base64. -/
structure LogCodec where
  encode : List CheckpointEntry → Except SpexError Bytes
  decode : Bytes → Except String (List CheckpointEntry)
  base64Error : String → String

/-- What is written is read back. -/
def LogCodec.RoundTrips (codec : LogCodec) : Prop :=
  ∀ entries bytes, codec.encode entries = .ok bytes → codec.decode bytes = .ok entries

section Merkle
variable (sha256 : Bytes → Bytes)

/-- The hash of two children, after a byte that no leaf input begins with. -/
def hashNode (left right : Bytes) : Bytes := hashBytes sha256 .sha256 (0x01 :: (left ++ right))

def CheckpointLog.encodeEntry (entry : CheckpointEntry) : Except SpexError Bytes :=
  ctap2CanonicalValueBytes (toCborValue entry)

/-- Leaves and nodes are hashed under different first bytes. -/
def CheckpointLog.leafHash (entry : CheckpointEntry) : Except SpexError Bytes := do
  let encoded ← encodeEntry entry
  return hashBytes sha256 .sha256 (0x00 :: encoded)

namespace MerkleState

def new : MerkleState := ⟨[], 0⟩

/-- The loop of `append_leaf`: the frontier, the carried hash and the level it stops
at. -/
def carryUp (frontier : List (Option Bytes)) (carry : Bytes) (level index : ℕ) :
    List (Option Bytes) × Bytes × ℕ :=
  if index % 2 = 1 then
    match frontier[level]? with
    | some (some left) =>
      carryUp (frontier.set level none) (hashNode sha256 left carry) (level + 1) (index / 2)
    | _ => carryUp frontier carry (level + 1) (index / 2)
  else (frontier, carry, level)
termination_by index

/-- The roots are joined from the largest on, and an empty log gives no bytes. -/
def root (state : MerkleState) : Bytes :=
  (state.frontier.reverse.reduceOption.foldl (fun root hash =>
    some (match root with
      | none => hash
      | some accum => hashNode sha256 hash accum)) none).getD []

/-- A leaf is carried up over the complete subtrees it fills. -/
def appendLeaf (state : MerkleState) (leafHash : Bytes) : Bytes × MerkleState :=
  let carried := carryUp sha256 state.frontier leafHash 0 state.leafCount
  let level := carried.2.2
  let frontier := if carried.1.length ≤ level
    then carried.1 ++ List.replicate (level + 1 - carried.1.length) none else carried.1
  let next : MerkleState := ⟨frontier.set level (some carried.2.1), state.leafCount + 1⟩
  (next.root sha256, next)

def fromEntries (entries : List CheckpointEntry) : Except SpexError MerkleState :=
  entries.foldlM (fun state entry => do
    let leafHash ← CheckpointLog.leafHash sha256 entry
    return (state.appendLeaf sha256 leafHash).2) new

end MerkleState

namespace CheckpointLog

def new : CheckpointLog := ⟨[], .new⟩

/-- The result and the log that the call leaves behind. -/
def rebuildMerkleState (log : CheckpointLog) : Except SpexError Unit × CheckpointLog :=
  match MerkleState.fromEntries sha256 log.entries with
  | .ok state => (.ok (), { log with merkleState := state })
  | .error err => (.error err, log)

/-- A tree with another number of leaves is built again. -/
def ensureMerkleState (log : CheckpointLog) : Except SpexError Unit × CheckpointLog :=
  if log.merkleState.leafCount = log.entries.length then (.ok (), log)
  else log.rebuildMerkleState sha256

/-- An entry that cannot be hashed is not appended. -/
def appendWithRoot (log : CheckpointLog) (entry : CheckpointEntry) :
    Except SpexError Bytes × CheckpointLog :=
  match log.ensureMerkleState sha256 with
  | (.error err, log) => (.error err, log)
  | (.ok (), log) =>
    match leafHash sha256 entry with
    | .error err => (.error err, log)
    | .ok leafHash =>
      let appended := log.merkleState.appendLeaf sha256 leafHash
      (.ok appended.1, ⟨log.entries ++ [entry], appended.2⟩)

def append (log : CheckpointLog) (entry : CheckpointEntry) :
    Except SpexError Unit × CheckpointLog :=
  let appended := log.appendWithRoot sha256 entry
  (appended.1.map fun _ => (), appended.2)

/-- A kept state is trusted whenever it counts as many leaves as there are entries. -/
def merkleRoot (log : CheckpointLog) : Except SpexError Bytes :=
  if log.entries.isEmpty then .ok []
  else if log.merkleState.leafCount = log.entries.length then .ok (log.merkleState.root sha256)
  else (MerkleState.fromEntries sha256 log.entries).map (MerkleState.root sha256)

/-- The entries are compared up to the length of the shorter log. -/
def isPrefixOf (log other : CheckpointLog) : Bool :=
  if log.entries.length > other.entries.length then false
  else (log.entries.zip other.entries).all fun pair => pair.1 = pair.2

def compareWith (log other : CheckpointLog) : LogConsistency :=
  if log.entries = other.entries then .identical
  else if log.isPrefixOf other then .localBehind
  else if other.isPrefixOf log then .localAhead
  else .diverged

variable (codec : LogCodec)

def toCborBytes (log : CheckpointLog) : Except SpexError Bytes := codec.encode log.entries

/-- The tree is not stored, and is built again from the entries. -/
def fromCborBytes (bytes : Bytes) : Except SpexError CheckpointLog := do
  let entries ← (codec.decode bytes).mapError .cbor
  settled (rebuildMerkleState sha256 ⟨entries, .new⟩)

def exportBase64 (log : CheckpointLog) : Except SpexError String := do
  let bytes ← log.toCborBytes codec
  return Base64.encode bytes

def importBase64 (encoded : String) : Except SpexError CheckpointLog :=
  match Base64.decode encoded with
  | some bytes => fromCborBytes sha256 codec bytes
  | none => .error (.invalidInput (codec.base64Error encoded))

end CheckpointLog

end Merkle

section Frontier
variable {sha256 : Bytes → Bytes} {state : MerkleState} {leaves : List Bytes}

/-- The loop carries a hash through the occupied slots. -/
theorem carryUp_eq (sha256 : Bytes → Bytes) (low slots : List (Option Bytes)) (carry : Bytes) :
    let carried := MerkleState.carryUp sha256 (low ++ slots) carry low.length (Forest.value slots)
    (if carried.1.length ≤ carried.2.2
      then carried.1 ++ List.replicate (carried.2.2 + 1 - carried.1.length) none
      else carried.1).set carried.2.2 (some carried.2.1) =
        low ++ Forest.push (hashNode sha256) carry slots := by
  induction slots generalizing low carry with
  | nil =>
    rw [MerkleState.carryUp, if_neg (by simp)]
    simp [Forest.push]
  | cons slot slots ih =>
    cases slot with
    | none =>
      rw [MerkleState.carryUp, if_neg (by simp)]
      simp [Forest.push]
    | some left =>
      have hodd : Forest.value (some left :: slots) % 2 = 1 := by
        rw [Forest.value_some]
        omega
      have hhalf : Forest.value (some left :: slots) / 2 = Forest.value slots := by
        rw [Forest.value_some]
        omega
      have hset : (low ++ some left :: slots).set low.length none = low ++ [none] ++ slots := by
        simp
      have hlength : low.length + 1 = (low ++ [(none : Option Bytes)]).length := by simp
      have hpush : low ++ Forest.push (hashNode sha256) carry (some left :: slots) =
          low ++ [none] ++ Forest.push (hashNode sha256) (hashNode sha256 left carry) slots := by
        simp [Forest.push]
      rw [MerkleState.carryUp, if_pos hodd, hhalf]
      simp only [List.getElem?_append_right (Nat.le_refl _), Nat.sub_self, List.getElem?_cons_zero]
      rw [hset, hlength, hpush]
      exact ih (low ++ [none]) (hashNode sha256 left carry)

theorem appendLeaf_eq (leafHash : Bytes) (h : Forest.value state.frontier = state.leafCount) :
    (state.appendLeaf sha256 leafHash).2 =
      ⟨Forest.push (hashNode sha256) leafHash state.frontier, state.leafCount + 1⟩ := by
  have hcarry := carryUp_eq sha256 [] state.frontier leafHash
  rw [h] at hcarry
  exact congrArg (MerkleState.mk · (state.leafCount + 1)) hcarry

theorem foldl_root (hashes : List Bytes) (top : Bytes) :
    hashes.foldl (fun root hash => some (match root with
      | none => hash
      | some accum => hashNode sha256 hash accum)) (some top) =
      some (hashes.foldl (fun accum hash => hashNode sha256 hash accum) top) := by
  induction hashes generalizing top with
  | nil => rfl
  | cons hash hashes ih => exact ih (hashNode sha256 hash top)

/-- The root joins the occupied slots, the highest level first. -/
theorem root_eq_joined (state : MerkleState) :
    state.root sha256 = Forest.joined (hashNode sha256) state.frontier.reverse.reduceOption := by
  unfold MerkleState.root
  cases state.frontier.reverse.reduceOption with
  | nil => rfl
  | cons top hashes => rw [List.foldl_cons, foldl_root, Option.getD_some, Forest.joined]

/-- The slots of a state are the block roots of the leaves, which it counts. -/
structure MerkleState.Covers (sha256 : Bytes → Bytes) (state : MerkleState)
    (leaves : List Bytes) : Prop where
  count : state.leafCount = leaves.length
  holds : Forest.Holds (hashNode sha256) 0 state.frontier leaves

namespace MerkleState.Covers

theorem new : Covers sha256 .new [] := ⟨rfl, rfl⟩

theorem value_eq (h : state.Covers sha256 leaves) :
    Forest.value state.frontier = state.leafCount := by
  rw [h.count, Forest.length_of_holds h.holds, pow_zero, Nat.one_mul]

theorem appendLeaf (h : state.Covers sha256 leaves) (leafHash : Bytes) :
    (state.appendLeaf sha256 leafHash).2.Covers sha256 (leaves ++ [leafHash]) := by
  rw [appendLeaf_eq leafHash h.value_eq]
  exact ⟨by simp [h.count], Forest.holds_push h.holds rfl rfl⟩

theorem root_eq (h : state.Covers sha256 leaves) :
    state.root sha256 = Forest.root (hashNode sha256) leaves := by
  rw [root_eq_joined, Forest.root_of_holds h.holds]

/-- A slot is occupied exactly when its digit of the count is one. -/
theorem slot_iff (h : state.Covers sha256 leaves) (i : ℕ) :
    (∃ hash, state.frontier[i]? = some (some hash)) ↔ state.leafCount.testBit i = true := by
  rw [← h.value_eq, Forest.testBit_value, Option.isSome_iff_exists]
  simp [Option.join_eq_some_iff]

theorem foldl (h : state.Covers sha256 leaves) (more : List Bytes) :
    (more.foldl (fun state leafHash => (state.appendLeaf sha256 leafHash).2) state).Covers
      sha256 (leaves ++ more) := by
  induction more generalizing state leaves with
  | nil => simpa using h
  | cons leafHash more ih => simpa using ih (h.appendLeaf leafHash)

end MerkleState.Covers

/-- Hashing and appending in one loop is hashing first and appending then. -/
theorem foldlM_entries (entries : List CheckpointEntry) (state : MerkleState) :
    entries.foldlM (fun state entry => do
      let leafHash ← CheckpointLog.leafHash sha256 entry
      return (state.appendLeaf sha256 leafHash).2) state =
    (entries.mapM (CheckpointLog.leafHash sha256)).map fun leaves =>
      leaves.foldl (fun state leafHash => (state.appendLeaf sha256 leafHash).2) state := by
  induction entries generalizing state with
  | nil => rfl
  | cons entry entries ih =>
    rw [List.foldlM_cons, List.mapM_cons]
    cases CheckpointLog.leafHash sha256 entry with
    | error err => rfl
    | ok leafHash =>
      refine (ih _).trans ?_
      cases entries.mapM (CheckpointLog.leafHash sha256) with
      | error err => rfl
      | ok leaves => rfl

theorem covers_fromEntries {entries : List CheckpointEntry}
    (h : MerkleState.fromEntries sha256 entries = .ok state) :
    ∃ leaves, entries.mapM (CheckpointLog.leafHash sha256) = .ok leaves ∧
      state.Covers sha256 leaves := by
  rw [MerkleState.fromEntries, foldlM_entries, map_eq_ok] at h
  obtain ⟨leaves, hleaves, rfl⟩ := h
  exact ⟨leaves, hleaves, by simpa using MerkleState.Covers.new.foldl leaves⟩

end Frontier

namespace CheckpointLog

section Reached
variable (sha256 : Bytes → Bytes) (codec : LogCodec)

/-- The logs that the operations of a log lead to. -/
inductive Reached : CheckpointLog → Prop
  | new : Reached .new
  | append {log : CheckpointLog} (entry : CheckpointEntry) :
      Reached log → Reached (log.append sha256 entry).2
  | appendWithRoot {log : CheckpointLog} (entry : CheckpointEntry) :
      Reached log → Reached (log.appendWithRoot sha256 entry).2
  | fromCborBytes {bytes : Bytes} {log : CheckpointLog} :
      fromCborBytes sha256 codec bytes = .ok log → Reached log
  | importBase64 {encoded : String} {log : CheckpointLog} :
      importBase64 sha256 codec encoded = .ok log → Reached log

/-- The kept Merkle state is the one that rebuilding the log gives. -/
def Synced (log : CheckpointLog) : Prop :=
  MerkleState.fromEntries sha256 log.entries = .ok log.merkleState

variable {sha256 codec} {log : CheckpointLog}

theorem Synced.covers (h : log.Synced sha256) :
    ∃ leaves, log.entries.mapM (leafHash sha256) = .ok leaves ∧
      log.merkleState.Covers sha256 leaves :=
  covers_fromEntries h

theorem Synced.leafCount_eq (h : log.Synced sha256) :
    log.merkleState.leafCount = log.entries.length := by
  obtain ⟨leaves, hleaves, hcovers⟩ := h.covers
  rw [hcovers.count, (mapM_eq_ok.mp hleaves).length_eq]

theorem Synced.merkleRoot_eq (h : log.Synced sha256) :
    log.merkleRoot sha256 = .ok (log.merkleState.root sha256) := by
  unfold merkleRoot
  split_ifs with hempty hcount
  · rw [List.isEmpty_iff] at hempty
    rw [Synced, hempty] at h
    rw [← Except.ok.inj h]
    rfl
  · rfl
  · exact absurd h.leafCount_eq hcount

/-- An entry that cannot be encoded leaves the log as it is. -/
theorem Synced.appendWithRoot_eq (h : log.Synced sha256) (entry : CheckpointEntry) :
    log.appendWithRoot sha256 entry =
      match leafHash sha256 entry with
      | .error err => (.error err, log)
      | .ok leafHash =>
        let appended := log.merkleState.appendLeaf sha256 leafHash
        (.ok appended.1, ⟨log.entries ++ [entry], appended.2⟩) := by
  rw [appendWithRoot, ensureMerkleState, if_pos h.leafCount_eq]

theorem Synced.appended (h : log.Synced sha256) {entry : CheckpointEntry} {leaf : Bytes}
    (hleaf : leafHash sha256 entry = .ok leaf) :
    Synced sha256 ⟨log.entries ++ [entry], (log.merkleState.appendLeaf sha256 leaf).2⟩ := by
  unfold Synced MerkleState.fromEntries at h ⊢
  rw [List.foldlM_append, h, ok_bind, List.foldlM_cons, hleaf]
  rfl

theorem Synced.appendWithRoot (h : log.Synced sha256) (entry : CheckpointEntry) :
    (log.appendWithRoot sha256 entry).2.Synced sha256 := by
  rw [h.appendWithRoot_eq]
  split
  · exact h
  · exact h.appended ‹_›

theorem rebuildMerkleState_eq (h : log.Synced sha256) (state : MerkleState) :
    rebuildMerkleState sha256 ⟨log.entries, state⟩ = (.ok (), log) := by
  rw [Synced] at h
  rw [rebuildMerkleState, h]

theorem synced_fromCborBytes {bytes : Bytes} (h : fromCborBytes sha256 codec bytes = .ok log) :
    log.Synced sha256 := by
  obtain ⟨entries, -, h⟩ := bind_eq_ok.mp h
  unfold settled rebuildMerkleState at h
  split at h
  · rename_i state hstate
    rw [← Except.ok.inj h]
    exact hstate
  · exact absurd h (by simp [Except.map])

theorem synced_importBase64 {encoded : String}
    (h : importBase64 sha256 codec encoded = .ok log) : log.Synced sha256 := by
  unfold importBase64 at h
  split at h
  · exact synced_fromCborBytes h
  · exact absurd h (by simp)

/-- Every operation keeps the Merkle state in step with the entries. -/
theorem synced_of_reached (h : Reached sha256 codec log) : log.Synced sha256 := by
  induction h with
  | new => rfl
  | append entry _ ih => exact ih.appendWithRoot entry
  | appendWithRoot entry _ ih => exact ih.appendWithRoot entry
  | fromCborBytes h => exact synced_fromCborBytes h
  | importBase64 h => exact synced_importBase64 h

/-- Reading back what was written gives the same log, its Merkle state included. -/
theorem Synced.importBase64_eq (h : log.Synced sha256) (hcodec : codec.RoundTrips) {bytes : Bytes}
    (hbytes : log.toCborBytes codec = .ok bytes) :
    importBase64 sha256 codec (Base64.encode bytes) = .ok log := by
  have hentries := hcodec log.entries bytes hbytes
  rw [importBase64, Base64.decode_encode]
  simp only [CheckpointLog.fromCborBytes, hentries, Except.mapError, ok_bind,
    rebuildMerkleState_eq h]
  rfl

/-- The kept root is the root of the perfect blocks of the leaf hashes, and a log
that is exported and imported again is the same log. -/
theorem merkleRoot_incremental (hcodec : codec.RoundTrips) (h : Reached sha256 codec log) :
    (∃ leaves, log.entries.mapM (leafHash sha256) = .ok leaves ∧
      log.merkleRoot sha256 = .ok (Forest.root (hashNode sha256) leaves)) ∧
    log.merkleState.leafCount = log.entries.length ∧
    (∀ i, (∃ hash, log.merkleState.frontier[i]? = some (some hash)) ↔
      log.merkleState.leafCount.testBit i = true) ∧
    (∀ entry, match leafHash sha256 entry with
      | .error err => log.appendWithRoot sha256 entry = (.error err, log)
      | .ok _ => ∃ root next, log.appendWithRoot sha256 entry = (.ok root, next) ∧
          next.entries = log.entries ++ [entry] ∧ next.merkleRoot sha256 = .ok root) ∧
    (∀ bytes, log.toCborBytes codec = .ok bytes → ∃ encoded,
      log.exportBase64 codec = .ok encoded ∧ importBase64 sha256 codec encoded = .ok log) := by
  have hsynced := synced_of_reached h
  obtain ⟨leaves, hleaves, hcovers⟩ := hsynced.covers
  refine ⟨⟨leaves, hleaves, ?_⟩, hsynced.leafCount_eq, hcovers.slot_iff, ?_, ?_⟩
  · rw [hsynced.merkleRoot_eq, hcovers.root_eq]
  · intro entry
    have hstep := hsynced.appendWithRoot_eq entry
    split
    · rename_i err herr
      rw [hstep, herr]
    · rename_i leaf hleaf
      rw [hleaf] at hstep
      exact ⟨_, _, hstep, rfl, (hsynced.appended hleaf).merkleRoot_eq⟩
  · intro bytes hbytes
    refine ⟨Base64.encode bytes, ?_, hsynced.importBase64_eq hcodec hbytes⟩
    rw [exportBase64, hbytes]
    rfl

end Reached

section Sample

def recoveryOf (user : UInt8) : CheckpointEntry := .recovery ⟨[user], [], 0⟩

/-- What is hashed for the leaf of an entry of the sample. -/
def recoveryInput (user : UInt8) : Bytes := [0, 162, 0, 1, 1, 163, 0, 65, user, 1, 64, 2, 0]

def firstLeaf : Bytes :=
  BigEndian.write 32 0x13c81bba171461bdd1bfa31f30fd9d72151c092a837a64bd1222f143ee17bfb3

def secondLeaf : Bytes :=
  BigEndian.write 32 0xe5c14705f766081b5ea2d41ddaa7480f07cefc46c07bf35bea90350c3f597449

def twoRoot : Bytes :=
  BigEndian.write 32 0x8b71d0e3fa0664f301b145c1a5e376467dbcdf7c57cf174ec92dcab9d9f2f9b8

/-- SHA-256 on the leaves of the sample and the node over them. -/
def twoHash : Bytes → Bytes :=
  Tabulated.padded [(recoveryInput 1, firstLeaf), (recoveryInput 2, secondLeaf),
    (0x01 :: (firstLeaf ++ secondLeaf), twoRoot)] 32

/-- The canonical bytes of the sample log. -/
def twoBytes : Bytes :=
  BigEndian.write 34 0xa167656e747269657382a1685265636f76657279a367757365725f69648101696973 ++
  BigEndian.write 34 0x737565645f6174006c7265636f766572795f6b657980a1685265636f76657279a367 ++
  BigEndian.write 34 0x757365725f69648102696973737565645f6174006c7265636f766572795f6b657980

/-- Serialization of a single list of entries. -/
def codecOf (entries : List CheckpointEntry) (bytes : Bytes) : LogCodec where
  encode known := if known = entries then .ok bytes else .error .cborNotCanonical
  decode found := if found = bytes then .ok entries else .error "unexpected"
  base64Error _ := "Invalid padding"

theorem roundTrips_codecOf (entries : List CheckpointEntry) (bytes : Bytes) :
    (codecOf entries bytes).RoundTrips := by
  intro known found h
  simp only [codecOf] at h ⊢
  split_ifs at h with hknown
  rw [← Except.ok.inj h, if_pos rfl, hknown]

def twoEntries : CheckpointLog :=
  ((new.append twoHash (recoveryOf 1)).2.append twoHash (recoveryOf 2)).2

theorem reached_twoEntries (codec : LogCodec) : Reached twoHash codec twoEntries :=
  .append _ (.append _ .new)

theorem entries_twoEntries : twoEntries.entries = [recoveryOf 1, recoveryOf 2] := by
  decide +kernel

theorem merkleRoot_incremental_two :
    twoEntries.merkleRoot twoHash = .ok twoRoot ∧
    importBase64 twoHash (codecOf twoEntries.entries twoBytes) (Base64.encode twoBytes) =
      .ok twoEntries := by
  have hleaves : [recoveryOf 1, recoveryOf 2].mapM (leafHash twoHash) =
      .ok [firstLeaf, secondLeaf] := by decide
  obtain ⟨⟨leaves, hmap, hroot⟩, -, -, -, hexport⟩ :=
    merkleRoot_incremental (roundTrips_codecOf twoEntries.entries twoBytes) (reached_twoEntries _)
  have hbytes : twoEntries.toCborBytes (codecOf twoEntries.entries twoBytes) = .ok twoBytes := by
    simp [toCborBytes, codecOf]
  obtain ⟨encoded, hencoded, himport⟩ := hexport twoBytes hbytes
  rw [exportBase64, hbytes] at hencoded
  rw [entries_twoEntries, hleaves] at hmap
  rw [← Except.ok.inj hmap] at hroot
  exact ⟨hroot, Except.ok.inj hencoded ▸ himport⟩

end Sample

end CheckpointLog

end Spex
