import Spex.CheckpointLog
import Spex.ClientState
import Spex.LogConsistency
import Spex.LogImport
import Spex.Transcript

/-!
# Revocations in the checkpoint log

The commands that write the log of the local state: key checkpoints, recovery keys,
revocations with their checks, and rotations of the identity, which revoke the key
they replace without the checks.
-/
namespace Spex
open Fallible

/-- The identity with its device. -/
structure DeviceIdentity extends LocalIdentity where
  deviceIdHex : String
  deviceNonceHex : String
  deriving DecidableEq, Repr

structure KeyRotationState where
  rotatedAt : UInt64
  oldVerifyingKeyHex : String
  newVerifyingKeyHex : String
  deriving DecidableEq, Repr

structure IdentityRotationOutcome where
  oldVerifyingKeyHex : String
  newIdentity : DeviceIdentity
  deriving DecidableEq, Repr

/-- The part of the local state that the commands of the log use. -/
structure LogState where
  identity : Option DeviceIdentity := none
  logBase64 : String := ""
  keyRotations : List KeyRotationState := []

def logFault (err : SpexError) : Fault ClientError := .returned (.log err.message)

section History
variable (sha256 : Bytes → Bytes) (userId hash : Bytes)

def CheckpointEntry.issues : CheckpointEntry → Bool
  | .key issued => issued.userId = userId && hashBytes sha256 .sha256 issued.verifyingKey = hash
  | _ => false

def CheckpointEntry.revokes : CheckpointEntry → Bool
  | .revocation existing => existing.userId = userId && existing.revokedKeyHash = hash
  | _ => false

def CheckpointEntry.recovers (now recoveryMaxAgeSeconds : UInt64) : CheckpointEntry → Bool
  | .recovery kept => kept.userId = userId &&
      hashBytes sha256 .sha256 kept.recoveryKey = hash &&
      now.toNat - kept.issuedAt.toNat ≤ recoveryMaxAgeSeconds.toNat
  | _ => false

def keyWasIssued (entries : List CheckpointEntry) : Bool :=
  entries.any (·.issues sha256 userId hash)

def alreadyRevoked (entries : List CheckpointEntry) : Bool := entries.any (·.revokes userId hash)

end History

section Commands
variable (sha256 : Bytes → Bytes)

/-- Whether a recovery key that the declaration names is missing or too old. -/
def recoveryRefused (entries : List CheckpointEntry) (entry : RevocationDeclaration)
    (recoveryMaxAgeSeconds now : UInt64) : Bool :=
  match entry.recoveryKeyHash with
  | some recoveryHash =>
    !entries.any (·.recovers sha256 entry.userId recoveryHash now recoveryMaxAgeSeconds)
  | none => false

/-- Only the user's own issued key, and only once. -/
def appendRevocationEntryChecked (log : CheckpointLog) (identity : DeviceIdentity)
    (entry : RevocationDeclaration) (recoveryMaxAgeSeconds now : UInt64) :
    ClientResult Bool × CheckpointLog :=
  match hexDecode identity.userIdHex with
  | .error fault => (.error fault, log)
  | .ok identityUserId =>
    if entry.userId ≠ identityUserId then (.error (.returned .permissionDenied), log)
    else if !keyWasIssued sha256 entry.userId entry.revokedKeyHash log.entries then
      (.error (.returned .revokedKeyNotFound), log)
    else if alreadyRevoked entry.userId entry.revokedKeyHash log.entries then (.ok false, log)
    else if recoveryRefused sha256 log.entries entry recoveryMaxAgeSeconds now then
      (.error (.returned .recoveryKeyInvalidOrExpired), log)
    else
      match log.append sha256 (.revocation entry) with
      | (.error err, log) => (.error (logFault err), log)
      | (.ok (), log) => (.ok true, log)

variable (codec : LogCodec)

def loadCheckpointLog (state : LogState) : ClientResult CheckpointLog :=
  if state.logBase64 = "" then .ok .new
  else (CheckpointLog.importBase64 sha256 codec state.logBase64).mapError logFault

/-- The log is kept as text. -/
def saveCheckpointLog (state : LogState) (log : CheckpointLog) : ClientResult LogState := do
  let encoded ← (log.exportBase64 codec).mapError logFault
  return { state with logBase64 := encoded }

def appendEntry (log : CheckpointLog) (entry : CheckpointEntry) : ClientResult CheckpointLog :=
  (settled (log.append sha256 entry)).mapError logFault

/-- `log append-checkpoint` and `log create-recovery-key`, for an entry at hand. -/
def appendToLog (state : LogState) (entry : CheckpointEntry) : ClientResult LogState := do
  let log ← loadCheckpointLog sha256 codec state
  let log ← appendEntry sha256 log entry
  saveCheckpointLog codec state log

/-- `log revoke-key`: the log is saved only if it has changed. -/
def revokeKey (state : LogState) (identity : DeviceIdentity) (entry : RevocationDeclaration)
    (recoveryMaxAgeSeconds now : UInt64) : ClientResult LogState := do
  let log ← loadCheckpointLog sha256 codec state
  let outcome := appendRevocationEntryChecked sha256 log identity entry recoveryMaxAgeSeconds now
  let changed ← outcome.1
  if changed then saveCheckpointLog codec state outcome.2 else return state

/-- The new keys come from a random seed, the device nonce is random too. -/
def rotateIdentity (verifyingKey : Bytes → Bytes) (seed deviceNonce : Bytes)
    (identity : DeviceIdentity) : DeviceIdentity :=
  { identity with
    signingKeyHex := Hex.encode seed
    verifyingKeyHex := Hex.encode (verifyingKey seed)
    deviceNonceHex := Hex.encode deviceNonce }

/-- What a rotation appends to the log. -/
def rotationEntries (userId oldKey newKey deviceId : Bytes) (revokedAt issuedAt : UInt64) :
    List CheckpointEntry :=
  [.revocation ⟨userId, hashBytes sha256 .sha256 oldKey, revokedAt, none, some "key rotation"⟩,
    .key ⟨userId, newKey, deviceId, issuedAt⟩]

/-- The old key is revoked and the new one issued, without checks. -/
def appendRotationCheckpoint (state : LogState) (identity : DeviceIdentity)
    (oldVerifyingKeyHex : String) (revokedAt issuedAt : UInt64) : ClientResult LogState := do
  let revokedKey ← hexDecode oldVerifyingKeyHex
  let userId ← hexDecode identity.userIdHex
  let verifyingKey ← hexDecode identity.verifyingKeyHex
  let deviceId ← hexDecode identity.deviceIdHex
  let log ← loadCheckpointLog sha256 codec state
  let log ← (rotationEntries sha256 userId revokedKey verifyingKey deviceId revokedAt
    issuedAt).foldlM (appendEntry sha256) log
  saveCheckpointLog codec state log

/-- The state with the new keys and a record of the rotation. -/
def LogState.rotating (state : LogState) (rotated : DeviceIdentity) (rotation : KeyRotationState) :
    LogState :=
  { state with identity := some rotated, keyRotations := state.keyRotations ++ [rotation] }

/-- The identity and the list of rotations are changed before the log is, and stay
changed if the log cannot be. -/
def rotateIdentityInState (verifyingKey : Bytes → Bytes) (state : LogState)
    (seed deviceNonce : Bytes) (rotatedAt revokedAt issuedAt : UInt64) :
    ClientResult IdentityRotationOutcome × LogState :=
  match state.identity with
  | none => (.error (.returned .missingIdentity), state)
  | some identity =>
    let oldVerifyingKeyHex := identity.verifyingKeyHex
    let rotated := rotateIdentity verifyingKey seed deviceNonce identity
    let state := state.rotating rotated ⟨rotatedAt, oldVerifyingKeyHex, rotated.verifyingKeyHex⟩
    match appendRotationCheckpoint sha256 codec state rotated oldVerifyingKeyHex revokedAt
      issuedAt with
    | .error fault => (.error fault, state)
    | .ok state => (.ok ⟨oldVerifyingKeyHex, rotated⟩, state)

/-- What a user can do with an identity and its log. -/
inductive LogCommand where
  | createIdentity (identity : DeviceIdentity)
  | appendCheckpoint (entry : KeyCheckpoint)
  | createRecoveryKey (entry : RecoveryKey)
  | revokeKey (identity : DeviceIdentity) (entry : RevocationDeclaration)
      (recoveryMaxAgeSeconds now : UInt64)
  | rotateIdentity (seed deviceNonce : Bytes) (rotatedAt revokedAt issuedAt : UInt64)

/-- The state that a command leaves behind, which is the one before it if it fails. -/
def keptOnError (state : LogState) (result : ClientResult LogState) :
    ClientResult Unit × LogState :=
  match result with
  | .error fault => (.error fault, state)
  | .ok next => (.ok (), next)

def runCommand (verifyingKey : Bytes → Bytes) (state : LogState) :
    LogCommand → ClientResult Unit × LogState
  | .createIdentity identity => (.ok (), { state with identity := some identity })
  | .appendCheckpoint entry => keptOnError state (appendToLog sha256 codec state (.key entry))
  | .createRecoveryKey entry =>
    keptOnError state (appendToLog sha256 codec state (.recovery entry))
  | .revokeKey identity entry recoveryMaxAgeSeconds now =>
    keptOnError state (revokeKey sha256 codec state identity entry recoveryMaxAgeSeconds now)
  | .rotateIdentity seed deviceNonce rotatedAt revokedAt issuedAt =>
    let rotated := rotateIdentityInState sha256 codec verifyingKey state seed deviceNonce rotatedAt
      revokedAt issuedAt
    (rotated.1.map fun _ => (), rotated.2)

end Commands

section Orderly
variable {sha256 : Bytes → Bytes} {entries : List CheckpointEntry}

/-- Every key is revoked at most once, and after it was issued. -/
structure Orderly (sha256 : Bytes → Bytes) (entries : List CheckpointEntry) : Prop where
  once : ∀ userId hash, entries.countP (·.revokes userId hash) ≤ 1
  issued : ∀ before entry after, entries = before ++ .revocation entry :: after →
    keyWasIssued sha256 entry.userId entry.revokedKeyHash before = true

/-- A revocation fits a history with the key and without its revocation. -/
def Admits (sha256 : Bytes → Bytes) (entries : List CheckpointEntry) : CheckpointEntry → Prop
  | .revocation entry => keyWasIssued sha256 entry.userId entry.revokedKeyHash entries = true ∧
      alreadyRevoked entry.userId entry.revokedKeyHash entries = false
  | _ => True

theorem countP_revokes_eq_zero {userId hash : Bytes}
    (h : alreadyRevoked userId hash entries = false) :
    entries.countP (·.revokes userId hash) = 0 := by
  rw [List.countP_eq_zero]
  exact fun entry hentry => by simpa using List.any_eq_false.mp h entry hentry

theorem orderly_nil : Orderly sha256 [] := ⟨by simp, by simp⟩

theorem Orderly.append {entry : CheckpointEntry} (h : Orderly sha256 entries)
    (hentry : Admits sha256 entries entry) : Orderly sha256 (entries ++ [entry]) := by
  constructor
  · intro userId hash
    rw [List.countP_append, List.countP_singleton]
    split_ifs with hrevokes
    · cases entry with
      | key key => simp [CheckpointEntry.revokes] at hrevokes
      | recovery recovery => simp [CheckpointEntry.revokes] at hrevokes
      | revocation declaration =>
        obtain ⟨rfl, rfl⟩ : declaration.userId = userId ∧ declaration.revokedKeyHash = hash := by
          simpa [CheckpointEntry.revokes] using hrevokes
        have hnone := countP_revokes_eq_zero hentry.2
        omega
    · exact h.once userId hash
  · intro before declaration after heq
    obtain rfl | ⟨after, last, rfl⟩ := List.eq_nil_or_concat after
    · obtain ⟨rfl, rfl⟩ := List.append_singleton_inj.mp heq
      exact hentry.1
    · rw [List.concat_eq_append, ← List.cons_append, ← List.append_assoc,
        List.append_singleton_inj] at heq
      exact h.issued before declaration after heq.1

end Orderly

section Steps
variable {sha256 : Bytes → Bytes} {codec : LogCodec} {state next : LogState}
  {log log' : CheckpointLog} {entry : CheckpointEntry} {entries : List CheckpointEntry}
  {identity : DeviceIdentity} {declaration : RevocationDeclaration} {recoveryMaxAgeSeconds : UInt64}

variable (sha256 codec) in
/-- The log of a state, if it can be read, is orderly. -/
def LogState.Orderly (state : LogState) : Prop :=
  ∀ log, loadCheckpointLog sha256 codec state = .ok log → Spex.Orderly sha256 log.entries

theorem synced_load (h : loadCheckpointLog sha256 codec state = .ok log) : log.Synced sha256 := by
  unfold loadCheckpointLog at h
  split_ifs at h with hempty
  · rw [← Except.ok.inj h]
    rfl
  · exact CheckpointLog.synced_importBase64 (mapError_eq_ok.mp h)

theorem appendEntry_eq_ok (hlog : log.Synced sha256)
    (h : appendEntry sha256 log entry = .ok log') :
    log'.Synced sha256 ∧ log'.entries = log.entries ++ [entry] := by
  have hsynced := hlog.appendWithRoot entry
  rw [appendEntry, mapError_eq_ok, settled, CheckpointLog.append, map_eq_ok] at h
  obtain ⟨_, happend, rfl⟩ := h
  obtain ⟨root, hroot, -⟩ := map_eq_ok.mp happend
  refine ⟨hsynced, ?_⟩
  rw [hlog.appendWithRoot_eq] at hroot ⊢
  cases hleaf : CheckpointLog.leafHash sha256 entry with
  | error err => simp [hleaf] at hroot
  | ok leaf => rfl

theorem extend_eq_ok (hlog : log.Synced sha256)
    (h : entries.foldlM (appendEntry sha256) log = .ok log') :
    log'.Synced sha256 ∧ log'.entries = log.entries ++ entries := by
  induction entries generalizing log with
  | nil =>
    obtain rfl := pure_eq_ok.mp h
    exact ⟨hlog, (List.append_nil _).symm⟩
  | cons entry entries ih =>
    obtain ⟨next, happend, h⟩ := bind_eq_ok.mp h
    obtain ⟨hsynced, hentries⟩ := appendEntry_eq_ok hlog happend
    obtain ⟨hsynced', hentries'⟩ := ih hsynced h
    exact ⟨hsynced', by rw [hentries', hentries, List.append_assoc, List.singleton_append]⟩

/-- An entry is appended exactly if it has a leaf hash. -/
theorem appendEntry_succeeds_iff (hlog : log.Synced sha256) :
    (∃ log', appendEntry sha256 log entry = .ok log') ↔
      (CheckpointLog.leafHash sha256 entry).isOk = true := by
  constructor
  · rintro ⟨log', h⟩
    rw [appendEntry, mapError_eq_ok, settled, CheckpointLog.append, hlog.appendWithRoot_eq] at h
    cases hleaf : CheckpointLog.leafHash sha256 entry with
    | error err =>
      simp [hleaf, Except.map] at h
    | ok leaf => rfl
  · intro hleaf
    rw [appendEntry, CheckpointLog.append, hlog.appendWithRoot_eq]
    cases hcase : CheckpointLog.leafHash sha256 entry with
    | error err =>
      rw [hcase] at hleaf
      cases hleaf
    | ok leaf => exact ⟨_, rfl⟩

/-- Entries are appended one after the other exactly if they all have leaf hashes. -/
theorem extend_succeeds_iff (hlog : log.Synced sha256) :
    (∃ log', entries.foldlM (appendEntry sha256) log = .ok log') ↔
      ∀ entry ∈ entries, (CheckpointLog.leafHash sha256 entry).isOk = true := by
  induction entries generalizing log with
  | nil => simp [pure_eq_ok]
  | cons entry entries ih =>
    rw [List.forall_mem_cons, ← appendEntry_succeeds_iff hlog]
    simp only [List.foldlM_cons, bind_eq_ok]
    constructor
    · rintro ⟨log', next, happend, h⟩
      exact ⟨⟨next, happend⟩, (ih (appendEntry_eq_ok hlog happend).1).mp ⟨log', h⟩⟩
    · rintro ⟨⟨next, happend⟩, h⟩
      obtain ⟨log', hrest⟩ := (ih (appendEntry_eq_ok hlog happend).1).mpr h
      exact ⟨log', next, happend, hrest⟩

theorem saveCheckpointLog_eq_ok : saveCheckpointLog codec state log = .ok next ↔
    ∃ bytes, codec.encode log.entries = .ok bytes ∧
      next = { state with logBase64 := Base64.encode bytes } := by
  unfold saveCheckpointLog CheckpointLog.exportBase64 CheckpointLog.toCborBytes
  cases codec.encode log.entries with
  | error err => simp [Except.mapError]
  | ok bytes => simp [Except.mapError, eq_comm]

variable (state) in
/-- A log that was written is the log that is loaded next. -/
theorem load_written (hcodec : codec.RoundTrips)
    (hnonempty : ∀ entries bytes, codec.encode entries = .ok bytes → bytes ≠ [])
    (hlog : log.Synced sha256) {bytes : Bytes} (hbytes : codec.encode log.entries = .ok bytes) :
    loadCheckpointLog sha256 codec { state with logBase64 := Base64.encode bytes } = .ok log := by
  have hne : Base64.encode bytes ≠ "" := by
    intro hempty
    have hdecode := Base64.decode_encode bytes
    rw [hempty] at hdecode
    exact hnonempty _ _ hbytes (Option.some.inj hdecode).symm
  rw [loadCheckpointLog, if_neg hne, hlog.importBase64_eq hcodec hbytes]
  rfl

theorem orderly_save (hcodec : codec.RoundTrips) (hlog : log.Synced sha256)
    (horderly : Orderly sha256 log.entries) (h : saveCheckpointLog codec state log = .ok next) :
    next.Orderly sha256 codec := by
  obtain ⟨bytes, hbytes, rfl⟩ := saveCheckpointLog_eq_ok.mp h
  intro loaded hloaded
  unfold loadCheckpointLog at hloaded
  split_ifs at hloaded with hempty
  · rw [← Except.ok.inj hloaded]
    exact orderly_nil
  · rw [mapError_eq_ok, hlog.importBase64_eq hcodec hbytes] at hloaded
    rw [← Except.ok.inj hloaded]
    exact horderly

theorem orderly_keptOnError {result : ClientResult LogState} (hstate : state.Orderly sha256 codec)
    (hnext : ∀ next, result = .ok next → next.Orderly sha256 codec) :
    (keptOnError state result).2.Orderly sha256 codec := by
  cases result with
  | error fault => exact hstate
  | ok next => exact hnext next rfl

theorem orderly_appendToLog (hcodec : codec.RoundTrips) (hstate : state.Orderly sha256 codec)
    (entry : CheckpointEntry) (hentry : ∀ entries, Admits sha256 entries entry)
    (h : appendToLog sha256 codec state entry = .ok next) : next.Orderly sha256 codec := by
  obtain ⟨log, hload, h⟩ := bind_eq_ok.mp h
  obtain ⟨log', happend, hsave⟩ := bind_eq_ok.mp h
  obtain ⟨hsynced, hentries⟩ := appendEntry_eq_ok (synced_load hload) happend
  refine orderly_save hcodec hsynced ?_ hsave
  rw [hentries]
  exact (hstate log hload).append (hentry log.entries)

/-- A checked revocation leaves the log alone, or appends a declaration that fits it. -/
theorem appendRevocationEntryChecked_cases (sha256 : Bytes → Bytes) (log : CheckpointLog)
    (identity : DeviceIdentity) (declaration : RevocationDeclaration)
    (recoveryMaxAgeSeconds now : UInt64) :
    let outcome := appendRevocationEntryChecked sha256 log identity declaration
      recoveryMaxAgeSeconds now
    outcome.1 ≠ .ok true ∧ outcome.2 = log ∨
      Admits sha256 log.entries (.revocation declaration) ∧
        (outcome.1 = .ok true ↔ (log.append sha256 (.revocation declaration)).1 = .ok ()) ∧
        outcome.2 = (log.append sha256 (.revocation declaration)).2 := by
  unfold appendRevocationEntryChecked
  cases hexDecode identity.userIdHex with
  | error fault => simp
  | ok identityUserId =>
    dsimp only
    split_ifs with huser hissued hrevoked hrecovery
    · simp
    · simp
    · simp
    · simp
    · refine .inr ⟨⟨by simpa using hissued, by simpa using hrevoked⟩, ?_⟩
      rcases log.append sha256 (.revocation declaration) with ⟨err | _, log'⟩
      · simp
      · simp

theorem entries_append_of_error (h : (log.append sha256 entry).1 ≠ .ok ()) :
    (log.append sha256 entry).2.entries = log.entries := by
  rw [← CheckpointLog.ensureMerkleState_entries sha256 log]
  unfold CheckpointLog.append CheckpointLog.appendWithRoot at h ⊢
  generalize log.ensureMerkleState sha256 = ensured at h ⊢
  rcases ensured with ⟨err | _, ensured⟩
  · rfl
  · cases hleaf : CheckpointLog.leafHash sha256 entry with
    | error err => rfl
    | ok leaf => simp [hleaf, Except.map] at h

theorem append_of_error (hlog : log.Synced sha256) (h : (log.append sha256 entry).1 ≠ .ok ()) :
    (log.append sha256 entry).2 = log := by
  rw [CheckpointLog.append, hlog.appendWithRoot_eq] at h ⊢
  cases hleaf : CheckpointLog.leafHash sha256 entry with
  | error err => rfl
  | ok leaf => simp [hleaf, Except.map] at h

/-- A checked revocation that fails or finds the key revoked changes nothing. -/
theorem appendRevocationEntryChecked_unchanged {now : UInt64}
    (h : (appendRevocationEntryChecked sha256 log identity declaration recoveryMaxAgeSeconds
      now).1 ≠ .ok true) : let log' := (appendRevocationEntryChecked sha256 log identity declaration
      recoveryMaxAgeSeconds now).2
    log'.entries = log.entries ∧ (log.Synced sha256 → log' = log) := by
  rcases appendRevocationEntryChecked_cases sha256 log identity declaration recoveryMaxAgeSeconds
    now with ⟨-, hlog⟩ | ⟨-, hiff, hlog⟩
  · exact ⟨congrArg _ hlog, fun _ => hlog⟩
  · dsimp only
    rw [hlog]
    exact ⟨entries_append_of_error (h ∘ hiff.mpr), fun hsynced =>
      append_of_error hsynced (h ∘ hiff.mpr)⟩

theorem orderly_revokeKey (hcodec : codec.RoundTrips) (hstate : state.Orderly sha256 codec)
    {now : UInt64}
    (h : revokeKey sha256 codec state identity declaration recoveryMaxAgeSeconds now = .ok next) :
    next.Orderly sha256 codec := by
  obtain ⟨log, hload, h⟩ := bind_eq_ok.mp h
  obtain ⟨changed, hchanged, h⟩ := bind_eq_ok.mp h
  cases changed with
  | false =>
    obtain rfl := pure_eq_ok.mp h
    exact hstate
  | true =>
    rcases appendRevocationEntryChecked_cases sha256 log identity declaration
      recoveryMaxAgeSeconds now with ⟨hfalse, -⟩ | ⟨hadmits, hiff, hlog⟩
    · exact absurd hchanged hfalse
    · have happend : appendEntry sha256 log (.revocation declaration) =
          .ok (log.append sha256 (.revocation declaration)).2 := by
        rw [appendEntry, settled, hiff.mp hchanged]
        rfl
      obtain ⟨hsynced, hentries⟩ := appendEntry_eq_ok (synced_load hload) happend
      rw [if_pos rfl, hlog] at h
      refine orderly_save hcodec hsynced ?_ h
      rw [hentries]
      exact (hstate log hload).append hadmits

variable (sha256 codec) in
/-- The key that a rotation would replace was issued and is not revoked yet. -/
def LogState.RotationDue (state : LogState) : Prop :=
  ∀ identity userId key log, state.identity = some identity →
    hexDecode identity.userIdHex = .ok userId → hexDecode identity.verifyingKeyHex = .ok key →
    loadCheckpointLog sha256 codec state = .ok log →
    keyWasIssued sha256 userId (hashBytes sha256 .sha256 key) log.entries = true ∧
      alreadyRevoked userId (hashBytes sha256 .sha256 key) log.entries = false

theorem orderly_rotateIdentityInState (hcodec : codec.RoundTrips)
    (hstate : state.Orderly sha256 codec) (hdue : state.RotationDue sha256 codec)
    (verifyingKey : Bytes → Bytes) (seed deviceNonce : Bytes)
    (rotatedAt revokedAt issuedAt : UInt64) :
    (rotateIdentityInState sha256 codec verifyingKey state seed deviceNonce rotatedAt revokedAt
      issuedAt).2.Orderly sha256 codec := by
  unfold rotateIdentityInState
  cases hidentity : state.identity with
  | none => exact hstate
  | some identity =>
    dsimp only
    split
    · exact hstate
    · rename_i next h
      obtain ⟨key, hkey, h⟩ := bind_eq_ok.mp h
      obtain ⟨userId, huser, h⟩ := bind_eq_ok.mp h
      obtain ⟨newKey, -, h⟩ := bind_eq_ok.mp h
      obtain ⟨deviceId, -, h⟩ := bind_eq_ok.mp h
      obtain ⟨log, hload, h⟩ := bind_eq_ok.mp h
      obtain ⟨rotated, hrotated, hsave⟩ := bind_eq_ok.mp h
      obtain ⟨hsynced, hentries⟩ := extend_eq_ok (synced_load hload) hrotated
      refine orderly_save hcodec hsynced ?_ hsave
      have hfits : Admits sha256 log.entries (.revocation ⟨userId, hashBytes sha256 .sha256 key,
          revokedAt, none, some "key rotation"⟩) :=
        hdue identity userId key log hidentity huser hkey hload
      rw [hentries, rotationEntries, List.append_cons]
      exact ((hstate log hload).append hfits).append trivial

variable (sha256 codec) in
/-- Rotations are due, the other commands need nothing. -/
def LogCommand.Due (state : LogState) : LogCommand → Prop
  | .rotateIdentity .. => state.RotationDue sha256 codec
  | _ => True

theorem orderly_runCommand (hcodec : codec.RoundTrips) (verifyingKey : Bytes → Bytes)
    (command : LogCommand) (hdue : command.Due sha256 codec state)
    (hstate : state.Orderly sha256 codec) :
    (runCommand sha256 codec verifyingKey state command).2.Orderly sha256 codec := by
  cases command with
  | createIdentity identity => exact hstate
  | appendCheckpoint entry =>
    exact orderly_keptOnError hstate fun next h =>
      orderly_appendToLog hcodec hstate (.key entry) (fun _ => trivial) h
  | createRecoveryKey entry =>
    exact orderly_keptOnError hstate fun next h =>
      orderly_appendToLog hcodec hstate (.recovery entry) (fun _ => trivial) h
  | revokeKey identity entry recoveryMaxAgeSeconds now =>
    exact orderly_keptOnError hstate fun next h => orderly_revokeKey hcodec hstate h
  | rotateIdentity seed deviceNonce rotatedAt revokedAt issuedAt =>
    exact orderly_rotateIdentityInState hcodec hstate hdue verifyingKey seed deviceNonce rotatedAt
      revokedAt issuedAt

theorem orderly_empty : LogState.Orderly sha256 codec {} := by
  intro log h
  rw [← Except.ok.inj h]
  exact orderly_nil

/-- As long as every rotation replaces a key that is in the log and not revoked, all
logs are orderly. A checked revocation changes the log only if it says so. -/
theorem revocations_orderly (hcodec : codec.RoundTrips) (verifyingKey : Bytes → Bytes)
    (commands : List LogCommand)
    (hdue : ∀ turn ∈ Transcript.transcript (runCommand sha256 codec verifyingKey) {} commands,
      turn.input.Due sha256 codec turn.before) :
    (Transcript.final (runCommand sha256 codec verifyingKey) {} commands).Orderly sha256 codec ∧
    ∀ log identity declaration recoveryMaxAgeSeconds now,
      let outcome := appendRevocationEntryChecked sha256 log identity declaration
        recoveryMaxAgeSeconds now
      outcome.1 ≠ .ok true → outcome.2.entries = log.entries ∧
        (CheckpointLog.Reached sha256 codec log → outcome.2 = log) := by
  constructor
  · refine (Transcript.invariant (LogState.Orderly sha256 codec) orderly_empty ?_).2
    intro turn hturn hbefore
    rw [Transcript.after_eq hturn]
    exact orderly_runCommand hcodec verifyingKey turn.input (hdue turn hturn) hbefore
  · intro log identity declaration recoveryMaxAgeSeconds now outcome houtcome
    have hunchanged := appendRevocationEntryChecked_unchanged houtcome
    exact ⟨hunchanged.1, fun hreached => hunchanged.2 (CheckpointLog.synced_of_reached hreached)⟩

end Steps

section Sample
open Transcript
open CheckpointLog (leafHash encodeEntry)

/-- The verifying keys of Ed25519 for the seeds of twos and of threes. -/
def oldKey : Bytes :=
  BigEndian.write 32 0x8139770ea87d175f56a35466c34c7ecccb8d8a91b4ee37a25df60f5b8fc9b394

def newKey : Bytes :=
  BigEndian.write 32 0xed4928c628d1c2c6eae90338905995612959273a5c63f93636c14614ac8737d1

def ownVerifyingKey : Bytes → Bytes :=
  Tabulated.tabulated [(List.replicate 32 2, oldKey), (List.replicate 32 3, newKey)]

def ownIdentity : DeviceIdentity where
  userIdHex := "01"
  signingKeyHex := Hex.encode (List.replicate 32 2)
  verifyingKeyHex := Hex.encode oldKey
  deviceIdHex := "04"
  deviceNonceHex := "05"

def ownKey (key : Bytes) : CheckpointEntry := .key ⟨[1], key, [4], 0⟩

def oldKeyHash : Bytes :=
  BigEndian.write 32 0x6a3803d5f059902a1c6dafbc9ba4729212f7caac08634cc3ae76b27529f03827

def rotationRevocation : CheckpointEntry :=
  .revocation ⟨[1], oldKeyHash, 0, none, some "key rotation"⟩

/-- The leaf hashes of the old key, its revocation and the new key. -/
def ownLeaves : List Bytes :=
  [BigEndian.write 32 0xca4057a34a5a27617fb053bfc97fa8ff51aeca4d729f194071ece8d7904ae7f4,
   BigEndian.write 32 0xc0cdeed8d7673e24ab5d78daeb653ab6845e12c321eba5b881f7553ce819fc99,
   BigEndian.write 32 0xc5c1d90769966db1ec3cefda20897af63d46588f68f37e5bab6f6098f223af5e]

/-- SHA-256 on what is hashed for the sample. -/
def ownHash : Bytes → Bytes :=
  let leafInput (entry : CheckpointEntry) := 0x00 :: (encodeEntry entry).toOption.getD []
  Tabulated.tabulated ((oldKey, oldKeyHash) ::
    ([ownKey oldKey, rotationRevocation, ownKey newKey].map leafInput).zip ownLeaves ++
    [(0x01 :: (ownLeaves.take 2).flatten,
      BigEndian.write 32 0xa69621ed2a53df3cf442c785bc7d5fc3c650441f610e58ba967eced2de8e3ed6),
     (0x01 :: (ownLeaves.drop 1).flatten,
      BigEndian.write 32 0x06424af4d85c704ff95a73fdef4addd14c4bcd2e0b19c96256e31f00bb1b7376)])

def runOwn : LogState → LogCommand → ClientResult Unit × LogState :=
  runCommand ownHash readerLibrary.codec ownVerifyingKey

def createdOwn : LogState where
  identity := some ownIdentity

def issueOwn : LogCommand := .appendCheckpoint ⟨[1], oldKey, [4], 0⟩

def rotateOwn : LogCommand := .rotateIdentity (List.replicate 32 3) [] 0 0 0

theorem extended_own {state : LogState} {log : CheckpointLog} {entries : List CheckpointEntry}
    (hload : loadCheckpointLog ownHash readerLibrary.codec state = .ok log)
    (hleaf : ∀ entry ∈ entries, (leafHash ownHash entry).isOk = true)
    (hencodes : (readerLibrary.codec.encode (log.entries ++ entries)).isOk = true) :
    ∃ log' next, entries.foldlM (appendEntry ownHash) log = .ok log' ∧
      log'.entries = log.entries ++ entries ∧
      saveCheckpointLog readerLibrary.codec state log' = .ok next ∧
      next.identity = state.identity ∧
      loadCheckpointLog ownHash readerLibrary.codec next = .ok log' := by
  obtain ⟨log', hextend⟩ := (extend_succeeds_iff (synced_load hload)).mpr hleaf
  obtain ⟨hsynced, hentries⟩ := extend_eq_ok (synced_load hload) hextend
  obtain ⟨bytes, hbytes⟩ := isOk_iff.mp hencodes
  rw [← hentries] at hbytes
  exact ⟨log', _, hextend, hentries, saveCheckpointLog_eq_ok.mpr ⟨bytes, hbytes, rfl⟩, rfl,
    load_written state roundTrips_readerLibrary nonempty_readerLibrary hsynced hbytes⟩

theorem issuedOwn_loads : (runOwn createdOwn issueOwn).2.identity = some ownIdentity ∧
    ∃ log, loadCheckpointLog ownHash readerLibrary.codec (runOwn createdOwn issueOwn).2 = .ok log ∧
      log.entries = [ownKey oldKey] := by
  have hload : loadCheckpointLog ownHash readerLibrary.codec createdOwn = .ok .new := rfl
  have hleaf : ∀ entry ∈ [ownKey oldKey], (leafHash ownHash entry).isOk = true := by
    decide +kernel
  obtain ⟨log, next, hextend, hentries, hsave, hidentity, hnext⟩ :=
    extended_own hload hleaf (by decide +kernel)
  obtain ⟨_, happend, hextend⟩ := bind_eq_ok.mp hextend
  obtain rfl := pure_eq_ok.mp hextend
  have hissued : appendToLog ownHash readerLibrary.codec createdOwn (ownKey oldKey) = .ok next := by
    rw [appendToLog, hload, ok_bind, happend, ok_bind, hsave]
  have hrun (state : LogState) : runOwn state issueOwn =
      keptOnError state (appendToLog ownHash readerLibrary.codec state (ownKey oldKey)) := rfl
  rw [hrun, hissued]
  exact ⟨hidentity, _, hnext, hentries⟩

/-- Rotating the key of the sample identity appends its revocation and the new key. -/
theorem rotateOwn_loads {state : LogState} {log : CheckpointLog}
    (hidentity : state.identity = some ownIdentity)
    (hload : loadCheckpointLog ownHash readerLibrary.codec state = .ok log)
    (hentries : log.entries = [] ∨ log.entries = [ownKey oldKey]) :
    ∃ log', loadCheckpointLog ownHash readerLibrary.codec (runOwn state rotateOwn).2 = .ok log' ∧
      log'.entries = log.entries ++ [rotationRevocation, ownKey newKey] := by
  let keys := rotateIdentity ownVerifyingKey (List.replicate 32 3) [] ownIdentity
  let begun := state.rotating keys ⟨0, ownIdentity.verifyingKeyHex, keys.verifyingKeyHex⟩
  have hbegun : loadCheckpointLog ownHash readerLibrary.codec begun = .ok log := hload
  have hleaf : ∀ entry ∈ [rotationRevocation, ownKey newKey],
      (leafHash ownHash entry).isOk = true := by
    decide +kernel
  have hencodes : (readerLibrary.codec.encode
      (log.entries ++ [rotationRevocation, ownKey newKey])).isOk = true := by
    rcases hentries with hnone | hone
    · rw [hnone]
      decide +kernel
    · rw [hone]
      decide +kernel
  obtain ⟨log', next, hextend, hentries, hsave, -, hnext⟩ := extended_own hbegun hleaf hencodes
  have hold : hexDecode ownIdentity.verifyingKeyHex = .ok oldKey :=
    hexDecode_eq_ok.mpr (Hex.decode_encode _)
  have hnew : hexDecode keys.verifyingKeyHex = .ok newKey :=
    hexDecode_eq_ok.mpr (Hex.decode_encode _)
  have huser : hexDecode keys.userIdHex = .ok [1] := by decide
  have hdevice : hexDecode keys.deviceIdHex = .ok [4] := by decide
  have hrevoked : rotationEntries ownHash [1] oldKey newKey [4] 0 0 =
      [rotationRevocation, ownKey newKey] := by
    have hhash : hashBytes ownHash .sha256 oldKey = oldKeyHash := by decide +kernel
    rw [rotationEntries, hhash]
    rfl
  have happend : appendRotationCheckpoint ownHash readerLibrary.codec begun keys
      ownIdentity.verifyingKeyHex 0 0 = .ok next := by
    unfold appendRotationCheckpoint
    rw [hold, ok_bind, huser, ok_bind, hnew, ok_bind, hdevice, ok_bind, hbegun, ok_bind, hrevoked]
    exact bind_eq_ok.mpr ⟨log', hextend, hsave⟩
  refine ⟨log', ?_, hentries⟩
  simp only [runOwn, rotateOwn, runCommand, rotateIdentityInState, hidentity]
  rw [happend]
  exact hnext

theorem rotationDue_issuedOwn :
    (runOwn createdOwn issueOwn).2.RotationDue ownHash readerLibrary.codec := by
  obtain ⟨hown, log, hload, hentries⟩ := issuedOwn_loads
  intro identity userId key log' hidentity huser hkey hload'
  obtain rfl : ownIdentity = identity := Option.some.inj (hown.symm.trans hidentity)
  obtain rfl : log = log' := Except.ok.inj (hload.symm.trans hload')
  obtain rfl : [1] = userId :=
    Except.ok.inj ((show hexDecode "01" = .ok [1] by decide).symm.trans huser)
  obtain rfl : oldKey = key :=
    Except.ok.inj ((hexDecode_eq_ok.mpr (Hex.decode_encode _)).symm.trans hkey)
  rw [hentries]
  decide +kernel

theorem final_createdOwn (commands : List LogCommand) :
    final runOwn {} (.createIdentity ownIdentity :: commands) =
      final runOwn createdOwn commands := rfl

theorem revocations_orderly_rotated : ∃ log,
    loadCheckpointLog ownHash readerLibrary.codec (final runOwn {}
      [.createIdentity ownIdentity, issueOwn, rotateOwn]) = .ok log ∧
    log.entries = [ownKey oldKey, rotationRevocation, ownKey newKey] ∧
    Orderly ownHash log.entries := by
  obtain ⟨hown, issued, hissued, hkey⟩ := issuedOwn_loads
  obtain ⟨log, hload, hentries⟩ := rotateOwn_loads hown hissued (.inr hkey)
  rw [hkey] at hentries
  have hdue : ∀ turn ∈ transcript runOwn {} [.createIdentity ownIdentity, issueOwn,
      rotateOwn], turn.input.Due ownHash readerLibrary.codec turn.before := by
    have hcreated : (runOwn {} (.createIdentity ownIdentity)).2 = createdOwn := rfl
    have hrotate (state : LogState) (h : state.RotationDue ownHash readerLibrary.codec) :
        rotateOwn.Due ownHash readerLibrary.codec state := h
    intro turn hturn
    rw [transcript_cons, hcreated, transcript_cons,
      transcript_cons, transcript_nil] at hturn
    simp only [List.mem_cons, List.not_mem_nil, or_false] at hturn
    rcases hturn with rfl | rfl | rfl
    · exact True.intro
    · exact True.intro
    · dsimp only
      exact hrotate _ rotationDue_issuedOwn
  have horderly : (final runOwn {} _).Orderly ownHash readerLibrary.codec :=
    (revocations_orderly roundTrips_readerLibrary ownVerifyingKey _ hdue).1
  rw [final_createdOwn, final_cons, final_cons, final_nil] at horderly ⊢
  exact ⟨log, hload, hentries, horderly log hload⟩

/-- A rotation revokes a key that was never put into the log. -/
theorem rotation_revokes_unissued : ¬ (final runOwn {}
    [.createIdentity ownIdentity, rotateOwn]).Orderly ownHash readerLibrary.codec := by
  rw [final_createdOwn, final_cons, final_nil]
  intro horderly
  obtain ⟨log, hload, hentries⟩ := rotateOwn_loads
    (show createdOwn.identity = some ownIdentity from rfl)
    (show loadCheckpointLog ownHash readerLibrary.codec createdOwn = .ok .new from rfl)
    (.inl rfl)
  have hissued := (horderly log hload).issued [] _ [ownKey newKey] hentries
  exact absurd hissued (by decide)

end Sample

end Spex
