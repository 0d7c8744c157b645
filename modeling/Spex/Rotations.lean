import Spex.Batch
import Spex.Revocations

/-!
# Failed rotations

A rotation puts the new keys into the identity and notes the rotation before it writes
the log. If the log cannot be written, because a stored text does not decode or the log
cannot be read, the new keys stay and the old signing key is gone. A rotation that
succeeds appends the revocation of the old key and the checkpoint of the new one.
-/
namespace Spex
open Fallible

section Rotation
variable (sha256 : Bytes → Bytes) (codec : LogCodec)

/-- The texts of the identity decode, the log can be read, and its entries can be encoded
together with those of the rotation. -/
def LogState.Rotatable (state : LogState) (identity : DeviceIdentity) (newKey : Bytes)
    (revokedAt issuedAt : UInt64) : Prop :=
  ∃ oldKey userId deviceId log, Hex.decode identity.verifyingKeyHex = some oldKey ∧
    Hex.decode identity.userIdHex = some userId ∧ Hex.decode identity.deviceIdHex = some deviceId ∧
    loadCheckpointLog sha256 codec state = .ok log ∧
    let entries := rotationEntries sha256 userId oldKey newKey deviceId revokedAt issuedAt
    (∀ entry ∈ entries, (CheckpointLog.leafHash sha256 entry).isOk = true) ∧
      (codec.encode (log.entries ++ entries)).isOk = true

/-- The identity has the new key, one rotation was noted, and the log has grown by the
entries of the rotation. -/
def LogState.RotatedTo (state next : LogState) (newKey : Bytes) (revokedAt issuedAt : UInt64) :
    Prop :=
  ∃ identity rotated rotation oldKey userId deviceId log log',
    state.identity = some identity ∧ next.identity = some rotated ∧
    rotated.verifyingKeyHex = Hex.encode newKey ∧
    next.keyRotations = state.keyRotations ++ [rotation] ∧
    Hex.decode identity.verifyingKeyHex = some oldKey ∧
    Hex.decode identity.userIdHex = some userId ∧ Hex.decode identity.deviceIdHex = some deviceId ∧
    loadCheckpointLog sha256 codec state = .ok log ∧
    loadCheckpointLog sha256 codec next = .ok log' ∧
    log'.entries = log.entries ++
      rotationEntries sha256 userId oldKey newKey deviceId revokedAt issuedAt

variable {sha256 codec} {state next : LogState} {identity : DeviceIdentity}

/-- The log of a rotation can be written exactly if the texts decode, the log can be read,
and everything can be encoded. -/
theorem appendRotationCheckpoint_eq_ok {oldVerifyingKeyHex : String} {revokedAt issuedAt : UInt64} :
    appendRotationCheckpoint sha256 codec state identity oldVerifyingKeyHex revokedAt issuedAt =
        .ok next ↔
      ∃ oldKey userId newKey deviceId log bytes, Hex.decode oldVerifyingKeyHex = some oldKey ∧
        Hex.decode identity.userIdHex = some userId ∧
        Hex.decode identity.verifyingKeyHex = some newKey ∧
        Hex.decode identity.deviceIdHex = some deviceId ∧
        loadCheckpointLog sha256 codec state = .ok log ∧
        let entries := rotationEntries sha256 userId oldKey newKey deviceId revokedAt issuedAt
        (∀ entry ∈ entries, (CheckpointLog.leafHash sha256 entry).isOk = true) ∧
          codec.encode (log.entries ++ entries) = .ok bytes ∧
          next = { state with logBase64 := Base64.encode bytes } := by
  unfold appendRotationCheckpoint
  simp only [bind_eq_ok, hexDecode_eq_ok, saveCheckpointLog_eq_ok]
  constructor
  · rintro ⟨oldKey, hold, userId, huser, newKey, hnew, deviceId, hdevice, log, hload, log', hextend,
      bytes, hbytes, hnext⟩
    rw [(extend_eq_ok (synced_load hload) hextend).2] at hbytes
    exact ⟨oldKey, userId, newKey, deviceId, log, bytes, hold, huser, hnew, hdevice, hload,
      (extend_succeeds_iff (synced_load hload)).mp ⟨log', hextend⟩, hbytes, hnext⟩
  · rintro ⟨oldKey, userId, newKey, deviceId, log, bytes, hold, huser, hnew, hdevice, hload, hleaf,
      hbytes, hnext⟩
    obtain ⟨log', hextend⟩ := (extend_succeeds_iff (synced_load hload)).mpr hleaf
    rw [← (extend_eq_ok (synced_load hload) hextend).2] at hbytes
    exact ⟨oldKey, hold, userId, huser, newKey, hnew, deviceId, hdevice, log, hload, log', hextend,
      bytes, hbytes, hnext⟩

variable (verifyingKey : Bytes → Bytes) (seed deviceNonce : Bytes)
  (rotatedAt revokedAt issuedAt : UInt64)

/-- The state of a rotation before its log is written. -/
def LogState.begun (state : LogState) (identity : DeviceIdentity) : LogState :=
  let rotated := rotateIdentity verifyingKey seed deviceNonce identity
  state.rotating rotated ⟨rotatedAt, identity.verifyingKeyHex, rotated.verifyingKeyHex⟩

variable (sha256 codec) in
theorem rotateIdentityInState_of_identity (hidentity : state.identity = some identity) :
    rotateIdentityInState sha256 codec verifyingKey state seed deviceNonce rotatedAt revokedAt
      issuedAt =
    let rotated := rotateIdentity verifyingKey seed deviceNonce identity
    let begun := state.begun verifyingKey seed deviceNonce rotatedAt identity
    match appendRotationCheckpoint sha256 codec begun rotated identity.verifyingKeyHex revokedAt
      issuedAt with
    | .error fault => (.error fault, begun)
    | .ok next => (.ok ⟨identity.verifyingKeyHex, rotated⟩, next) := by
  unfold rotateIdentityInState
  rw [hidentity]
  rfl

variable (state) in
theorem begun_ne (identity : DeviceIdentity) :
    state.begun verifyingKey seed deviceNonce rotatedAt identity ≠ state := by
  intro h
  have hlength := congrArg (fun s => s.keyRotations.length) h
  simp [LogState.begun, LogState.rotating] at hlength

variable (sha256 codec state) in
theorem rotation_writes_iff (identity : DeviceIdentity) :
    (∃ next, appendRotationCheckpoint sha256 codec
      (state.begun verifyingKey seed deviceNonce rotatedAt identity)
      (rotateIdentity verifyingKey seed deviceNonce identity) identity.verifyingKeyHex revokedAt
      issuedAt = .ok next) ↔
    state.Rotatable sha256 codec identity (verifyingKey seed) revokedAt issuedAt := by
  simp only [appendRotationCheckpoint_eq_ok]
  constructor
  · rintro ⟨next, oldKey, userId, newKey, deviceId, log, bytes, hold, huser, hnew, hdevice, hload,
      hleaf, hbytes, -⟩
    obtain rfl := Option.some.inj ((Hex.decode_encode _).symm.trans hnew)
    exact ⟨oldKey, userId, deviceId, log, hold, huser, hdevice, hload, hleaf,
      isOk_iff.mpr ⟨bytes, hbytes⟩⟩
  · rintro ⟨oldKey, userId, deviceId, log, hold, huser, hdevice, hload, hleaf, hencode⟩
    obtain ⟨bytes, hbytes⟩ := isOk_iff.mp hencode
    exact ⟨_, oldKey, userId, verifyingKey seed, deviceId, log, bytes, hold, huser,
      Hex.decode_encode _, hdevice, hload, hleaf, hbytes, rfl⟩

/-- A written rotation is in the log that is loaded next. -/
theorem rotatedTo_of_written (hcodec : codec.RoundTrips)
    (hbytes : ∀ entries bytes, codec.encode entries = .ok bytes → bytes ≠ [])
    (hidentity : state.identity = some identity) (h : appendRotationCheckpoint sha256 codec
      (state.begun verifyingKey seed deviceNonce rotatedAt identity)
      (rotateIdentity verifyingKey seed deviceNonce identity) identity.verifyingKeyHex revokedAt
      issuedAt = .ok next) :
    state.RotatedTo sha256 codec next (verifyingKey seed) revokedAt issuedAt := by
  obtain ⟨oldKey, userId, newKey, deviceId, log, bytes, hold, huser, hnew, hdevice, hload, hleaf,
    hencode, rfl⟩ := appendRotationCheckpoint_eq_ok.mp h
  obtain rfl := Option.some.inj ((Hex.decode_encode _).symm.trans hnew)
  obtain ⟨log', hextend⟩ := (extend_succeeds_iff (synced_load hload)).mpr hleaf
  obtain ⟨hsynced, hentries⟩ := extend_eq_ok (synced_load hload) hextend
  rw [← hentries] at hencode
  have hnext := load_written (state.begun verifyingKey seed deviceNonce rotatedAt identity) hcodec
    hbytes hsynced hencode
  exact ⟨identity, _, _, oldKey, userId, deviceId, log, log', hidentity, rfl, rfl, rfl, hold, huser,
    hdevice, hload, hnext, hentries⟩

/-- A rotation that fails leaves the state alone, and one that succeeds does what it
should, exactly if there is no identity or the log of the rotation can be written. -/
theorem rotation_atomic_iff (sha256 : Bytes → Bytes) (codec : LogCodec)
    (hcodec : codec.RoundTrips)
    (hbytes : ∀ entries bytes, codec.encode entries = .ok bytes → bytes ≠ [])
    (verifyingKey : Bytes → Bytes) (state : LogState) (seed deviceNonce : Bytes)
    (rotatedAt revokedAt issuedAt : UInt64) :
    let outcome := rotateIdentityInState sha256 codec verifyingKey state seed deviceNonce rotatedAt
      revokedAt issuedAt
    ((∀ fault, outcome.1 = .error fault → outcome.2 = state) ∧
      ∀ rotation, outcome.1 = .ok rotation →
        state.RotatedTo sha256 codec outcome.2 (verifyingKey seed) revokedAt issuedAt) ↔
    ∀ identity, state.identity = some identity →
      state.Rotatable sha256 codec identity (verifyingKey seed) revokedAt issuedAt := by
  intro outcome
  cases hidentity : state.identity with
  | none =>
    have houtcome : outcome = (.error (.returned .missingIdentity), state) := by
      simp only [outcome, rotateIdentityInState, hidentity]
    simp [houtcome]
  | some identity =>
    have hwrites := rotation_writes_iff sha256 codec state verifyingKey seed deviceNonce rotatedAt
      revokedAt issuedAt identity
    have houtcome := rotateIdentityInState_of_identity sha256 codec verifyingKey seed deviceNonce
      rotatedAt revokedAt issuedAt hidentity
    simp only [Option.some.injEq, forall_eq', ← hwrites]
    dsimp only at houtcome
    cases hwritten : appendRotationCheckpoint sha256 codec
      (state.begun verifyingKey seed deviceNonce rotatedAt identity)
      (rotateIdentity verifyingKey seed deviceNonce identity) identity.verifyingKeyHex revokedAt
      issuedAt with
    | error fault =>
      rw [hwritten] at houtcome
      have hchanged := begun_ne state verifyingKey seed deviceNonce rotatedAt identity
      simp [outcome, houtcome, hchanged]
    | ok next =>
      rw [hwritten] at houtcome
      have hrotated := rotatedTo_of_written verifyingKey seed deviceNonce rotatedAt revokedAt
        issuedAt hcodec hbytes hidentity hwritten
      simp [outcome, houtcome, hrotated]

end Rotation

section Sample

def rotateSample (state : LogState) : ClientResult IdentityRotationOutcome × LogState :=
  rotateIdentityInState ownHash readerLibrary.codec ownVerifyingKey state (List.replicate 32 3) []
    0 0 0

/-- An identity whose device id is not a hexadecimal number. -/
def brokenOwn : LogState where
  identity := some { ownIdentity with deviceIdHex := "device" }

/-- The rotation fails, but the keys are replaced and the rotation is noted. -/
theorem failed_rotation_replaces_key :
    (rotateSample brokenOwn).1 = .error (.returned .hex) ∧
      (rotateSample brokenOwn).2.identity.map (·.signingKeyHex) =
        some (Hex.encode (List.replicate 32 3)) ∧
      brokenOwn.identity.map (·.signingKeyHex) = some (Hex.encode (List.replicate 32 2)) ∧
      (rotateSample brokenOwn).2.keyRotations =
        [⟨0, Hex.encode oldKey, Hex.encode newKey⟩] ∧
      brokenOwn.keyRotations = [] := by
  decide +kernel

/-- The sample identity, whose key is not in the log yet. -/
theorem sample_rotation_atomic :
    (rotateSample createdOwn).1.isOk = true ∧
      (∀ fault, (rotateSample createdOwn).1 = .error fault →
        (rotateSample createdOwn).2 = createdOwn) ∧
      ∀ rotation, (rotateSample createdOwn).1 = .ok rotation →
        createdOwn.RotatedTo ownHash readerLibrary.codec (rotateSample createdOwn).2 newKey 0
          0 := by
  refine ⟨by decide +kernel, ?_⟩
  have hkey : ownVerifyingKey (List.replicate 32 3) = newKey := by decide
  rw [← hkey]
  apply (rotation_atomic_iff ownHash readerLibrary.codec roundTrips_readerLibrary
    nonempty_readerLibrary ownVerifyingKey createdOwn (List.replicate 32 3) [] 0 0 0).mpr
  intro identity hidentity
  obtain rfl := Option.some.inj hidentity
  exact ⟨oldKey, [1], [4], .new, Hex.decode_encode _, by decide, by decide, rfl,
    by decide +kernel, by decide +kernel⟩

end Sample

end Spex
