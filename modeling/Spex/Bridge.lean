import Spex.Paging
import Spex.Requests

/-!
# The bridge server

The bridge keeps cards, slots and inboxes in a database and limits what one
identity may store in a time window. A request to store something runs as a
sequence of SQL statements: it counts the logged requests of its identity, reads
the reputation, checks the limits, the grant and the proof of work, stores the
data, and writes a row to the log and a new reputation. Other requests may run
between any two of these statements.
-/
namespace Spex.Bridge
open Fallible

/-- The limits of an identity, with the defaults of the server. -/
structure RateLimitConfig where
  windowSeconds : UInt64 := 60
  maxRequests : UInt64 := 120
  maxBytes : UInt64 := 1048576
  difficultyStepRequests : UInt64 := 20
  difficultyStepBytes : UInt64 := 262144
  reputationStep : ℕ := 25

/-- Counts and sums are nonnegative `i64` values, so no `u64` overflows here. -/
structure RateLimitSnapshot where
  recentRequests : ℕ
  recentBytes : ℕ
  reputationScore : ℤ
  deriving DecidableEq, Repr

inductive RequestKind where
  | card
  | slot
  | inbox
  deriving DecidableEq, Repr

inductive RequestOutcome where
  | accepted
  | rejected
  deriving DecidableEq, Repr

/-- A signed grant as it arrives, in base64. -/
structure GrantTokenPayload where
  userId : String
  role : UInt64
  flags : Option UInt64
  expiresAt : Option UInt64
  verifyingKey : String
  signature : String
  deriving DecidableEq, Repr

/-- A solved puzzle. Without parameters it counts as the easiest. -/
structure PuzzlePayload where
  recipientKey : String
  puzzleInput : String
  puzzleOutput : String
  params : Option PowParamsPayload
  deriving DecidableEq, Repr

/-- The body of a request for a card or a slot. -/
structure StorageRequest where
  data : String
  grant : GrantTokenPayload
  puzzle : PuzzlePayload
  deriving DecidableEq, Repr

/-- The body of a request for an inbox. -/
structure InboxStoreRequest extends StorageRequest where
  ttlSeconds : Option UInt64
  deriving DecidableEq, Repr

/-- The text of a request error is left out where a library supplies it, and so
is the text of an SQL error. -/
inductive BridgeError where
  | invalidRequest (message : Option String)
  | puzzleInvalid
  | grantInvalid
  | grantExpired
  | hashMismatch
  | storage
  | notFound
  | rateLimited
  deriving DecidableEq, Repr

/-- The primitives behind a request, with the check that 32 bytes are a
verifying key and strict verification (key, hash, signature). -/
structure BridgeCrypto extends RequestCrypto where
  validKey : Bytes → Bool
  verifyStrict : Bytes → Bytes → Bytes → Bool

section Checks
variable (crypto : BridgeCrypto)

def decodeBase64 (value : String) : Except BridgeError Bytes :=
  (Base64.decode value).elim (.error (.invalidRequest none)) .ok

def decodeFixedBytes (length : ℕ) (value : String) : Except BridgeError Bytes := do
  let bytes ← decodeBase64 value
  require (bytes.length = length) (.invalidRequest (some "invalid length"))
  return bytes

def decodeSignature (value : String) : Except BridgeError Bytes := decodeFixedBytes 64 value

def decodeVerifyingKey (value : String) : Except BridgeError Bytes := do
  let bytes ← decodeFixedBytes 32 value
  require (crypto.validKey bytes) (.invalidRequest none)
  return bytes

/-- The user id is read before the grant is checked. -/
def identityFromGrant (grant : GrantTokenPayload) : Except BridgeError String := do
  let userId ← decodeBase64 grant.userId
  return Hex.encode userId

/-- What a client is told of a grant that fails. -/
def grantError : GrantPowValidationError → BridgeError
  | .grantExpired => .grantExpired
  | .grantInvalid => .grantInvalid
  | err => .invalidRequest (some err.message)

/-- The grant must be signed by the key it carries and not have expired. -/
def validateGrant (now : UInt64) (grant : GrantTokenPayload) : Except BridgeError Unit := do
  let userId ← decodeBase64 grant.userId
  let verifyKey ← decodeVerifyingKey crypto grant.verifyingKey
  let signature ← decodeSignature grant.signature
  let token : GrantToken := ⟨userId, grant.role, grant.flags, grant.expiresAt, ∅⟩
  (validateGrantToken crypto.sha256 crypto.verifyStrict now token verifyKey signature).mapError
    grantError

/-- What a client is told of a puzzle that fails. -/
def puzzleError : GrantPowValidationError → BridgeError
  | .powTooWeak | .powInvalid => .puzzleInvalid
  | err => .invalidRequest (some err.message)

/-- The output must be that of Argon2id, under parameters that reach the minimum. -/
def validatePuzzle (payload : PuzzlePayload) (minimum : PowParams) : Except BridgeError Unit := do
  let recipientKey ← decodeBase64 payload.recipientKey
  let puzzleInput ← decodeBase64 payload.puzzleInput
  let puzzleOutput ← decodeBase64 payload.puzzleOutput
  let params := payload.params.elim .minimum PowParamsPayload.toCore
  (validatePowPuzzle crypto.toRequestCrypto recipientKey puzzleInput puzzleOutput params
    minimum).mapError puzzleError

/-- A slot request has had its grant checked before. -/
def validateGrantAndPuzzle (now : UInt64) (grant : GrantTokenPayload) (puzzle : PuzzlePayload)
    (minimumPow : PowParams) (validateGrantToken : Bool) : Except BridgeError Unit := do
  if validateGrantToken then validateGrant crypto now grant
  validatePuzzle crypto puzzle minimumPow

/-- Cards and slots are addressed by the hash of their data. -/
def validateHash (cardHash : String) (data : Bytes) : Except BridgeError Unit :=
  require (Hex.encode (hashBytes crypto.sha256 .sha256 data) = cardHash) .hashMismatch

/-- The request and its bytes must fit into what the window leaves. -/
def enforceRateLimits (snapshot : RateLimitSnapshot) (limits : RateLimitConfig)
    (incomingBytes : ℕ) : Except BridgeError Unit :=
  if snapshot.recentRequests + 1 > limits.maxRequests.toNat then .error .rateLimited
  else if snapshot.recentBytes + incomingBytes > limits.maxBytes.toNat then .error .rateLimited
  else .ok ()

/-- Each step of recent use makes the work harder, and a good reputation takes steps off. -/
def requiredPowParams (snapshot : RateLimitSnapshot) (limits : RateLimitConfig) : PowParams :=
  let requestSteps := snapshot.recentRequests / limits.difficultyStepRequests.toNat
  let byteSteps := snapshot.recentBytes / limits.difficultyStepBytes.toNat
  let reputationBonus := snapshot.reputationScore.toNat / limits.reputationStep
  let steps := UInt32.ofNat (max requestSteps byteSteps - reputationBonus)
  { memoryKib := Saturating.mul32 PowParams.minimum.memoryKib (Saturating.add32 steps 1)
    iterations := Saturating.add32 PowParams.minimum.iterations steps
    parallelism := PowParams.minimum.parallelism
    outputLen := PowParams.minimum.outputLen }

def defaultInboxTtlSeconds : UInt64 := 86400

def maxInboxTtlSeconds : UInt64 := 604800

def maxInboxItemBytes : ℕ := 262144

/-- An item lives for at least a second and at most a week. -/
def computeInboxExpiration (now : UInt64) (ttlSeconds : Option UInt64) :
    Except BridgeError UInt64 :=
  let ttl := ttlSeconds.getD defaultInboxTtlSeconds
  if ttl = 0 ∨ maxInboxTtlSeconds < ttl then .error (.invalidRequest (some "invalid inbox ttl"))
  else if now.toNat + ttl.toNat < 2 ^ 64 then .ok (now + ttl)
  else .error (.invalidRequest (some "invalid inbox ttl"))

def validateInboxItemSize (dataLen : ℕ) : Except BridgeError Unit :=
  require (dataLen ≤ maxInboxItemBytes) (.invalidRequest (some "inbox item too large"))

end Checks

/-- A row of `request_logs`. -/
structure LogRow where
  timestamp : ℤ
  identity : String
  ip : String
  slotId : Option String
  bytes : ℕ
  kind : RequestKind
  outcome : RequestOutcome
  deriving DecidableEq, Repr

/-- A row of `inbox_items`. -/
structure InboxItem where
  id : ℕ
  inboxKey : String
  item : Bytes
  expiresAt : Option ℤ
  deriving DecidableEq, Repr

/-- The table of inbox items, whose primary key counts up and is not reused. -/
structure InboxTable where
  items : List InboxItem
  sequence : ℕ
  increasing : items.Pairwise fun item item' => item.id < item'.id
  positive : ∀ item ∈ items, 0 < item.id
  bounded : ∀ item ∈ items, item.id ≤ sequence

/-- The tables of the bridge. -/
structure Database where
  cards : String → Option Bytes
  slots : String → Option Bytes
  inboxKeys : List String
  inboxItems : InboxTable
  requestLogs : List LogRow
  identityReputation : String → Option ℤ

/-- A word as the `i64` that SQL statements get. -/
def asI64 (n : UInt64) : ℤ := n.toInt64.toInt

section Statements

def InboxTable.empty : InboxTable := ⟨[], 0, .nil, by simp, by simp⟩

/-- A new row gets the next id. -/
def InboxTable.insert (table : InboxTable) (inboxKey : String) (item : Bytes)
    (expiresAt : Option ℤ) : InboxTable where
  items := table.items ++ [⟨table.sequence + 1, inboxKey, item, expiresAt⟩]
  sequence := table.sequence + 1
  increasing := by
    rw [List.pairwise_append]
    refine ⟨table.increasing, List.pairwise_singleton _ _, fun old hold new hnew => ?_⟩
    rw [List.mem_singleton.mp hnew]
    exact Nat.lt_succ_of_le (table.bounded old hold)
  positive := by
    intro row hrow
    rcases List.mem_append.mp hrow with hold | hnew
    · exact table.positive row hold
    · rw [List.mem_singleton.mp hnew]
      exact Nat.succ_pos _
  bounded := by
    intro row hrow
    rcases List.mem_append.mp hrow with hold | hnew
    · exact (table.bounded row hold).trans (Nat.le_succ _)
    · rw [List.mem_singleton.mp hnew]

/-- The rows of an identity since a time. -/
def Database.recent (db : Database) (identity : String) (windowStart : ℤ) : List LogRow :=
  db.requestLogs.filter fun row => row.identity = identity ∧ windowStart ≤ row.timestamp

/-- The number and the bytes of the recent rows; a sum beyond `i64` is an error. -/
def Database.countRecent (db : Database) (identity : String) (windowStart : ℤ) :
    Option (ℕ × ℕ) :=
  let rows := db.recent identity windowStart
  let bytes := (rows.map LogRow.bytes).sum
  if bytes < 2 ^ 63 then some (rows.length, bytes) else none

/-- An identity without a row has score zero. -/
def Database.score (db : Database) (identity : String) : ℤ :=
  (db.identityReputation identity).getD 0

/-- A card under a key that is taken is replaced. -/
def Database.storeCard (db : Database) (cardHash : String) (data : Bytes) : Database :=
  { db with cards := Function.update db.cards cardHash (some data) }

def Database.storeSlot (db : Database) (slotId : String) (data : Bytes) : Database :=
  { db with slots := Function.update db.slots slotId (some data) }

/-- A key that is there is left alone. -/
def Database.insertInboxKey (db : Database) (inboxKey : String) : Database :=
  if inboxKey ∈ db.inboxKeys then db else { db with inboxKeys := db.inboxKeys ++ [inboxKey] }

def Database.insertInboxItem (db : Database) (inboxKey : String) (item : Bytes)
    (expiresAt : UInt64) : Database :=
  { db with inboxItems := db.inboxItems.insert inboxKey item (some (asI64 expiresAt)) }

def Database.insertLog (db : Database) (row : LogRow) : Database :=
  { db with requestLogs := db.requestLogs ++ [row] }

/-- The score is replaced by the one computed from an earlier read. -/
def Database.upsertScore (db : Database) (identity : String) (score : ℤ) : Database :=
  { db with identityReputation := Function.update db.identityReputation identity (some score) }

end Statements

/-- What a request is about to store. -/
inductive Write where
  | card (cardHash : String)
  | slot (slotId : String)
  | item (inboxKey : String) (expiresAt : UInt64)
  deriving DecidableEq, Repr

/-- What a request asks for. -/
inductive Target where
  | card (cardHash : String)
  | slot (slotId : String)
  | inbox (inboxKey : String) (ttlSeconds : Option UInt64)
  deriving DecidableEq, Repr

def Target.kind : Target → RequestKind
  | .card _ => .card
  | .slot _ => .slot
  | .inbox _ _ => .inbox

/-- The slot that the log names. -/
def Target.slotId : Target → Option String
  | .slot slotId => some slotId
  | _ => none

/-- The statement a request runs next, with what it has read so far. -/
inductive Phase where
  | counting
  | scoring (recentRequests recentBytes : ℕ)
  | validating (snapshot : RateLimitSnapshot)
  | storing (write : Write)
  | storingItem (inboxKey : String) (expiresAt : UInt64)
  | logging (result : Except BridgeError Unit)
  | readingScore (result : Except BridgeError Unit)
  | writingScore (result : Except BridgeError Unit) (current : ℤ)
  | finished (result : Except BridgeError Unit)
  deriving DecidableEq

/-- A request in progress. -/
structure Task where
  target : Target
  grant : GrantTokenPayload
  puzzle : PuzzlePayload
  ip : String
  data : Bytes
  identity : String
  now : UInt64
  phase : Phase

section Handlers
variable (crypto : BridgeCrypto) (limits : RateLimitConfig) {clock : UInt64} {db : Database}
  {task : Task} {snapshot : RateLimitSnapshot}

/-- The part of a handler before its first statement. -/
def startPut (target : Target) (ip : String) (now : UInt64) (payload : StorageRequest) :
    Except BridgeError Task := do
  let data ← decodeBase64 payload.data
  let identity ← identityFromGrant payload.grant
  return ⟨target, payload.grant, payload.puzzle, ip, data, identity, now, .counting⟩

def putCard (cardHash ip : String) (now : UInt64) (payload : StorageRequest) :
    Except BridgeError Task :=
  startPut (.card cardHash) ip now payload

def putInbox (inboxKey ip : String) (now : UInt64) (payload : InboxStoreRequest) :
    Except BridgeError Task :=
  startPut (.inbox inboxKey payload.ttlSeconds) ip now payload.toStorageRequest

/-- The handler for slots checks the grant before it counts. -/
def putSlot (slotId ip : String) (now : UInt64) (payload : StorageRequest) :
    Except BridgeError Task := do
  let data ← decodeBase64 payload.data
  let identity := match identityFromGrant payload.grant with
    | .ok identity => identity
    | .error _ => "unknown"
  let phase := match validateGrant crypto now payload.grant with
    | .ok () => Phase.counting
    | .error err => .logging (.error err)
  return ⟨.slot slotId, payload.grant, payload.puzzle, ip, data, identity, now, phase⟩

/-- The checks of a handler on its snapshot; `clock` is the time they run at. -/
def Task.checks (task : Task) (clock : UInt64) (snapshot : RateLimitSnapshot) :
    Except BridgeError Write :=
  let minimumPow := requiredPowParams snapshot limits
  match task.target with
  | .card cardHash => do
    enforceRateLimits snapshot limits task.data.length
    validateGrantAndPuzzle crypto clock task.grant task.puzzle minimumPow true
    validateHash crypto cardHash task.data
    return .card cardHash
  | .slot slotId => do
    enforceRateLimits snapshot limits task.data.length
    validateGrantAndPuzzle crypto clock task.grant task.puzzle minimumPow false
    validateHash crypto slotId task.data
    return .slot slotId
  | .inbox inboxKey ttlSeconds => do
    validateInboxItemSize task.data.length
    enforceRateLimits snapshot limits task.data.length
    validateGrantAndPuzzle crypto clock task.grant task.puzzle minimumPow true
    let expiresAt ← computeInboxExpiration task.now ttlSeconds
    return .item inboxKey expiresAt

/-- The time from which rows of the log are counted. -/
def windowStart (limits : RateLimitConfig) (now : UInt64) : ℤ :=
  asI64 (Saturating.sub now limits.windowSeconds)

def outcomeOf : Except BridgeError Unit → RequestOutcome
  | .ok () => .accepted
  | .error _ => .rejected

/-- The row that a request leaves in the log. -/
def Task.logRow (task : Task) (result : Except BridgeError Unit) : LogRow where
  timestamp := asI64 task.now
  identity := task.identity
  ip := task.ip
  slotId := task.target.slotId
  bytes := task.data.length
  kind := task.target.kind
  outcome := outcomeOf result

/-- The score moves by one and stays between -20 and 100. -/
def nextScore (current : ℤ) : RequestOutcome → ℤ
  | .accepted => min (current + 1) 100
  | .rejected => max (current - 1) (-20)

def Task.at (task : Task) (phase : Phase) : Task := { task with phase }

/-- The next statement of a request. -/
def Task.advance (clock : UInt64) (db : Database) (task : Task) : Database × Task :=
  match task.phase with
  | .counting =>
    match db.countRecent task.identity (windowStart limits task.now) with
    | some (recentRequests, recentBytes) => (db, task.at (.scoring recentRequests recentBytes))
    | none => (db, task.at (.finished (.error .storage)))
  | .scoring recentRequests recentBytes =>
    (db, task.at (.validating ⟨recentRequests, recentBytes, db.score task.identity⟩))
  | .validating snapshot =>
    match task.checks crypto limits clock snapshot with
    | .ok write => (db, task.at (.storing write))
    | .error err => (db, task.at (.logging (.error err)))
  | .storing (.card cardHash) => (db.storeCard cardHash task.data, task.at (.logging (.ok ())))
  | .storing (.slot slotId) => (db.storeSlot slotId task.data, task.at (.logging (.ok ())))
  | .storing (.item inboxKey expiresAt) =>
    (db.insertInboxKey inboxKey, task.at (.storingItem inboxKey expiresAt))
  | .storingItem inboxKey expiresAt =>
    (db.insertInboxItem inboxKey task.data expiresAt, task.at (.logging (.ok ())))
  | .logging result => (db.insertLog (task.logRow result), task.at (.readingScore result))
  | .readingScore result => (db, task.at (.writingScore result (db.score task.identity)))
  | .writingScore result current =>
    (db.upsertScore task.identity (nextScore current (outcomeOf result)),
      task.at (.finished result))
  | .finished _ => (db, task)

/-- Everything that the next statement of a request can do. -/
inductive Statement (clock : UInt64) (db : Database) (task : Task) : Database × Task → Prop
  | counted (recentRequests recentBytes : ℕ) (hphase : task.phase = .counting)
    (hcount : db.countRecent task.identity (windowStart limits task.now) =
      some (recentRequests, recentBytes)) :
    Statement clock db task (db, task.at (.scoring recentRequests recentBytes))
  | uncounted (hphase : task.phase = .counting)
    (hcount : db.countRecent task.identity (windowStart limits task.now) = none) :
    Statement clock db task (db, task.at (.finished (.error .storage)))
  | scored (recentRequests recentBytes : ℕ)
    (hphase : task.phase = .scoring recentRequests recentBytes) :
    Statement clock db task
      (db, task.at (.validating ⟨recentRequests, recentBytes, db.score task.identity⟩))
  | passed (snapshot : RateLimitSnapshot) (write : Write)
    (hphase : task.phase = .validating snapshot)
    (hchecks : task.checks crypto limits clock snapshot = .ok write) :
    Statement clock db task (db, task.at (.storing write))
  | refused (snapshot : RateLimitSnapshot) (err : BridgeError)
    (hphase : task.phase = .validating snapshot)
    (hchecks : task.checks crypto limits clock snapshot = .error err) :
    Statement clock db task (db, task.at (.logging (.error err)))
  | storedCard (cardHash : String) (hphase : task.phase = .storing (.card cardHash)) :
    Statement clock db task (db.storeCard cardHash task.data, task.at (.logging (.ok ())))
  | storedSlot (slotId : String) (hphase : task.phase = .storing (.slot slotId)) :
    Statement clock db task (db.storeSlot slotId task.data, task.at (.logging (.ok ())))
  | storedKey (inboxKey : String) (expiresAt : UInt64)
    (hphase : task.phase = .storing (.item inboxKey expiresAt)) :
    Statement clock db task
      (db.insertInboxKey inboxKey, task.at (.storingItem inboxKey expiresAt))
  | storedItem (inboxKey : String) (expiresAt : UInt64)
    (hphase : task.phase = .storingItem inboxKey expiresAt) :
    Statement clock db task
      (db.insertInboxItem inboxKey task.data expiresAt, task.at (.logging (.ok ())))
  | logged (result : Except BridgeError Unit) (hphase : task.phase = .logging result) :
    Statement clock db task (db.insertLog (task.logRow result), task.at (.readingScore result))
  | readScore (result : Except BridgeError Unit) (hphase : task.phase = .readingScore result) :
    Statement clock db task (db, task.at (.writingScore result (db.score task.identity)))
  | wroteScore (result : Except BridgeError Unit) (current : ℤ)
    (hphase : task.phase = .writingScore result current) :
    Statement clock db task (db.upsertScore task.identity (nextScore current (outcomeOf result)),
      task.at (.finished result))
  | rested (result : Except BridgeError Unit) (hphase : task.phase = .finished result) :
    Statement clock db task (db, task)

variable {crypto limits} in
theorem statement_advance {next : Database × Task}
    (h : task.advance crypto limits clock db = next) :
    Statement crypto limits clock db task next := by
  rw [← h, Task.advance]
  cases hphase : task.phase with
  | counting =>
    dsimp only
    cases hcount : db.countRecent task.identity (windowStart limits task.now) with
    | some counts => exact .counted _ _ hphase hcount
    | none => exact .uncounted hphase hcount
  | scoring recentRequests recentBytes => exact .scored _ _ hphase
  | validating snapshot =>
    dsimp only
    cases hchecks : task.checks crypto limits clock snapshot with
    | ok write => exact .passed _ _ hphase hchecks
    | error err => exact .refused _ _ hphase hchecks
  | storing write =>
    cases write with
    | card cardHash => exact .storedCard _ hphase
    | slot slotId => exact .storedSlot _ hphase
    | item inboxKey expiresAt => exact .storedKey _ _ hphase
  | storingItem inboxKey expiresAt => exact .storedItem _ _ hphase
  | logging result => exact .logged _ hphase
  | readingScore result => exact .readScore _ hphase
  | writingScore result current => exact .wroteScore _ _ hphase
  | finished result => exact .rested _ hphase

variable {crypto limits} in
theorem advance_counted {recentRequests recentBytes : ℕ} (hphase : task.phase = .counting)
    (hcount : db.countRecent task.identity (windowStart limits task.now) =
      some (recentRequests, recentBytes)) :
    task.advance crypto limits clock db = (db, task.at (.scoring recentRequests recentBytes)) := by
  simp only [Task.advance, hphase, hcount]

variable {crypto limits} in
theorem advance_uncounted (hphase : task.phase = .counting)
    (hcount : db.countRecent task.identity (windowStart limits task.now) = none) :
    task.advance crypto limits clock db = (db, task.at (.finished (.error .storage))) := by
  simp only [Task.advance, hphase, hcount]

variable {crypto limits} in
theorem advance_passed {write : Write} (hphase : task.phase = .validating snapshot)
    (hchecks : task.checks crypto limits clock snapshot = .ok write) :
    task.advance crypto limits clock db = (db, task.at (.storing write)) := by
  simp only [Task.advance, hphase, hchecks]

variable {crypto limits} in
theorem advance_refused {err : BridgeError} (hphase : task.phase = .validating snapshot)
    (hchecks : task.checks crypto limits clock snapshot = .error err) :
    task.advance crypto limits clock db = (db, task.at (.logging (.error err))) := by
  simp only [Task.advance, hphase, hchecks]

/-- A number of statements of a request with nothing in between. -/
def Task.run (clock : UInt64) (db : Database) (task : Task) (steps : ℕ) : Database × Task :=
  (fun state => state.2.advance crypto limits clock state.1)^[steps] (db, task)

end Handlers

/-- The handler for inboxes with nothing in between: the answer and the database
it leaves. `clock` is the time of the checks. -/
def putInboxAlone (crypto : BridgeCrypto) (limits : RateLimitConfig) (inboxKey ip : String)
    (now clock : UInt64) (payload : InboxStoreRequest) (db : Database) :
    Except BridgeError Unit × Database :=
  match putInbox inboxKey ip now payload with
  | .error err => (.error err, db)
  | .ok task =>
    let last := task.run crypto limits clock db 8
    match last.2.phase with
    | .finished result => (result, last.1)
    | _ => (.error .storage, last.1)

section Reading

/-- The answer to a request for a card or a slot. -/
def storedResponse (entry : Option Bytes) : Except BridgeError String :=
  entry.elim (.error .notFound) fun data => .ok (Base64.encode data)

def getCard (db : Database) (cardHash : String) : Except BridgeError String :=
  storedResponse (db.cards cardHash)

def getSlot (db : Database) (slotId : String) : Except BridgeError String :=
  storedResponse (db.slots slotId)

def defaultInboxPageLimit : ℕ := 100

def maxInboxPageLimit : ℕ := 500

/-- A limit of zero counts as none. -/
def normalizeInboxLimit : Option ℕ → ℕ
  | some value => if 0 < value then min value maxInboxPageLimit else defaultInboxPageLimit
  | none => defaultInboxPageLimit

def normalizeInboxMaxBytes (maxBytes : Option ℕ) (maxAllowed : UInt64) : ℕ :=
  match maxBytes with
  | some value => if 0 < value then min value maxAllowed.toNat else maxAllowed.toNat
  | none => maxAllowed.toNat

/-- The rows of an inbox that have not expired, in the order of their ids. -/
def Database.inboxRows (db : Database) (inboxKey : String) (now : UInt64) : List InboxItem :=
  db.inboxItems.items.filter fun row =>
    row.inboxKey = inboxKey ∧ ∀ expiresAt ∈ row.expiresAt, asI64 now < expiresAt

/-- A page holds a number of rows and a number of bytes. -/
def inboxLayout (limit maxBytes : ℕ) : Paging.Layout InboxItem :=
  ⟨InboxItem.id, fun row => row.item.length, limit, maxBytes⟩

/-- The rows of a known inbox after the cursor that have not expired. -/
def loadInboxItems (db : Database) (inboxKey : String) (now : UInt64) (cursor : Option ℕ)
    (limit maxBytes : ℕ) : Option (Paging.Page Bytes) :=
  if inboxKey ∈ db.inboxKeys then
    some (((inboxLayout limit maxBytes).page (cursor.getD 0) (db.inboxRows inboxKey now)).map
      InboxItem.item)
  else none

/-- An inbox that nothing was put into is not found. -/
def getInbox (limits : RateLimitConfig) (db : Database) (now : UInt64) (inboxKey : String)
    (limit cursor maxBytes : Option ℕ) : Except BridgeError (Paging.Page String) :=
  let page := loadInboxItems db inboxKey now cursor (normalizeInboxLimit limit)
    (normalizeInboxMaxBytes maxBytes limits.maxBytes)
  page.elim (.error .notFound) fun page => .ok (page.map Base64.encode)

/-- Ids count up from one. -/
theorem after_zero_inboxRows (db : Database) (inboxKey : String) (now : UInt64)
    (limit maxBytes : ℕ) : (inboxLayout limit maxBytes).after 0 (db.inboxRows inboxKey now) =
      db.inboxRows inboxKey now := by
  apply List.filter_eq_self.mpr
  intro row hrow
  exact decide_eq_true (db.inboxItems.positive row (List.mem_of_mem_filter hrow))

end Reading

section Encoded
variable {crypto : BridgeCrypto} {now : UInt64} {grant : GrantTokenPayload}

theorem decodeBase64_encode (bytes : Bytes) : decodeBase64 (Base64.encode bytes) = .ok bytes := by
  rw [decodeBase64, Base64.decode_encode]
  rfl

theorem decodeFixedBytes_encode {bytes : Bytes} {length : ℕ} (h : bytes.length = length) :
    decodeFixedBytes length (Base64.encode bytes) = .ok bytes := by
  rw [decodeFixedBytes, decodeBase64_encode, ok_bind]
  exact bind_eq_ok.mpr ⟨(), require_eq_ok.mpr h, rfl⟩

/-- A grant payload as a client builds it is checked as the grant itself. -/
theorem validateGrant_encode {role : UInt64} {flags expiresAt : Option UInt64}
    {userId verifyKey signature : Bytes} (hkey : verifyKey.length = 32)
    (hvalid : crypto.validKey verifyKey = true) (hsignature : signature.length = 64) :
    validateGrant crypto now ⟨Base64.encode userId, role, flags, expiresAt,
      Base64.encode verifyKey, Base64.encode signature⟩ =
      (validateGrantToken crypto.sha256 crypto.verifyStrict now
        ⟨userId, role, flags, expiresAt, ∅⟩ verifyKey signature).mapError grantError := by
  have hdecoded : decodeVerifyingKey crypto (Base64.encode verifyKey) = .ok verifyKey := by
    rw [decodeVerifyingKey, decodeFixedBytes_encode hkey, ok_bind]
    exact bind_eq_ok.mpr ⟨(), require_eq_ok.mpr hvalid, rfl⟩
  rw [validateGrant, decodeBase64_encode, hdecoded, decodeSignature,
    decodeFixedBytes_encode hsignature]
  rfl

theorem validatePuzzle_encode {recipientKey puzzleInput puzzleOutput : Bytes}
    {params : Option PowParamsPayload} {minimum : PowParams} :
    validatePuzzle crypto ⟨Base64.encode recipientKey, Base64.encode puzzleInput,
      Base64.encode puzzleOutput, params⟩ minimum =
      (validatePowPuzzle crypto.toRequestCrypto recipientKey puzzleInput puzzleOutput
        (params.elim .minimum PowParamsPayload.toCore) minimum).mapError puzzleError := by
  rw [validatePuzzle, decodeBase64_encode, decodeBase64_encode, decodeBase64_encode]
  rfl

theorem startPut_encode {target : Target} {ip : String} {data userId : Bytes}
    {puzzle : PuzzlePayload} (hgrant : grant.userId = Base64.encode userId) :
    startPut target ip now ⟨Base64.encode data, grant, puzzle⟩ =
      .ok ⟨target, grant, puzzle, ip, data, Hex.encode userId, now, .counting⟩ := by
  rw [startPut, decodeBase64_encode, ok_bind, identityFromGrant, hgrant, decodeBase64_encode]
  rfl

end Encoded

def sampleBridgeCrypto : BridgeCrypto where
  toRequestCrypto := sampleRequestCrypto
  validKey key := key = requestVerifyingKey
  verifyStrict key hash signature :=
    key = requestVerifyingKey ∧ signature = sampleRequestCrypto.sign [] hash

end Spex.Bridge
