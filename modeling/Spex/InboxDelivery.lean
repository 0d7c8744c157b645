import Spex.RateLimits
import Spex.Staging

/-!
# Delivery through the bridge

A sender puts an envelope into an inbox of the bridge, and the recipient reads the
inbox page by page. The sender addresses the inbox by the hash of the recipient's
key, as the local caches do, and the recipient reads under the key itself. So the
two meet only in the inbox of a key that is its own hash.
-/
namespace Spex
open Fallible

namespace Bridge
variable {crypto : BridgeCrypto} {limits : RateLimitConfig} {clock : UInt64} {db : Database}
  {task : Task} {result : Except BridgeError Unit} {inboxKey : String}
  {snapshot : RateLimitSnapshot} {ttlSeconds : Option UInt64}

theorem run_succ (db : Database) (task : Task) (steps : ℕ) :
    task.run crypto limits clock db (steps + 1) =
      (task.advance crypto limits clock db).2.run crypto limits clock
        (task.advance crypto limits clock db).1 steps := rfl

theorem run_finished (db : Database) (task : Task) (result : Except BridgeError Unit)
    (steps : ℕ) : (task.at (.finished result)).run crypto limits clock db steps =
      (db, task.at (.finished result)) := by
  induction steps with
  | zero => rfl
  | succ steps ih => exact ih

/-- From the log on, a request ends with its result and leaves the inboxes alone. -/
theorem run_logging (db : Database) (task : Task) (result : Except BridgeError Unit)
    (steps : ℕ) : ∃ db', (task.at (.logging result)).run crypto limits clock db (steps + 3) =
      (db', task.at (.finished result)) ∧ db'.inboxKeys = db.inboxKeys ∧
        db'.inboxItems = db.inboxItems := by
  rw [run_succ, run_succ, run_succ]
  exact ⟨_, run_finished _ task result steps, rfl, rfl⟩

/-- What a request for an inbox that passes its checks will store. -/
theorem write_of_checks {write : Write} (htarget : task.target = .inbox inboxKey ttlSeconds)
    (h : task.checks crypto limits clock snapshot = .ok write) :
    ∃ expiresAt, computeInboxExpiration task.now ttlSeconds = .ok expiresAt ∧
      write = .item inboxKey expiresAt := by
  obtain ⟨-, -, -, -, hwrite⟩ := (checks_inbox htarget).mp h
  exact hwrite

theorem run_counted {recentRequests recentBytes : ℕ}
    (hcount : db.countRecent task.identity (windowStart limits task.now) =
      some (recentRequests, recentBytes)) (steps : ℕ) :
    (task.at .counting).run crypto limits clock db (steps + 2) =
      (task.at (.validating ⟨recentRequests, recentBytes, db.score task.identity⟩)).run
        crypto limits clock db steps := by
  have hstep : (task.at .counting).advance crypto limits clock db =
      (db, task.at (.scoring recentRequests recentBytes)) := advance_counted rfl hcount
  rw [run_succ, hstep, run_succ]
  rfl

/-- A request for an inbox that passes its checks adds its item. -/
theorem run_item (db : Database) {expiresAt : UInt64}
    (hchecks : task.checks crypto limits clock snapshot = .ok (.item inboxKey expiresAt)) :
    ∃ db', (task.at (.validating snapshot)).run crypto limits clock db 6 =
        (db', task.at (.finished (.ok ()))) ∧
      db'.inboxKeys = (db.insertInboxKey inboxKey).inboxKeys ∧
      db'.inboxItems = db.inboxItems.insert inboxKey task.data (some (asI64 expiresAt)) := by
  have hpassed : (task.at (.validating snapshot)).advance crypto limits clock db =
      (db, task.at (.storing (.item inboxKey expiresAt))) := advance_passed rfl hchecks
  obtain ⟨db', hlogged, hkeys, hitems⟩ := run_logging
    ((db.insertInboxKey inboxKey).insertInboxItem inboxKey task.data expiresAt) task (.ok ()) 0
  refine ⟨db', ?_, hkeys, hitems.trans ?_⟩
  · rw [run_succ, hpassed, run_succ, run_succ]
    exact hlogged
  · rw [Database.insertInboxItem, insertInboxKey_inboxItems]

theorem run_refused {err : BridgeError}
    (hchecks : task.checks crypto limits clock snapshot = .error err) :
    ∃ db', (task.at (.validating snapshot)).run crypto limits clock db 6 =
      (db', task.at (.finished (.error err))) := by
  have hrefused : (task.at (.validating snapshot)).advance crypto limits clock db =
      (db, task.at (.logging (.error err))) := advance_refused rfl hchecks
  obtain ⟨db', hlogged, -⟩ := run_logging db task (.error err) 2
  rw [run_succ, hrefused]
  exact ⟨db', hlogged⟩

/-- A request for an inbox that ends well has added its item. -/
theorem stored_of_run {db' : Database} {last : Task}
    (htarget : task.target = .inbox inboxKey ttlSeconds)
    (hrun : (task.at .counting).run crypto limits clock db 8 = (db', last))
    (hlast : last.phase = .finished (.ok ())) :
    ∃ expiresAt, computeInboxExpiration task.now ttlSeconds = .ok expiresAt ∧
      task.data.length ≤ limits.maxBytes.toNat ∧
      db'.inboxKeys = (db.insertInboxKey inboxKey).inboxKeys ∧
      db'.inboxItems = db.inboxItems.insert inboxKey task.data (some (asI64 expiresAt)) := by
  cases hcount : db.countRecent task.identity (windowStart limits task.now) with
  | none =>
    have hstep : (task.at .counting).advance crypto limits clock db =
        (db, task.at (.finished (.error .storage))) := advance_uncounted rfl hcount
    rw [run_succ, hstep, run_finished] at hrun
    obtain ⟨-, rfl⟩ := Prod.mk.inj hrun
    cases hlast
  | some counts =>
    rw [run_counted hcount] at hrun
    cases hchecks : task.checks crypto limits clock
        ⟨counts.1, counts.2, db.score task.identity⟩ with
    | error err =>
      obtain ⟨_, hrefused⟩ := run_refused hchecks
      obtain ⟨-, rfl⟩ := Prod.mk.inj (hrefused.symm.trans hrun)
      cases hlast
    | ok write =>
      obtain ⟨expiresAt, hexpires, rfl⟩ := write_of_checks htarget hchecks
      have hsize : task.data.length ≤ limits.maxBytes.toNat :=
        (Nat.le_add_left _ _).trans (admits_of_checks hchecks).2
      obtain ⟨_, hended, hkeys, hitems⟩ := run_item db hchecks
      obtain ⟨rfl, -⟩ := Prod.mk.inj (hended.symm.trans hrun)
      exact ⟨expiresAt, hexpires, hsize, hkeys, hitems⟩

theorem mem_insertInboxKey {db : Database} {other : String} :
    other ∈ (db.insertInboxKey inboxKey).inboxKeys ↔ other ∈ db.inboxKeys ∨ other = inboxKey := by
  unfold Database.insertInboxKey
  split_ifs with hmem
  · exact ⟨.inl, fun h => h.elim id fun heq => heq ▸ hmem⟩
  · rw [List.mem_append, List.mem_singleton]

/-- The items of an inbox after an item that has not expired was added to one. -/
theorem mem_inboxRows_insert {db db' : Database} {other : String} {data item : Bytes}
    {now expiresAt : UInt64}
    (hitems : db'.inboxItems = db.inboxItems.insert inboxKey data (some (asI64 expiresAt)))
    (hfresh : asI64 now < asI64 expiresAt) :
    item ∈ (db'.inboxRows other now).map InboxItem.item ↔
      item ∈ (db.inboxRows other now).map InboxItem.item ∨ other = inboxKey ∧ item = data := by
  have hrows : db'.inboxRows other now = db.inboxRows other now ++
      if inboxKey = other then
        [⟨db.inboxItems.sequence + 1, inboxKey, data, some (asI64 expiresAt)⟩] else [] := by
    rw [Database.inboxRows, hitems, InboxTable.insert, List.filter_append, ← Database.inboxRows,
      List.filter_singleton]
    simp [hfresh]
  rw [hrows, List.map_append, List.mem_append]
  split_ifs with hkey
  · simp [hkey]
  · simp [Ne.symm hkey]

section Readable
variable {server : Server}

/-- Every item can be handed out on a page. -/
def Database.Readable (limits : RateLimitConfig) (db : Database) : Prop :=
  ∀ row ∈ db.inboxItems.items, row.item.length ≤ limits.maxBytes.toNat

theorem readable_insert {inboxKey : String} {data : Bytes} {expiresAt : Option ℤ}
    (hdb : db.Readable limits) (hdata : data.length ≤ limits.maxBytes.toNat) :
    ∀ row ∈ (db.inboxItems.insert inboxKey data expiresAt).items,
      row.item.length ≤ limits.maxBytes.toNat := by
  intro row hrow
  rcases List.mem_append.mp hrow with hold | hnew
  · exact hdb row hold
  · rw [List.mem_singleton.mp hnew]
    exact hdata

/-- The request has passed its checks and is about to store its data. -/
def Task.stores (task : Task) : Bool :=
  match task.phase with
  | .storing _ | .storingItem _ _ => true
  | _ => false

def Task.Fits (limits : RateLimitConfig) (task : Task) : Prop :=
  task.stores → task.data.length ≤ limits.maxBytes.toNat

theorem fits_at {phase : Phase} (h : (task.at phase).stores = false) :
    (task.at phase).Fits limits := by
  simp [Task.Fits, h]

theorem readable_advance (hdb : db.Readable limits) (htask : task.Fits limits) :
    (task.advance crypto limits clock db).1.Readable limits ∧
      (task.advance crypto limits clock db).2.Fits limits := by
  generalize hnext : task.advance crypto limits clock db = next
  cases statement_advance hnext with
  | passed snapshot write hphase hchecks =>
    exact ⟨hdb, fun _ => (Nat.le_add_left _ _).trans (admits_of_checks hchecks).2⟩
  | storedKey _ _ hphase =>
    have hfits := htask (by simp [Task.stores, hphase])
    refine ⟨?_, fun _ => hfits⟩
    rw [Database.Readable, insertInboxKey_inboxItems]
    exact hdb
  | storedItem _ _ hphase =>
    exact ⟨readable_insert hdb (htask (by simp [Task.stores, hphase])), fits_at rfl⟩
  | rested => exact ⟨hdb, htask⟩
  | _ => exact ⟨hdb, fits_at rfl⟩

def Server.Readable (limits : RateLimitConfig) (server : Server) : Prop :=
  server.db.Readable limits ∧ ∀ task ∈ server.tasks, task.Fits limits

theorem readable_arrived {started : Task} (h : server.Readable limits)
    (hstarted : started.Fits limits) :
    Server.Readable limits { server with tasks := server.tasks ++ [started] } := by
  refine ⟨h.1, fun task hmem => ?_⟩
  rcases List.mem_append.mp hmem with hold | hnew
  · exact h.2 task hold
  · rw [List.mem_singleton.mp hnew]
    exact hstarted

theorem fits_of_not_holdsPlace (h : task.holdsPlace limits = false) : task.Fits limits := by
  unfold Task.Fits Task.stores
  unfold Task.holdsPlace at h
  cases hphase : task.phase <;> simp_all

theorem readable_set {index : ℕ} {replaced : Task} {db : Database} (h : server.Readable limits)
    (hdb : db.Readable limits) (hreplaced : replaced.Fits limits) :
    Server.Readable limits ⟨db, server.tasks.set index replaced⟩ := by
  refine ⟨hdb, fun task hmem => ?_⟩
  rcases List.mem_or_eq_of_mem_set hmem with hold | rfl
  · exact h.2 task hold
  · exact hreplaced

theorem readable_step {event : Event} (h : server.Readable limits) :
    (server.step crypto limits event).2.Readable limits := by
  generalize hnext : server.step crypto limits event = next
  cases step_case hnext with
  | refused err harrival => exact h
  | arrived task harrival =>
    exact readable_arrived h (fits_of_not_holdsPlace (arrival_holdsPlace harrival))
  | advanced index task haction hget =>
    obtain ⟨hdb, hfits⟩ := readable_advance h.1 (h.2 task (List.mem_of_getElem? hget))
    exact readable_set h hdb hfits
  | failed index task haction hget => exact readable_set h h.1 (fits_of_not_holdsPlace rfl)
  | idle index haction hget => exact h

/-- A bridge that starts with readable inboxes keeps them readable. -/
theorem readable_run {start : Server} {events : List Event} (h : start.Readable limits) :
    (Transcript.final (Server.step crypto limits) start events).Readable limits := by
  refine (Transcript.invariant (Server.Readable limits) h fun turn hturn hbefore => ?_).2
  rw [Transcript.after_eq hturn]
  exact readable_step hbefore

end Readable

/-- The display text of an error, unless a library supplies a part of it. -/
def BridgeError.message : BridgeError → Option String
  | .invalidRequest message => message.map fun text => s!"invalid request: {text}"
  | .puzzleInvalid => some "puzzle validation failed"
  | .grantInvalid => some "grant signature invalid"
  | .grantExpired => some "grant expired"
  | .hashMismatch => some "hash mismatch"
  | .storage => none
  | .notFound => some "not found"
  | .rateLimited => some "rate limit exceeded"

/-- The bridge as a reader sees it. -/
structure View where
  limits : RateLimitConfig
  db : Database
  now : UInt64

end Bridge

structure InboxScanResponse where
  items : List Bytes
  source : InboxSource
  deriving DecidableEq, Repr

structure BridgeEnvelopePublishInput where
  senderUserId : Bytes
  recipientKeySeed : Bytes
  envelope : Bytes
  role : UInt64
  flags : Option UInt64
  nowUnix : UInt64
  grantTtlSeconds : UInt64
  inboxTtlSeconds : Option UInt64
  powParams : PowParams

section Publishing
variable (crypto : Bridge.BridgeCrypto)

/-- The grant that a client signs for one envelope. -/
def BridgeEnvelopePublishInput.grant (input : BridgeEnvelopePublishInput) : GrantToken :=
  ⟨input.senderUserId, input.role, input.flags,
    some (Saturating.add input.nowUnix input.grantTtlSeconds), ∅⟩

/-- The request with a signed grant and a solution of the puzzle. -/
def builtRequest (signingKey nonce : Bytes) (input : BridgeEnvelopePublishInput)
    (grantHash puzzleOutput : Bytes) : Bridge.InboxStoreRequest where
  data := Base64.encode input.envelope
  grant := ⟨Base64.encode input.senderUserId, input.role, input.flags, input.grant.expiresAt,
    Base64.encode (crypto.verifyKey signingKey), Base64.encode (crypto.sign signingKey grantHash)⟩
  puzzle := ⟨Base64.encode input.recipientKeySeed,
    Base64.encode (nonce ++ input.recipientKeySeed), Base64.encode puzzleOutput,
    some ⟨input.powParams.memoryKib, input.powParams.iterations, input.powParams.parallelism,
      input.powParams.outputLen⟩⟩
  ttlSeconds := input.inboxTtlSeconds

/-- The request with its grant and its work. -/
def buildBridgePublishRequest (signingKey nonce : Bytes) (input : BridgeEnvelopePublishInput) :
    Except TransportError Bridge.InboxStoreRequest := do
  let grantHash ← (hashCtap2CborValue crypto.sha256 .sha256 input.grant).mapError .cborDecode
  let puzzleInput := nonce ++ input.recipientKeySeed
  let puzzleOutput ← (generatePuzzleOutput crypto.toRequestCrypto input.recipientKeySeed
    puzzleInput input.powParams).mapError .cborDecode
  (validatePowPuzzle crypto.toRequestCrypto input.recipientKeySeed puzzleInput puzzleOutput
    input.powParams .minimum).mapError fun err => .invalidPayload (some err.message)
  return builtRequest crypto signingKey nonce input grantHash puzzleOutput

/-- How a client reads the status and the body of a refusal. -/
def publishError : Bridge.BridgeError → TransportError
  | .grantExpired => .grantExpired
  | .grantInvalid => .grantInvalid
  | .puzzleInvalid => .powInvalid
  | err => if err = .invalidRequest (some "invalid inbox ttl") then .invalidTtl
    else .invalidPayload err.message

/-- What a call to publish meets: the random nonce, the address the bridge sees,
the clock of the client, and the clock of the bridge on arrival and at the checks. -/
structure Circumstances where
  nonce : Bytes
  ip : String
  nowUnix : UInt64
  arrival : UInt64
  clock : UInt64

/-- The request that `publish_via_bridge` sends. -/
def publishRequest (identity : IdentityState) (recipientInboxKeySeed : Bytes)
    (envelope : Envelope) (ttlSeconds : Option UInt64) (met : Circumstances) :
    ClientResult Bridge.InboxStoreRequest := do
  let payload ← (toCtap2CanonicalBytes envelope).mapError coreFault
  let senderUserId ← hexDecode identity.userIdHex
  let signingKey ← signingKeyFromHex identity.signingKeyHex
  let input : BridgeEnvelopePublishInput :=
    { senderUserId, recipientKeySeed := recipientInboxKeySeed, envelope := payload, role := 1,
      flags := none, nowUnix := met.nowUnix, grantTtlSeconds := 300,
      inboxTtlSeconds := ttlSeconds, powParams := .minimum }
  (buildBridgePublishRequest crypto signingKey met.nonce input).mapError fun err =>
    .returned (.transport err.message)

def publishToInbox (limits : Bridge.RateLimitConfig) (inboxScanKey : Bytes)
    (request : Bridge.InboxStoreRequest) (met : Circumstances) (db : Bridge.Database) :
    Except TransportError Unit × Bridge.Database :=
  let (answer, db') := Bridge.putInboxAlone crypto limits (Hex.encode inboxScanKey) met.ip
    met.arrival met.clock request db
  (answer.mapError publishError, db')

def publishViaBridge (limits : Bridge.RateLimitConfig) (identity : IdentityState)
    (recipientInboxKeySeed : Bytes) (envelope : Envelope) (ttlSeconds : Option UInt64)
    (met : Circumstances) (db : Bridge.Database) : ClientResult Unit × Bridge.Database :=
  match publishRequest crypto identity recipientInboxKeySeed envelope ttlSeconds met with
  | .error fault => (.error fault, db)
  | .ok request =>
    let hashedKey := deriveInboxScanKey crypto.sha256 .sha256 recipientInboxKeySeed
    let (answer, db') := publishToInbox crypto limits hashedKey request met db
    (answer.mapError fun err => .returned (.transport err.message), db')

end Publishing

section Resolving

def defaultBridgePageLimit : ℕ := 100

/-- One turn of the loop of `scan_inbox`. -/
def fetchInboxPage (bridge : Bridge.View) (encodedKey : String) (cursor : Option ℕ) :
    Except TransportError (Paging.Page Bytes) := do
  let page ← (Bridge.getInbox bridge.limits bridge.db bridge.now encodedKey
    (some defaultBridgePageLimit) cursor none).mapError fun _ => .http
  let items ← page.items.mapM fun item =>
    (Base64.decode item).elim (.error .bridgePayload) .ok
  return ⟨items, page.next⟩

/-- The rows of the table bound the number of pages. -/
def scanInbox (bridge : Bridge.View) (inboxScanKey : Bytes) :
    Option (Except TransportError InboxScanResponse) :=
  (Paging.scan (fetchInboxPage bridge (Hex.encode inboxScanKey))
    (bridge.db.inboxItems.items.length + 1) none).map (Except.map (⟨·, .bridge⟩))

/-- The cache of the inbox first, then the bridge. -/
def resolveInboxFromState (sha256 : Bytes → Bytes) (state : LocalState) (inboxScanKey : Bytes)
    (bridge : Option Bridge.View) : Option (ClientResult InboxScanResponse) × LocalState :=
  let keyHex := inboxAddress sha256 inboxScanKey
  match state.p2pInbox keyHex with
  | some items => (some (.ok ⟨items.filterMap Base64.decode, .kademlia⟩),
      { state with p2pInbox := Function.update state.p2pInbox keyHex none })
  | none =>
    match bridge with
    | some bridge => ((scanInbox bridge inboxScanKey).map
        (Except.mapError fun err => .returned (.transport err.message)), state)
    | none => (some (.ok ⟨[], .kademlia⟩), state)

variable {bridge : Bridge.View} {inboxScanKey : Bytes} {sha256 : Bytes → Bytes}

theorem mapM_decode_encode (items : List Bytes) :
    ((items.map Base64.encode).mapM fun item =>
      ((Base64.decode item).elim (.error .bridgePayload) .ok : Except TransportError Bytes)) =
        .ok items := by
  rw [mapM_eq_ok, List.forall₂_map_left_iff, List.forall₂_same]
  intro item _
  rw [Base64.decode_encode]
  rfl

theorem fetchInboxPage_eq {encodedKey : String} (hknown : encodedKey ∈ bridge.db.inboxKeys)
    (cursor : Option ℕ) : fetchInboxPage bridge encodedKey cursor =
      .ok (((Bridge.inboxLayout 100 bridge.limits.maxBytes.toNat).page (cursor.getD 0)
        (bridge.db.inboxRows encodedKey bridge.now)).map Bridge.InboxItem.item) := by
  rw [fetchInboxPage, Bridge.getInbox, Bridge.loadInboxItems, if_pos hknown]
  refine bind_eq_ok.mpr ⟨_, rfl, bind_eq_ok.mpr ⟨_, mapM_decode_encode _, rfl⟩⟩

/-- A reader gets the whole inbox. -/
theorem scanInbox_eq (hknown : Hex.encode inboxScanKey ∈ bridge.db.inboxKeys)
    (hreadable : bridge.db.Readable bridge.limits) : scanInbox bridge inboxScanKey =
      some (.ok ⟨(bridge.db.inboxRows (Hex.encode inboxScanKey) bridge.now).map
        Bridge.InboxItem.item, .bridge⟩) := by
  let layout := Bridge.inboxLayout 100 bridge.limits.maxBytes.toNat
  let rows := bridge.db.inboxRows (Hex.encode inboxScanKey) bridge.now
  have hall : layout.after 0 rows = rows := Bridge.after_zero_inboxRows bridge.db _ _ _ _
  have hfuel : (layout.after 0 rows).length < bridge.db.inboxItems.items.length + 1 := by
    rw [hall]
    exact Nat.lt_succ_of_le (List.length_filter_le _ _)
  have hscan : Paging.scan (fetchInboxPage bridge (Hex.encode inboxScanKey))
      (bridge.db.inboxItems.items.length + 1) none =
      some (.ok ((layout.after 0 rows).map Bridge.InboxItem.item)) :=
    Paging.scan_after (Nat.succ_pos 99)
      (fun row hrow => hreadable row (List.mem_of_mem_filter hrow))
      (bridge.db.inboxItems.increasing.filter _) (fetchInboxPage_eq hknown) hfuel
  rw [scanInbox, hscan, hall]
  rfl

theorem scanInbox_unknown (hunknown : Hex.encode inboxScanKey ∉ bridge.db.inboxKeys) :
    scanInbox bridge inboxScanKey = some (.error .http) := by
  have hfetch : fetchInboxPage bridge (Hex.encode inboxScanKey) none = .error .http := by
    rw [fetchInboxPage, Bridge.getInbox, Bridge.loadInboxItems, if_neg hunknown]
    rfl
  rw [scanInbox, Paging.scan_succ, hfetch]
  rfl

theorem resolveInboxFromState_cached {state : LocalState} {items : List String}
    {bridge : Option Bridge.View}
    (hcache : state.p2pInbox (inboxAddress sha256 inboxScanKey) = some items) :
    resolveInboxFromState sha256 state inboxScanKey bridge =
      (some (.ok ⟨items.filterMap Base64.decode, .kademlia⟩),
        { state with p2pInbox :=
            Function.update state.p2pInbox (inboxAddress sha256 inboxScanKey) none }) := by
  unfold resolveInboxFromState
  dsimp only
  rw [hcache]

/-- A recipient without a cached copy gets an item exactly if the inbox is known
and holds it. -/
theorem resolves_iff {state : LocalState} {item : Bytes}
    (hcache : state.p2pInbox (inboxAddress sha256 inboxScanKey) = none)
    (hreadable : bridge.db.Readable bridge.limits) :
    (∃ response state', resolveInboxFromState sha256 state inboxScanKey (some bridge) =
      (some (.ok response), state') ∧ item ∈ response.items) ↔
    Hex.encode inboxScanKey ∈ bridge.db.inboxKeys ∧
      item ∈ (bridge.db.inboxRows (Hex.encode inboxScanKey) bridge.now).map
        Bridge.InboxItem.item := by
  rw [resolveInboxFromState, hcache]
  by_cases hknown : Hex.encode inboxScanKey ∈ bridge.db.inboxKeys
  · rw [scanInbox_eq hknown hreadable]
    constructor
    · rintro ⟨response, state', hresolved, hitem⟩
      obtain ⟨hresponse, -⟩ := Prod.mk.inj hresolved
      rw [← Except.ok.inj (Option.some.inj hresponse)] at hitem
      exact ⟨hknown, hitem⟩
    · rintro ⟨-, hitem⟩
      exact ⟨_, _, rfl, hitem⟩
  · rw [scanInbox_unknown hknown]
    constructor
    · rintro ⟨response, state', hresolved, -⟩
      obtain ⟨hresponse, -⟩ := Prod.mk.inj hresolved
      cases hresponse
    · exact fun h => absurd h.1 hknown

end Resolving

section Delivery
variable {crypto : Bridge.BridgeCrypto} {limits : Bridge.RateLimitConfig} {identity : IdentityState}
  {inboxKey : Bytes} {envelope : Envelope} {ttlSeconds : Option UInt64} {met : Circumstances}
  {db db' : Bridge.Database} {payload : Bytes} {request : Bridge.InboxStoreRequest}

theorem buildBridgePublishRequest_eq_ok {signingKey nonce : Bytes}
    {input : BridgeEnvelopePublishInput} :
    buildBridgePublishRequest crypto signingKey nonce input = .ok request ↔
      ∃ grantBytes puzzleOutput, toCtap2CanonicalBytes input.grant = .ok grantBytes ∧
        generatePuzzleOutput crypto.toRequestCrypto input.recipientKeySeed
          (nonce ++ input.recipientKeySeed) input.powParams = .ok puzzleOutput ∧
        validatePowPuzzle crypto.toRequestCrypto input.recipientKeySeed
          (nonce ++ input.recipientKeySeed) puzzleOutput input.powParams .minimum = .ok () ∧
        builtRequest crypto signingKey nonce input (crypto.sha256 grantBytes) puzzleOutput =
          request := by
  constructor
  · intro h
    obtain ⟨grantHash, hhash, h⟩ := bind_eq_ok.mp h
    obtain ⟨grantBytes, hbytes, hhash⟩ := bind_eq_ok.mp (mapError_eq_ok.mp hhash)
    obtain rfl := pure_eq_ok.mp hhash
    obtain ⟨puzzleOutput, houtput, h⟩ := bind_eq_ok.mp h
    obtain ⟨_, hvalid, h⟩ := bind_eq_ok.mp h
    exact ⟨grantBytes, puzzleOutput, hbytes, mapError_eq_ok.mp houtput, mapError_eq_ok.mp hvalid,
      pure_eq_ok.mp h⟩
  · rintro ⟨grantBytes, puzzleOutput, hbytes, houtput, hvalid, rfl⟩
    have hhash : hashCtap2CborValue crypto.sha256 .sha256 input.grant =
        .ok (crypto.sha256 grantBytes) := bind_eq_ok.mpr ⟨_, hbytes, rfl⟩
    refine bind_eq_ok.mpr ⟨_, mapError_eq_ok.mpr hhash, ?_⟩
    refine bind_eq_ok.mpr ⟨_, mapError_eq_ok.mpr houtput, ?_⟩
    exact bind_eq_ok.mpr ⟨_, mapError_eq_ok.mpr hvalid, rfl⟩

/-- The request carries the canonical bytes of the envelope and a grant for the sender. -/
theorem publishRequest_ok (hpayload : toCtap2CanonicalBytes envelope = .ok payload)
    (h : publishRequest crypto identity inboxKey envelope ttlSeconds met = .ok request) :
    request.data = Base64.encode payload ∧ request.ttlSeconds = ttlSeconds ∧
      ∃ userId, request.grant.userId = Base64.encode userId := by
  obtain ⟨_, hbytes, h⟩ := bind_eq_ok.mp h
  obtain rfl := Except.ok.inj (hpayload.symm.trans (mapError_eq_ok.mp hbytes))
  obtain ⟨senderUserId, -, h⟩ := bind_eq_ok.mp h
  obtain ⟨signingKey, -, h⟩ := bind_eq_ok.mp h
  obtain ⟨_, _, -, -, -, rfl⟩ := buildBridgePublishRequest_eq_ok.mp (mapError_eq_ok.mp h)
  exact ⟨rfl, rfl, senderUserId, rfl⟩

/-- A request that runs alone and is answered well has added its item. -/
theorem stored_of_putInboxAlone {key ip : String} {now clock : UInt64} {userId : Bytes}
    (hdata : request.data = Base64.encode payload)
    (hgrant : request.grant.userId = Base64.encode userId)
    (h : Bridge.putInboxAlone crypto limits key ip now clock request db = (.ok (), db')) :
    ∃ expiresAt, Bridge.computeInboxExpiration now request.ttlSeconds = .ok expiresAt ∧
      payload.length ≤ limits.maxBytes.toNat ∧
      db'.inboxKeys = (db.insertInboxKey key).inboxKeys ∧
      db'.inboxItems = db.inboxItems.insert key payload (some (Bridge.asI64 expiresAt)) := by
  obtain ⟨⟨data, grant, puzzle⟩, ttlSeconds⟩ := request
  obtain rfl : data = Base64.encode payload := hdata
  let task : Bridge.Task :=
    ⟨.inbox key ttlSeconds, grant, puzzle, ip, payload, Hex.encode userId, now, .counting⟩
  have hput : Bridge.putInbox key ip now ⟨⟨Base64.encode payload, grant, puzzle⟩, ttlSeconds⟩ =
      .ok task := Bridge.startPut_encode hgrant
  rw [Bridge.putInboxAlone, hput] at h
  dsimp only at h
  split at h
  · rename_i result hlast
    obtain ⟨rfl, hdb⟩ := Prod.mk.inj h
    exact Bridge.stored_of_run (rfl : task.target = _) (Prod.ext hdb rfl) hlast
  · cases (Prod.mk.inj h).1

/-- A successful publication has added the payload to the inbox of the hashed key. -/
theorem published_of_ok (hpayload : toCtap2CanonicalBytes envelope = .ok payload)
    (hpublish : publishViaBridge crypto limits identity inboxKey envelope ttlSeconds met db =
      (.ok (), db')) :
    ∃ expiresAt, Bridge.computeInboxExpiration met.arrival ttlSeconds = .ok expiresAt ∧
      payload.length ≤ limits.maxBytes.toNat ∧
      db'.inboxKeys = (db.insertInboxKey (inboxAddress crypto.sha256 inboxKey)).inboxKeys ∧
      db'.inboxItems = db.inboxItems.insert (inboxAddress crypto.sha256 inboxKey) payload
        (some (Bridge.asI64 expiresAt)) := by
  unfold publishViaBridge at hpublish
  cases hrequest : publishRequest crypto identity inboxKey envelope ttlSeconds met with
  | error fault =>
    rw [hrequest] at hpublish
    cases hpublish
  | ok request =>
    rw [hrequest] at hpublish
    obtain ⟨hanswer, hdb⟩ := Prod.mk.inj hpublish
    obtain ⟨hdata, rfl, userId, hgrant⟩ := publishRequest_ok hpayload hrequest
    have hanswer := mapError_eq_ok.mp (mapError_eq_ok.mp hanswer)
    exact stored_of_putInboxAlone hdata hgrant (Prod.ext hanswer hdb)

/-- A publication succeeds if its request ends well. -/
theorem publishViaBridge_of_run {task : Bridge.Task}
    (hrequest : publishRequest crypto identity inboxKey envelope ttlSeconds met = .ok request)
    (hput : Bridge.putInbox (inboxAddress crypto.sha256 inboxKey) met.ip met.arrival request =
      .ok task)
    (hrun : task.run crypto limits met.clock db 8 = (db', task.at (.finished (.ok ())))) :
    publishViaBridge crypto limits identity inboxKey envelope ttlSeconds met db =
      (.ok (), db') := by
  have halone : Bridge.putInboxAlone crypto limits (inboxAddress crypto.sha256 inboxKey) met.ip
      met.arrival met.clock request db = (.ok (), db') := by
    rw [Bridge.putInboxAlone, hput]
    dsimp only
    rw [hrun]
    rfl
  have hanswer : publishToInbox crypto limits (deriveInboxScanKey crypto.sha256 .sha256 inboxKey)
      request met db = (.ok (), db') := by
    rw [publishToInbox, ← inboxAddress, halone]
    rfl
  rw [publishViaBridge, hrequest]
  dsimp only
  rw [hanswer]
  rfl

/-- The recipient with nothing cached reads a payload from the bridge. -/
def ReadsFromBridge (sha256 : Bytes → Bytes) (bridge : Bridge.View) (inboxKey payload : Bytes) :
    Prop :=
  ∀ state : LocalState, state.p2pInbox (inboxAddress sha256 inboxKey) = none →
    ∃ response state', resolveInboxFromState sha256 state inboxKey (some bridge) =
      (some (.ok response), state') ∧ payload ∈ response.items

/-- What is staged for a member is filed where the bytes of the member's id find it. -/
structure CachesAddressed (sha256 : Bytes → Bytes) (inboxKey : Bytes) (envelope : Envelope)
    (payload : Bytes) : Prop where
  p2p : ∀ (state state' : LocalState) (threadState : ThreadState) (sender member : String)
    (bridge : Option Bridge.View), member ∈ threadState.members → member ≠ sender →
    Hex.decode member = some inboxKey →
    stageP2pInboxDelivery sha256 state threadState sender envelope = (.ok (), state') →
    ∃ response state'', resolveInboxFromState sha256 state' inboxKey bridge =
      (some (.ok response), state'') ∧ payload ∈ response.items
  transport : ∀ (manifestJson : Codec ChunkManifest) (state state' : LocalState)
    (threadState : ThreadState) (sender member : String) (manifest : ChunkManifest)
    (chunks : List Chunk), member ∈ threadState.members → member ≠ sender →
    Hex.decode member = some inboxKey →
    stageTransportDelivery sha256 manifestJson state threadState sender manifest chunks =
      (.ok (), state') →
    ∃ items, state'.transportGossip (inboxAddress sha256 inboxKey) = some items ∧
      Base64.encode (manifestJson.toVec manifest) ∈ items ∧
      transportInboxHasItems sha256 state' inboxKey = true

theorem servedAt_of_decode (sha256 : Bytes → Bytes) {sender member : String}
    (hother : member ≠ sender) (hdecode : Hex.decode member = some inboxKey) :
    ServedAt sha256 sender (inboxAddress sha256 inboxKey) member :=
  ⟨hother, by rw [hdecode, Option.map_some]⟩

theorem cachesAddressed (sha256 : Bytes → Bytes) (inboxKey : Bytes)
    (hpayload : toCtap2CanonicalBytes envelope = .ok payload) :
    CachesAddressed sha256 inboxKey envelope payload where
  p2p := by
    intro state state' threadState sender member bridge hmember hother hdecode hstaged
    rw [stageP2pInboxDelivery, hpayload] at hstaged
    obtain ⟨hresult, rfl⟩ := Prod.mk.inj hstaged
    obtain ⟨items, hitems, hitem⟩ := mem_of_served (Prod.ext hresult rfl) hmember
      (servedAt_of_decode sha256 hother hdecode)
    exact ⟨_, _, resolveInboxFromState_cached hitems,
      List.mem_filterMap.mpr ⟨_, hitem, Base64.decode_encode payload⟩⟩
  transport := by
    intro manifestJson state state' threadState sender member manifest chunks hmember hother
      hdecode hstaged
    unfold stageTransportDelivery stageTransportDeliveryForMembers at hstaged
    dsimp only at hstaged
    split at hstaged
    · cases hstaged
    · rename_i transportGossip hfiled
      obtain ⟨-, rfl⟩ := Prod.mk.inj hstaged
      obtain ⟨items, hitems, hitem⟩ := mem_of_served hfiled hmember
        (servedAt_of_decode sha256 hother hdecode)
      exact ⟨items, hitems, hitem, transportInboxHasItems_of_mem hitems hitem⟩

/-- An envelope that was published reaches its recipient exactly if the key is its
own hash, or the inbox of the plain key held the same bytes before. -/
theorem bridge_delivers_iff {now expiresAt : UInt64}
    (hpayload : toCtap2CanonicalBytes envelope = .ok payload)
    (hpublish : publishViaBridge crypto limits identity inboxKey envelope ttlSeconds met db =
      (.ok (), db'))
    (hexpires : Bridge.computeInboxExpiration met.arrival ttlSeconds = .ok expiresAt)
    (hclock : expiresAt.toNat < 2 ^ 63) (hfresh : now < expiresAt)
    (hreadable : db.Readable limits) :
    ReadsFromBridge crypto.sha256 ⟨limits, db', now⟩ inboxKey payload ∧
        CachesAddressed crypto.sha256 inboxKey envelope payload ↔
      crypto.sha256 inboxKey = inboxKey ∨ Hex.encode inboxKey ∈ db.inboxKeys ∧
        payload ∈ (db.inboxRows (Hex.encode inboxKey) now).map Bridge.InboxItem.item := by
  obtain ⟨expiresAt', hexpires', hsize, hkeys, hitems⟩ := published_of_ok hpayload hpublish
  obtain rfl : expiresAt' = expiresAt := Except.ok.inj (hexpires'.symm.trans hexpires)
  have hfresh : Bridge.asI64 now < Bridge.asI64 expiresAt' := by
    have hlt := UInt64.lt_iff_toNat_lt.mp hfresh
    rw [Bridge.asI64_of_lt hclock, Bridge.asI64_of_lt (hlt.trans hclock)]
    exact_mod_cast hlt
  have hreadable' : db'.Readable limits := by
    rw [Bridge.Database.Readable, hitems]
    exact Bridge.readable_insert hreadable hsize
  have hsame : Hex.encode inboxKey = inboxAddress crypto.sha256 inboxKey ↔
      crypto.sha256 inboxKey = inboxKey :=
    ⟨fun h => (Hex.encode_injective h).symm, fun h => congrArg Hex.encode h.symm⟩
  have hreads : ReadsFromBridge crypto.sha256 ⟨limits, db', now⟩ inboxKey payload ↔
      Hex.encode inboxKey ∈ db'.inboxKeys ∧
        payload ∈ (db'.inboxRows (Hex.encode inboxKey) now).map Bridge.InboxItem.item :=
    ⟨fun h => (resolves_iff rfl hreadable').mp (h {} rfl),
      fun h state hcache => (resolves_iff hcache hreadable').mpr h⟩
  rw [and_iff_left (cachesAddressed crypto.sha256 inboxKey hpayload), hreads, hkeys,
    Bridge.mem_insertInboxKey, Bridge.mem_inboxRows_insert hitems hfresh, hsame,
    and_iff_left rfl, ← and_or_right, or_comm]

end Delivery

section Sample
open Bridge (sampleBridgeCrypto)

def publishEnvelope : Envelope := ⟨[1], 0, 0, requesterId, [2], none, ∅⟩

def publishSender : IdentityState :=
  ⟨Hex.encode requesterId, Hex.encode (List.replicate 32 7)⟩

def publishMet : Circumstances :=
  ⟨List.replicate 32 0x33, "unknown", requestTime, requestTime, requestTime⟩

def publishPayload : Bytes :=
  [0xa5, 0x00, 0x41, 0x01, 0x01, 0x00, 0x02, 0x00, 0x03, 0x58, 0x20] ++ requesterId ++
    [0x04, 0x41, 0x02]

def publishGrant : Bridge.GrantTokenPayload :=
  ⟨Base64.encode requesterId, 1, none, some 1700000300,
    Base64.encode requestVerifyingKey, Base64.encode datedGrant.signature⟩

def publishPuzzle : Bridge.PuzzlePayload :=
  ⟨Base64.encode recipientId, Base64.encode publishPuzzleInput,
    Base64.encode publishPuzzleOutput, some .minimum⟩

def emptyDatabase : Bridge.Database :=
  ⟨fun _ => none, fun _ => none, [], .empty, [], fun _ => none⟩

theorem publishPayload_eq : toCtap2CanonicalBytes publishEnvelope = .ok publishPayload := by
  decide

theorem generatePuzzleOutput_publish : generatePuzzleOutput sampleRequestCrypto recipientId
    publishPuzzleInput .minimum = .ok publishPuzzleOutput := by
  decide

theorem validatePowPuzzle_publish : validatePowPuzzle sampleRequestCrypto recipientId
    publishPuzzleInput publishPuzzleOutput .minimum .minimum = .ok () := by
  decide

theorem publishRequest_sample :
    publishRequest sampleBridgeCrypto publishSender recipientId publishEnvelope none
      publishMet =
        .ok ⟨⟨Base64.encode publishPayload, publishGrant, publishPuzzle⟩, none⟩ := by
  let grant : GrantToken := ⟨requesterId, 1, none, some 1700000300, ∅⟩
  have huser : hexDecode publishSender.userIdHex = .ok requesterId :=
    hexDecode_eq_ok.mpr (Hex.decode_encode _)
  have hkey : signingKeyFromHex publishSender.signingKeyHex = .ok (List.replicate 32 7) :=
    signingKeyFromHex_ok (Hex.decode_encode _) rfl
  have hhash : hashCtap2CborValue sampleBridgeCrypto.sha256 .sha256 grant =
      .ok datedGrant.digest := by
    decide
  refine bind_eq_ok.mpr ⟨_, mapError_eq_ok.mpr publishPayload_eq, ?_⟩
  refine bind_eq_ok.mpr ⟨_, huser, bind_eq_ok.mpr ⟨_, hkey, mapError_eq_ok.mpr ?_⟩⟩
  refine bind_eq_ok.mpr ⟨_, mapError_eq_ok.mpr hhash, ?_⟩
  refine bind_eq_ok.mpr ⟨_, mapError_eq_ok.mpr generatePuzzleOutput_publish, ?_⟩
  exact bind_eq_ok.mpr ⟨_, mapError_eq_ok.mpr validatePowPuzzle_publish, rfl⟩

/-- The task that the bridge runs for the sample. -/
def publishTask : Bridge.Task :=
  ⟨.inbox (inboxAddress sampleBridgeCrypto.sha256 recipientId) none, publishGrant,
    publishPuzzle, "unknown", publishPayload, Hex.encode requesterId, requestTime,
    .counting⟩

theorem checks_publishTask : publishTask.checks sampleBridgeCrypto {} requestTime ⟨0, 0, 0⟩ =
    .ok (.item (inboxAddress sampleBridgeCrypto.sha256 recipientId) 1700086400) := by
  have hgrant : Bridge.validateGrant sampleBridgeCrypto requestTime publishGrant = .ok () := by
    refine (Bridge.validateGrant_encode (by decide) (by decide)
      (by decide)).trans ?_
    decide
  have hpuzzle : Bridge.validatePuzzle sampleBridgeCrypto publishPuzzle .minimum = .ok () := by
    exact Bridge.validatePuzzle_encode.trans (mapError_eq_ok.mpr validatePowPuzzle_publish)
  have hsize : publishPayload.length ≤ Bridge.maxInboxItemBytes := by decide
  have hadmits : Bridge.Admits {} 0 0 publishPayload.length := by decide
  have hexpires : Bridge.computeInboxExpiration requestTime none = .ok 1700086400 := by decide
  exact (Bridge.checks_inbox rfl).mpr ⟨hsize, hadmits, hgrant, hpuzzle, _, hexpires, rfl⟩

/-- The sample is published by a bridge that has not seen a request. -/
theorem publish_sample (db : Bridge.Database) (hlogs : db.requestLogs = [])
    (hscores : db.identityReputation = fun _ => none) :
    ∃ db', publishViaBridge sampleBridgeCrypto {} publishSender recipientId
      publishEnvelope none publishMet db = (.ok (), db') := by
  obtain ⟨db', hrun, -⟩ := Bridge.run_item db checks_publishTask
  have hcount : db.countRecent publishTask.identity
      (Bridge.windowStart {} publishTask.now) = some (0, 0) := by
    simp [Bridge.Database.countRecent, Bridge.Database.recent, hlogs]
  have hscore : db.score publishTask.identity = 0 := by
    simp [Bridge.Database.score, hscores]
  have hcounted : publishTask.run sampleBridgeCrypto {} requestTime db 8 =
      (publishTask.at (.validating ⟨0, 0, 0⟩)).run sampleBridgeCrypto {} requestTime db 6 := by
    rw [← hscore]
    exact Bridge.run_counted hcount 6
  exact ⟨db', publishViaBridge_of_run publishRequest_sample (Bridge.startPut_encode rfl)
    (hcounted.trans hrun)⟩

/-- A bridge whose inbox of the plain key holds the same bytes already. -/
def knownDatabase : Bridge.Database :=
  { emptyDatabase with
    inboxKeys := [Hex.encode recipientId]
    inboxItems := .insert .empty (Hex.encode recipientId) publishPayload none }

theorem bridge_delivers_known : ∃ db', publishViaBridge sampleBridgeCrypto {} publishSender
      recipientId publishEnvelope none publishMet knownDatabase = (.ok (), db') ∧
    ReadsFromBridge sampleBridgeCrypto.sha256 ⟨{}, db', requestTime⟩ recipientId
      publishPayload ∧
    CachesAddressed sampleBridgeCrypto.sha256 recipientId publishEnvelope
      publishPayload := by
  obtain ⟨db', hpublish⟩ := publish_sample knownDatabase rfl rfl
  have hreadable : knownDatabase.Readable {} := by
    have hempty : emptyDatabase.Readable {} := fun row hrow => absurd hrow List.not_mem_nil
    exact Bridge.readable_insert hempty (by decide)
  have hexpires : Bridge.computeInboxExpiration publishMet.arrival none = .ok 1700086400 := by
    decide
  have hheld : publishPayload ∈ (knownDatabase.inboxRows (Hex.encode recipientId)
      requestTime).map Bridge.InboxItem.item := by
    simp [Bridge.Database.inboxRows, knownDatabase, Bridge.InboxTable.insert,
      Bridge.InboxTable.empty]
  exact ⟨db', hpublish, (bridge_delivers_iff publishPayload_eq hpublish hexpires (by decide)
    (by decide) hreadable).mpr (.inr ⟨List.mem_singleton_self _, hheld⟩)⟩

/-- A publication on a fresh bridge succeeds, and the recipient's read fails. -/
theorem published_not_read : ∃ db',
    toCtap2CanonicalBytes publishEnvelope = .ok publishPayload ∧
    publishViaBridge sampleBridgeCrypto {} publishSender recipientId publishEnvelope none
      publishMet emptyDatabase = (.ok (), db') ∧
    Bridge.computeInboxExpiration requestTime none = .ok 1700086400 ∧
    resolveInboxFromState sampleBridgeCrypto.sha256 {} recipientId
      (some ⟨{}, db', requestTime⟩) = (some (.error (.returned (.transport none))), {}) := by
  obtain ⟨db', hpublish⟩ := publish_sample emptyDatabase rfl rfl
  obtain ⟨_, -, -, hkeys, -⟩ := published_of_ok publishPayload_eq hpublish
  have hother : sampleBridgeCrypto.sha256 recipientId ≠ recipientId := by
    decide
  have hunknown : Hex.encode recipientId ∉ db'.inboxKeys := by
    rw [hkeys, Bridge.mem_insertInboxKey, not_or]
    exact ⟨List.not_mem_nil, fun h => hother (Hex.encode_injective h).symm⟩
  refine ⟨db', publishPayload_eq, hpublish, by decide, ?_⟩
  rw [resolveInboxFromState]
  dsimp only
  rw [scanInbox_unknown hunknown]
  rfl

end Sample

end Spex
