import Spex.FailedPuts
import Spex.InboxScan
import Spex.SignedGrants
import Spex.StoredRows

/-!
# Requests that the bridge accepts

A client builds a request to publish an envelope, and the bridge runs it between
the statements of other requests. The request is accepted if the limits leave room
for it, its work is enough and its grant has not expired. The time at which the item
expires is a word that the table keeps as an `i64`, so an item that is put before
the end of that range and expires after it is not found again.
-/
namespace Spex
open Fallible Transcript

namespace Bridge

/-- The number of statements that a request for an inbox has left to run. -/
def Phase.left : Phase → ℕ
  | .counting => 8
  | .scoring _ _ => 7
  | .validating _ => 6
  | .storing _ => 5
  | .storingItem _ _ => 4
  | .logging _ => 3
  | .readingScore _ => 2
  | .writingScore _ _ => 1
  | .finished _ => 0

/-- The inbox is known and has a row for an item. -/
structure Database.HasItem (db : Database) (inboxKey : String) (item : Bytes)
    (expiresAt : UInt64) : Prop where
  known : inboxKey ∈ db.inboxKeys
  row : ∃ row ∈ db.inboxItems.items, row.inboxKey = inboxKey ∧ row.item = item ∧
    row.expiresAt = some (asI64 expiresAt)

/-- What a request whose checks pass has stored in each of its phases. -/
def Phase.OnTrack (db : Database) (inboxKey : String) (item : Bytes) (expiresAt : UInt64) :
    Phase → Prop
  | .counting | .scoring _ _ | .validating _ => True
  | .storing write => write = .item inboxKey expiresAt
  | .storingItem key expiry => key = inboxKey ∧ expiry = expiresAt ∧ inboxKey ∈ db.inboxKeys
  | .logging result | .readingScore result | .writingScore result _ | .finished result =>
    result = .ok () ∧ db.HasItem inboxKey item expiresAt

def Event.advances (index : ℕ) (event : Event) : Bool :=
  match event.action with
  | .advance other => other = index
  | _ => false

/-- No statement of a request fails, and what its checks find admits it. -/
def Undisturbed (limits : RateLimitConfig) (admits : UInt64 → RateLimitSnapshot → Prop)
    (index : ℕ) (server : Server) (event : Event) : Prop :=
  (∀ failed, event.action = .fail failed → failed ≠ index) ∧
    (event.advances index → ∀ task ∈ server.tasks[index]?,
      (task.phase = .counting →
        (server.db.countRecent task.identity (windowStart limits task.now)).isSome) ∧
      ∀ snapshot, task.phase = .validating snapshot → admits event.clock snapshot)

/-- A request is on its way to its answer. -/
def Server.Tracks (server : Server) (index : ℕ) (task : Task) (inboxKey : String)
    (expiresAt : UInt64) (left : ℕ) : Prop :=
  ∃ phase, server.tasks[index]? = some (task.at phase) ∧
    phase.OnTrack server.db inboxKey task.data expiresAt ∧ phase.left = left

section Tracking
variable {crypto : BridgeCrypto} {limits : RateLimitConfig} {clock : UInt64} {db db' : Database}
  {task : Task} {phase : Phase} {inboxKey : String} {item : Bytes} {expiresAt : UInt64}
  {admits : UInt64 → RateLimitSnapshot → Prop} {index left : ℕ} {server : Server} {event : Event}

theorem Database.HasItem.grows (h : db.HasItem inboxKey item expiresAt)
    (hgrows : InboxGrows db db') : db'.HasItem inboxKey item expiresAt := by
  obtain ⟨row, hrow, hfields⟩ := h.row
  exact ⟨hgrows.keys h.known, row, hgrows.items hrow, hfields⟩

theorem Phase.OnTrack.grows (h : phase.OnTrack db inboxKey item expiresAt)
    (hgrows : InboxGrows db db') : phase.OnTrack db' inboxKey item expiresAt := by
  cases phase with
  | storingItem key expiry => exact ⟨h.1, h.2.1, hgrows.keys h.2.2⟩
  | logging result => exact ⟨h.1, h.2.grows hgrows⟩
  | readingScore result => exact ⟨h.1, h.2.grows hgrows⟩
  | writingScore result current => exact ⟨h.1, h.2.grows hgrows⟩
  | finished result => exact ⟨h.1, h.2.grows hgrows⟩
  | _ => exact h

theorem hasItem_insert (hknown : inboxKey ∈ db.inboxKeys) (item : Bytes) (expiresAt : UInt64) :
    (db.insertInboxItem inboxKey item expiresAt).HasItem inboxKey item expiresAt :=
  ⟨hknown, _, List.mem_append_right _ (List.mem_singleton_self _), rfl, rfl, rfl⟩

/-- The next statement of a request on its way. -/
theorem onTrack_advance (h : phase.OnTrack db inboxKey task.data expiresAt)
    (hcount : phase = .counting →
      (db.countRecent task.identity (windowStart limits task.now)).isSome)
    (hchecks : ∀ snapshot, phase = .validating snapshot →
      task.checks crypto limits clock snapshot = .ok (.item inboxKey expiresAt)) :
    let next := (task.at phase).advance crypto limits clock db
    ∃ phase', next.2 = task.at phase' ∧ phase'.OnTrack next.1 inboxKey task.data expiresAt ∧
      phase'.left = phase.left - 1 := by
  cases phase with
  | counting =>
    obtain ⟨counts, hcounts⟩ := Option.isSome_iff_exists.mp (hcount rfl)
    have hnext : (task.at .counting).advance crypto limits clock db =
        (db, task.at (.scoring counts.1 counts.2)) := advance_counted rfl hcounts
    rw [hnext]
    exact ⟨_, rfl, trivial, rfl⟩
  | scoring recentRequests recentBytes => exact ⟨_, rfl, trivial, rfl⟩
  | validating snapshot =>
    have hnext : (task.at (.validating snapshot)).advance crypto limits clock db =
        (db, task.at (.storing (.item inboxKey expiresAt))) :=
      advance_passed rfl (hchecks snapshot rfl)
    rw [hnext]
    exact ⟨_, rfl, rfl, rfl⟩
  | storing write =>
    obtain rfl : write = .item inboxKey expiresAt := h
    exact ⟨_, rfl, ⟨rfl, rfl, mem_insertInboxKey.mpr (.inr rfl)⟩, rfl⟩
  | storingItem key expiry =>
    obtain ⟨rfl, rfl, hknown⟩ := h
    exact ⟨_, rfl, ⟨rfl, hasItem_insert hknown task.data expiry⟩, rfl⟩
  | logging result => exact ⟨_, rfl, ⟨h.1, h.2.known, h.2.row⟩, rfl⟩
  | readingScore result => exact ⟨_, rfl, h, rfl⟩
  | writingScore result current => exact ⟨_, rfl, ⟨h.1, h.2.known, h.2.row⟩, rfl⟩
  | finished result => exact ⟨_, rfl, h, rfl⟩

theorem answer_of_left (h : phase.OnTrack db inboxKey item expiresAt) (hleft : phase.left = 0) :
    (task.at phase).answer = some (.ok ()) := by
  cases phase with
  | finished result =>
    obtain ⟨rfl, -⟩ := h
    rfl
  | _ => cases hleft

theorem action_of_advances (h : event.advances index) : event.action = .advance index := by
  unfold Event.advances at h
  split at h
  · rename_i other haction
    rw [haction, of_decide_eq_true h]
  · cases h

/-- An event brings a request that is on its way one statement further, or leaves it
where it is. -/
theorem tracks_step (h : server.Tracks index task inboxKey expiresAt left)
    (hturn : Undisturbed limits admits index server event)
    (hpass : ∀ clock snapshot, admits clock snapshot →
      task.checks crypto limits clock snapshot = .ok (.item inboxKey expiresAt)) :
    (server.step crypto limits event).2.Tracks index task inboxKey expiresAt
        (left - if event.advances index then 1 else 0) ∧
      (event.advances index → left ≤ 1 →
        (server.step crypto limits event).1 = some (.ok ())) := by
  obtain ⟨phase, hget, htrack, rfl⟩ := h
  have hgrows : InboxGrows server.db (server.step crypto limits event).2.db :=
    inboxGrows_step server event
  by_cases hadvances : event.advances index
  · have haction := action_of_advances hadvances
    obtain ⟨hcount, hadmits⟩ := hturn.2 hadvances _ hget
    obtain ⟨phase', hphase, htrack', hleft⟩ := onTrack_advance htrack hcount
      fun snapshot hsnapshot => hpass event.clock snapshot (hadmits snapshot hsnapshot)
    rw [step_of_advance haction hget, if_pos hadvances]
    refine ⟨⟨phase', ?_, htrack', hleft⟩, fun _ hlast => ?_⟩
    · rw [getElem?_set_of_some hget, hphase]
    · rw [hphase]
      exact answer_of_left htrack' (by omega)
  · rw [if_neg hadvances]
    refine ⟨⟨phase, getElem?_step_of_ne hget fun hstatement => ?_, htrack.grows hgrows, rfl⟩,
      fun h => absurd h hadvances⟩
    rcases statement_eq_some.mp hstatement with haction | haction
    · simp [Event.advances, haction] at hadvances
    · exact hturn.1 index haction rfl

/-- A request that is not disturbed is answered after as many of its statements as
it had left. -/
theorem tracks_run {events : List Event} (h : server.Tracks index task inboxKey expiresAt left)
    (hturns : ∀ turn ∈ serverRun crypto limits server events,
      Undisturbed limits admits index turn.before turn.input)
    (hpass : ∀ clock snapshot, admits clock snapshot →
      task.checks crypto limits clock snapshot = .ok (.item inboxKey expiresAt)) :
    (final (Server.step crypto limits) server events).Tracks index task inboxKey expiresAt
        (left - events.countP (Event.advances index)) ∧
      (0 < left → left ≤ events.countP (Event.advances index) →
        Answered index (.ok ()) (serverRun crypto limits server events)) := by
  induction events generalizing server left with
  | nil => exact ⟨h, fun hpos hle => absurd (hpos.trans_le hle) (lt_irrefl 0)⟩
  | cons event events ih =>
    rw [serverRun, transcript_cons, List.forall_mem_cons] at hturns
    have hturn : Undisturbed limits admits index server event := hturns.1
    obtain ⟨htracks, hanswer⟩ := tracks_step h hturn hpass
    obtain ⟨hfinal, hanswered⟩ := ih htracks hturns.2
    rw [final_cons, List.countP_cons]
    refine ⟨?_, fun hpos hle => ?_⟩
    · rwa [Nat.sub_sub, Nat.add_comm] at hfinal
    by_cases hlast : event.advances index ∧ left ≤ 1
    · have hstatement : event.statement = some index := by
        rw [Event.statement, action_of_advances hlast.1]
      exact ⟨_, List.mem_cons_self, hstatement, hanswer hlast.1 hlast.2⟩
    · have hrest : 0 < left - if event.advances index then 1 else 0 := by
        split_ifs with hadvances
        · have hmore : ¬ left ≤ 1 := fun hle => hlast ⟨hadvances, hle⟩
          omega
        · exact hpos
      obtain ⟨turn, hmem, hturn⟩ := hanswered hrest (by omega)
      exact ⟨turn, List.mem_cons_of_mem _ hmem, hturn⟩

/-- What a request that runs alone is going to find. -/
def Ready (limits : RateLimitConfig) (admits : UInt64 → RateLimitSnapshot → Prop)
    (clock : UInt64) (db : Database) (task : Task) : Prop :=
  match task.phase with
  | .counting => ∃ counts ∈ db.countRecent task.identity (windowStart limits task.now),
      admits clock ⟨counts.1, counts.2, db.score task.identity⟩
  | .scoring recentRequests recentBytes =>
    admits clock ⟨recentRequests, recentBytes, db.score task.identity⟩
  | .validating snapshot => admits clock snapshot
  | _ => True

theorem ready_advance (h : Ready limits admits clock db task) :
    Ready limits admits clock (task.advance crypto limits clock db).1
      (task.advance crypto limits clock db).2 := by
  generalize hnext : task.advance crypto limits clock db = next
  cases statement_advance hnext with
  | counted recentRequests recentBytes hphase hcount =>
    simp only [Ready, hphase, hcount, Option.mem_def, Option.some.injEq, exists_eq_left'] at h
    exact h
  | scored recentRequests recentBytes hphase =>
    simp only [Ready, hphase] at h
    exact h
  | rested result hphase => exact h
  | _ => exact trivial

theorem undisturbed_of_ready (h : Ready limits admits clock db task) :
    Undisturbed limits admits 0 ⟨db, [task]⟩ ⟨clock, .advance 0⟩ := by
  refine ⟨fun failed haction => Action.noConfusion haction, fun _ other hother => ?_⟩
  obtain rfl : task = other := Option.some.inj hother
  refine ⟨fun hphase => ?_, fun snapshot hphase => ?_⟩
  · simp only [Ready, hphase] at h
    obtain ⟨counts, hcounts, -⟩ := h
    exact Option.isSome_of_mem hcounts
  · simp only [Ready, hphase] at h
    exact h

/-- A request that runs alone and is admitted is not disturbed. -/
theorem undisturbed_alone {now : UInt64} {ip : String} {payload : InboxStoreRequest}
    (hput : putInbox inboxKey ip now payload = .ok task)
    (hready : Ready limits admits clock db task) (steps : ℕ) :
    ∀ turn ∈ serverRun crypto limits ⟨db, []⟩
        (⟨now, .putInbox inboxKey ip payload⟩ :: List.replicate steps ⟨clock, .advance 0⟩),
      Undisturbed limits admits 0 turn.before turn.input := by
  have harrived : (Server.step crypto limits ⟨db, []⟩ ⟨now, .putInbox inboxKey ip payload⟩).2 =
      ⟨db, [task]⟩ := by
    simp only [Server.step, hput]
    rfl
  rw [serverRun, transcript_cons, List.forall_mem_cons, harrived]
  refine ⟨⟨fun failed haction => Action.noConfusion haction, fun h => Bool.noConfusion h⟩,
    fun turn hturn => ?_⟩
  let alone := fun server : Server =>
    ∃ task, server.tasks = [task] ∧ Ready limits admits clock server.db task
  have halone : alone turn.before := by
    refine (invariant alone ⟨task, rfl, hready⟩ fun turn hturn hbefore => ?_).1 turn hturn
    obtain ⟨acting, hacting, hready⟩ := hbefore
    have hget : turn.before.tasks[0]? = some acting := by rw [hacting]; rfl
    rw [after_eq hturn, List.eq_of_mem_replicate (input_mem hturn), step_advance hget, hacting]
    exact ⟨_, rfl, ready_advance hready⟩
  obtain ⟨acting, hacting, hready⟩ := halone
  rw [List.eq_of_mem_replicate (input_mem hturn)]
  have hserver : turn.before = ⟨turn.before.db, [acting]⟩ := by rw [← hacting]
  rw [hserver]
  exact undisturbed_of_ready hready

end Tracking

section Dating
variable {crypto : BridgeCrypto} {limits : RateLimitConfig}

/-- The rows that are added expire at a time that the table can hold. -/
def Dated (db db' : Database) : Prop :=
  ∀ row ∈ db'.inboxItems.items, row ∈ db.inboxItems.items ∨
    ∃ expiresAt : UInt64, row.expiresAt = some (asI64 expiresAt)

theorem Dated.of_eq {db db' db'' : Database} (h : Dated db db')
    (hitems : db''.inboxItems = db'.inboxItems) : Dated db db'' := by
  rw [Dated, hitems]
  exact h

theorem dated_advance {db : Database} (clock : UInt64) (db' : Database) (task : Task)
    (h : Dated db db') : Dated db (task.advance crypto limits clock db').1 := by
  generalize hnext : task.advance crypto limits clock db' = next
  cases statement_advance hnext with
  | storedKey inboxKey expiresAt hphase => exact h.of_eq (insertInboxKey_inboxItems db' inboxKey)
  | storedItem inboxKey expiresAt hphase =>
    intro row hrow
    rcases List.mem_append.mp hrow with hold | hnew
    · exact h row hold
    · rw [List.mem_singleton.mp hnew]
      exact .inr ⟨expiresAt, rfl⟩
  | _ => exact h.of_eq rfl

theorem dated_run (server : Server) (events : List Event) :
    Dated server.db (final (Server.step crypto limits) server events).db :=
  db_final crypto limits (fun _ => .inl) dated_advance events

theorem asI64_le (n : UInt64) : asI64 n ≤ 2 ^ 63 - 1 := by
  have hle := Int64.toInt_le n.toInt64
  rw [asI64]
  exact hle

theorem asI64_of_le {n : UInt64} (h : 2 ^ 63 ≤ n.toNat) : asI64 n = n.toNat - 2 ^ 64 := by
  have hmsb : 2 ^ 64 ≤ 2 * n.toBitVec.toNat := by
    rw [UInt64.toNat_toBitVec]
    omega
  rw [asI64, ← Int64.toInt_toBitVec, UInt64.toBitVec_toInt64, BitVec.toInt_eq_toNat_cond,
    if_neg (by omega), UInt64.toNat_toBitVec]
  rfl

/-- The order of words is kept on either side of the end of the range of an `i64`. -/
theorem asI64_lt {now time expiresAt : UInt64} (hnow : now ≤ time) (htime : time < expiresAt)
    (hside : expiresAt.toNat < 2 ^ 63 ∨ 2 ^ 63 ≤ now.toNat) : asI64 time < asI64 expiresAt := by
  rw [UInt64.le_iff_toNat_le] at hnow
  rw [UInt64.lt_iff_toNat_lt] at htime
  rcases hside with hbefore | hafter
  · rw [asI64_of_lt hbefore, asI64_of_lt (htime.trans hbefore)]
    omega
  · rw [asI64_of_le (hafter.trans hnow), asI64_of_le (hafter.trans (hnow.trans htime.le))]
    omega

/-- The last time of an `i64`. -/
def lastTime : UInt64 := 9223372036854775807

end Dating

end Bridge

/-- A puzzle that is valid for one minimum is valid for every minimum that its
parameters reach. -/
theorem validatePowPuzzle_of_reaches {crypto : RequestCrypto}
    {recipientKey puzzleInput puzzleOutput : Bytes} {params minimum minimum' : PowParams}
    (h : validatePowPuzzle crypto recipientKey puzzleInput puzzleOutput params minimum = .ok ())
    (hreaches : Bridge.AtLeast minimum' params) :
    validatePowPuzzle crypto recipientKey puzzleInput puzzleOutput params minimum' = .ok () := by
  rw [validatePowPuzzle] at h
  split_ifs at h
  rw [validatePowPuzzle, if_neg]
  · exact h
  · simp only [not_or, UInt32.not_lt, UInt64.not_lt]
    exact ⟨hreaches.memoryKib, hreaches.iterations, hreaches.parallelism, hreaches.outputLen⟩

namespace BridgeEnvelopePublishInput

def ttl (input : BridgeEnvelopePublishInput) : UInt64 :=
  input.inboxTtlSeconds.getD Bridge.defaultInboxTtlSeconds

/-- The time at which an item that is put at a time expires. -/
def expiry (input : BridgeEnvelopePublishInput) (now : UInt64) : UInt64 := now + input.ttl

structure WellFormed (input : BridgeEnvelopePublishInput) (now : UInt64) : Prop where
  size : input.envelope.length ≤ Bridge.maxInboxItemBytes
  lifetime : ∀ ttl ∈ input.inboxTtlSeconds, 1 ≤ ttl ∧ ttl ≤ Bridge.maxInboxTtlSeconds
  expires : now.toNat + input.ttl.toNat < 2 ^ 64

/-- The limits leave room for the envelope, the work is enough and the grant has not
expired. -/
structure Admissible (limits : Bridge.RateLimitConfig) (input : BridgeEnvelopePublishInput)
    (clock : UInt64) (snapshot : Bridge.RateLimitSnapshot) : Prop where
  room : Bridge.Admits limits snapshot.recentRequests snapshot.recentBytes input.envelope.length
  work : Bridge.AtLeast (Bridge.requiredPowParams snapshot limits) input.powParams
  fresh : clock < Saturating.add input.nowUnix input.grantTtlSeconds

end BridgeEnvelopePublishInput

section Building
variable {crypto : Bridge.BridgeCrypto} {limits : Bridge.RateLimitConfig}
  {signingKey nonce : Bytes} {input : BridgeEnvelopePublishInput}
  {request : Bridge.InboxStoreRequest} {now clock : UInt64}

/-- The task that the bridge runs for a request. -/
def builtTask (inboxKey ip : String) (now : UInt64) (input : BridgeEnvelopePublishInput)
    (request : Bridge.InboxStoreRequest) : Bridge.Task :=
  ⟨.inbox inboxKey input.inboxTtlSeconds, request.grant, request.puzzle, ip, input.envelope,
    Hex.encode input.senderUserId, now, .counting⟩

theorem putInbox_built (h : buildBridgePublishRequest crypto signingKey nonce input = .ok request)
    (inboxKey ip : String) (now : UInt64) :
    Bridge.putInbox inboxKey ip now request = .ok (builtTask inboxKey ip now input request) := by
  obtain ⟨grantBytes, puzzleOutput, -, -, -, rfl⟩ := buildBridgePublishRequest_eq_ok.mp h
  exact Bridge.startPut_encode rfl

theorem computeInboxExpiration_of_wellFormed (h : input.WellFormed now) :
    Bridge.computeInboxExpiration now input.inboxTtlSeconds = .ok (input.expiry now) := by
  have hlifetime : ¬ (input.ttl = 0 ∨ Bridge.maxInboxTtlSeconds < input.ttl) := by
    have hbounds : 1 ≤ input.ttl ∧ input.ttl ≤ Bridge.maxInboxTtlSeconds := by
      unfold BridgeEnvelopePublishInput.ttl
      cases httl : input.inboxTtlSeconds with
      | none => decide
      | some ttl => exact h.lifetime ttl httl
    rw [not_or, UInt64.not_lt]
    refine ⟨fun hzero => ?_, hbounds.2⟩
    rw [hzero] at hbounds
    exact absurd hbounds.1 (by decide)
  exact (if_neg hlifetime).trans (if_pos h.expires)

/-- The checks of the bridge pass on a request as the client builds it. -/
theorem checks_built (hscheme : crypto.SignsCorrectly) (hlength : signingKey.length = 32)
    (hbuild : buildBridgePublishRequest crypto signingKey nonce input = .ok request)
    (hform : input.WellFormed now) {snapshot : Bridge.RateLimitSnapshot}
    (hadmissible : input.Admissible limits clock snapshot) (inboxKey ip : String) :
    (builtTask inboxKey ip now input request).checks crypto limits clock snapshot =
      .ok (.item inboxKey (input.expiry now)) := by
  obtain ⟨grantBytes, puzzleOutput, hbytes, -, hvalid, rfl⟩ :=
    buildBridgePublishRequest_eq_ok.mp hbuild
  have htoken : validateGrantToken crypto.sha256 crypto.verifyStrict clock input.grant
      (crypto.verifyKey signingKey) (crypto.sign signingKey (crypto.sha256 grantBytes)) =
        .ok () := by
    refine (validateGrantToken_eq_ok _ _).mpr ⟨fun expiresAt hexpires => ?_, grantBytes, hbytes,
      hscheme.verifies _ _ hlength⟩
    rw [← Option.some.inj hexpires]
    exact hadmissible.fresh
  have hgrant : Bridge.validateGrant crypto clock
      (builtRequest crypto signingKey nonce input (crypto.sha256 grantBytes)
        puzzleOutput).grant = .ok () := by
    refine (Bridge.validateGrant_encode (hscheme.keyLength _ hlength)
      (hscheme.keyValid _ hlength) (hscheme.signatureLength _ _ hlength)).trans ?_
    exact mapError_eq_ok.mpr htoken
  have hpuzzle : Bridge.validatePuzzle crypto
      (builtRequest crypto signingKey nonce input (crypto.sha256 grantBytes) puzzleOutput).puzzle
      (Bridge.requiredPowParams snapshot limits) = .ok () := by
    refine Bridge.validatePuzzle_encode.trans (mapError_eq_ok.mpr ?_)
    exact validatePowPuzzle_of_reaches hvalid hadmissible.work
  exact (Bridge.checks_inbox rfl).mpr ⟨hform.size, hadmissible.room, hgrant, hpuzzle, _,
    computeInboxExpiration_of_wellFormed hform, rfl⟩

end Building

/-- Every scan of an inbox that reads its pages before a time ends and returns an
envelope, whatever is put between its pages. -/
def FoundUntil (crypto : Bridge.BridgeCrypto) (limits : Bridge.RateLimitConfig)
    (server : Bridge.Server) (inboxScanKey envelope : Bytes) (now expiresAt : UInt64) : Prop :=
  ∀ timeline : Bridge.Timeline, (∃ last, ∀ page, last ≤ page → timeline.gaps page = []) →
    (∀ page, now ≤ timeline.clocks page ∧ timeline.clocks page < expiresAt) →
    ∃ (pages : ℕ) (response : InboxScanResponse), envelope ∈ response.items ∧
      ∀ fuel, pages ≤ fuel → scanInboxDuring (timeline.view crypto limits server) inboxScanKey
        fuel = some (.ok response)

section Finding
variable {crypto : Bridge.BridgeCrypto} {limits : Bridge.RateLimitConfig} {server : Bridge.Server}
  {inboxScanKey envelope : Bytes} {now expiresAt : UInt64} {db : Database}

theorem foundUntil_of_row (hreadable : server.Readable limits)
    (hknown : Hex.encode inboxScanKey ∈ server.db.inboxKeys) {row : Bridge.InboxItem}
    (hrow : row ∈ server.db.inboxItems.items) (hinbox : row.inboxKey = Hex.encode inboxScanKey)
    (hitem : row.item = envelope)
    (hfresh : ∀ time, now ≤ time → time < expiresAt → ∀ expiry ∈ row.expiresAt,
      Bridge.asI64 time < expiry) :
    FoundUntil crypto limits server inboxScanKey envelope now expiresAt := by
  intro timeline hfinite hclocks
  obtain ⟨pages, rows, hgathered, hscan⟩ := scan_gathers crypto hreadable hknown hfinite
  have hmem : row ∈ rows := by
    refine mem_gathered hgathered ((Bridge.inboxGrows_final server (timeline.gaps 0)).items hrow)
      hinbox fun page _ => ?_
    exact hfresh _ (hclocks page).1 (hclocks page).2
  refine ⟨pages, ⟨rows.map Bridge.InboxItem.item, .bridge⟩, ?_, fun fuel hfuel => ?_⟩
  · rw [← hitem]
    exact List.mem_map_of_mem hmem
  · rw [hscan, if_pos hfuel]

/-- What is found at a time is in a row that is visible then. -/
theorem visible_of_foundUntil (hreadable : server.Readable limits)
    (hknown : Hex.encode inboxScanKey ∈ server.db.inboxKeys) {time : UInt64}
    (hnow : now ≤ time) (htime : time < expiresAt)
    (h : FoundUntil crypto limits server inboxScanKey envelope now expiresAt) :
    envelope ∈ (server.db.inboxRows (Hex.encode inboxScanKey) time).map
      Bridge.InboxItem.item := by
  let still : Bridge.Timeline := ⟨fun _ => [], fun _ => time⟩
  have hfinite : ∃ last, ∀ page, last ≤ page → still.gaps page = [] := ⟨0, fun _ _ => rfl⟩
  obtain ⟨pages, response, hitem, hscan⟩ := h still hfinite fun _ => ⟨hnow, htime⟩
  obtain ⟨pages', rows, hgathered, hscan'⟩ := scan_gathers crypto hreadable hknown hfinite
  have hsame := (hscan (max pages pages') (le_max_left _ _)).symm.trans (hscan' (max pages pages'))
  rw [if_pos (le_max_right _ _)] at hsame
  obtain rfl : response = ⟨rows.map Bridge.InboxItem.item, .bridge⟩ :=
    Except.ok.inj (Option.some.inj hsame)
  obtain ⟨row, hrow, hrowItem⟩ := List.mem_map.mp hitem
  obtain ⟨page, -, -, hvisible⟩ := hgathered.seen row hrow
  have hserver : still.server crypto limits server page = server :=
    Bridge.timeline_stays (fun _ _ => rfl) (Nat.zero_le page)
  refine List.mem_map.mpr ⟨row, ?_, hrowItem⟩
  have hview : still.view crypto limits server page = ⟨limits, server.db, time⟩ := by
    rw [Bridge.Timeline.view, hserver]
  rw [hview] at hvisible
  exact hvisible

open Bridge in
/-- What is found across the end of the range of an `i64` was there before, since no
row that is added is visible at the end of that range. -/
theorem held_of_foundUntil (hreadable : server.Readable limits)
    (hknown : Hex.encode inboxScanKey ∈ server.db.inboxKeys) (hdated : Dated db server.db)
    (hnow : now.toNat < 2 ^ 63) (hexpires : 2 ^ 63 ≤ expiresAt.toNat)
    (hfound : FoundUntil crypto limits server inboxScanKey envelope now expiresAt) :
    envelope ∈ (db.inboxRows (Hex.encode inboxScanKey) lastTime).map InboxItem.item := by
  have htime : lastTime.toNat = 2 ^ 63 - 1 := by decide
  have hlast : asI64 lastTime = 2 ^ 63 - 1 := by decide
  have hlater : now ≤ lastTime := by
    rw [UInt64.le_iff_toNat_le]
    omega
  have hbefore : lastTime < expiresAt := by
    rw [UInt64.lt_iff_toNat_lt]
    omega
  obtain ⟨row, hrow, hbytes⟩ := List.mem_map.mp
    (visible_of_foundUntil hreadable hknown hlater hbefore hfound)
  obtain ⟨hmem, hvisible⟩ := List.mem_filter.mp hrow
  refine List.mem_map.mpr ⟨row, List.mem_filter.mpr ⟨?_, hvisible⟩, hbytes⟩
  rcases hdated row hmem with hold | ⟨expiry, hexpiry⟩
  · exact hold
  · have hfresh := (of_decide_eq_true hvisible).2 _ hexpiry
    have hle := asI64_le expiry
    omega

open Bridge in
/-- A row that is visible at the end of the range of an `i64` is always found. -/
theorem foundUntil_of_held (hreadable : server.Readable limits)
    (hknown : Hex.encode inboxScanKey ∈ server.db.inboxKeys) (hgrows : InboxGrows db server.db)
    (hheld : envelope ∈ (db.inboxRows (Hex.encode inboxScanKey) lastTime).map InboxItem.item) :
    FoundUntil crypto limits server inboxScanKey envelope now expiresAt := by
  have hlast : asI64 lastTime = 2 ^ 63 - 1 := by decide
  obtain ⟨row, hrow, hbytes⟩ := List.mem_map.mp hheld
  obtain ⟨hmem, hvisible⟩ := List.mem_filter.mp hrow
  obtain ⟨hinbox, hvisible⟩ := of_decide_eq_true hvisible
  refine foundUntil_of_row hreadable hknown (hgrows.items hmem) hinbox hbytes ?_
  intro time _ _ expiry hexpiry
  have hfresh := hvisible expiry hexpiry
  have hle := asI64_le time
  omega

open Bridge in
/-- An item that has been put is found until it expires exactly if its lifetime does
not cross the end of the range of an `i64`, or if the inbox held the same bytes in a
row that is visible at the end of that range. -/
theorem foundUntil_iff (hreadable : server.Readable limits)
    (hitem : server.db.HasItem (Hex.encode inboxScanKey) envelope expiresAt)
    (hgrows : InboxGrows db server.db) (hdated : Dated db server.db) :
    FoundUntil crypto limits server inboxScanKey envelope now expiresAt ↔
      expiresAt.toNat < 2 ^ 63 ∨ 2 ^ 63 ≤ now.toNat ∨
        envelope ∈ (db.inboxRows (Hex.encode inboxScanKey) lastTime).map InboxItem.item := by
  rw [← or_assoc]
  constructor
  · intro hfound
    by_cases hside : expiresAt.toNat < 2 ^ 63 ∨ 2 ^ 63 ≤ now.toNat
    · exact .inl hside
    · rw [not_or, Nat.not_lt, Nat.not_le] at hside
      exact .inr (held_of_foundUntil hreadable hitem.known hdated hside.2 hside.1 hfound)
  · rintro (hside | hheld)
    · obtain ⟨row, hrow, hinbox, hbytes, hexpiry⟩ := hitem.row
      refine foundUntil_of_row hreadable hitem.known hrow hinbox hbytes ?_
      intro time hnow htime expiry hmem
      rw [hexpiry] at hmem
      rw [← Option.some.inj hmem]
      exact asI64_lt hnow htime hside
    · exact foundUntil_of_held hreadable hitem.known hgrows hheld

end Finding

section Accepting
open Bridge
variable {crypto : BridgeCrypto} {limits : RateLimitConfig} {signingKey nonce inboxScanKey : Bytes}
  {input : BridgeEnvelopePublishInput} {request : InboxStoreRequest} {ip : String} {now : UInt64}
  {start : Server} {events : List Event}

/-- The request arrives, and then other things happen. -/
def publishEvents (inboxScanKey : Bytes) (ip : String) (now : UInt64)
    (request : InboxStoreRequest) (events : List Event) : List Event :=
  ⟨now, .putInbox (Hex.encode inboxScanKey) ip request⟩ :: events

/-- A request that is built, well formed and not disturbed is answered well and has
stored its item. -/
theorem answered_of_undisturbed (hscheme : crypto.SignsCorrectly)
    (hlength : signingKey.length = 32)
    (hbuild : buildBridgePublishRequest crypto signingKey nonce input = .ok request)
    (hform : input.WellFormed now)
    (hturns : ∀ turn ∈ serverRun crypto limits start
        (publishEvents inboxScanKey ip now request events),
      Undisturbed limits (input.Admissible limits) start.tasks.length turn.before turn.input)
    (hsteps : 8 ≤ events.countP (Event.advances start.tasks.length)) :
    Answered start.tasks.length (.ok ())
        (serverRun crypto limits start (publishEvents inboxScanKey ip now request events)) ∧
      (final (Server.step crypto limits) start
        (publishEvents inboxScanKey ip now request events)).db.HasItem (Hex.encode inboxScanKey)
          input.envelope (input.expiry now) := by
  let task := builtTask (Hex.encode inboxScanKey) ip now input request
  have harrived : (start.step crypto limits
      ⟨now, .putInbox (Hex.encode inboxScanKey) ip request⟩).2 =
        { start with tasks := start.tasks ++ [task] } := by
    simp only [Server.step, putInbox_built hbuild]
    rfl
  have htracks : Server.Tracks { start with tasks := start.tasks ++ [task] } start.tasks.length
      task (Hex.encode inboxScanKey) (input.expiry now) 8 :=
    ⟨.counting, List.getElem?_concat_length, trivial, rfl⟩
  rw [publishEvents, serverRun, transcript_cons, List.forall_mem_cons, harrived] at hturns
  rw [publishEvents, serverRun, transcript_cons, final_cons, harrived]
  obtain ⟨⟨phase, -, htrack, hleft⟩, hanswered⟩ := tracks_run htracks hturns.2
    fun clock snapshot hadmissible =>
      checks_built hscheme hlength hbuild hform hadmissible (Hex.encode inboxScanKey) ip
  obtain ⟨turn, hmem, hturn⟩ := hanswered (by omega) hsteps
  refine ⟨⟨turn, List.mem_cons_of_mem _ hmem, hturn⟩, ?_⟩
  rw [Nat.sub_eq_zero_of_le hsteps] at hleft
  cases phase with
  | finished result => exact htrack.2
  | _ => cases hleft

/-- A well formed request that is not disturbed is accepted and found until it
expires exactly if its lifetime does not cross the end of the range of an `i64`, or if
the inbox held the same bytes in a row that is visible at the end of that range. -/
theorem publish_accepted_iff (hscheme : crypto.SignsCorrectly) (hlength : signingKey.length = 32)
    (hbuild : buildBridgePublishRequest crypto signingKey nonce input = .ok request)
    (hform : input.WellFormed now) (hreadable : start.Readable {})
    (hturns : ∀ turn ∈ serverRun crypto {} start
        (publishEvents inboxScanKey ip now request events),
      Undisturbed {} (input.Admissible {}) start.tasks.length turn.before turn.input)
    (hsteps : 8 ≤ events.countP (Event.advances start.tasks.length)) :
    Answered start.tasks.length (.ok ())
        (serverRun crypto {} start (publishEvents inboxScanKey ip now request events)) ∧
      FoundUntil crypto {} (final (Server.step crypto {}) start
        (publishEvents inboxScanKey ip now request events)) inboxScanKey input.envelope now
          (input.expiry now) ↔
    (input.expiry now).toNat < 2 ^ 63 ∨ 2 ^ 63 ≤ now.toNat ∨
      input.envelope ∈ (start.db.inboxRows (Hex.encode inboxScanKey) lastTime).map
        InboxItem.item := by
  obtain ⟨hanswered, hitem⟩ := answered_of_undisturbed hscheme hlength hbuild hform hturns hsteps
  rw [and_iff_right hanswered]
  exact foundUntil_iff (readable_run hreadable) hitem (inboxGrows_final start _)
    (dated_run start _)

end Accepting

section Sample
open Bridge

/-- An envelope of one byte that is kept for one second. -/
def briefInput (nowUnix : UInt64) : BridgeEnvelopePublishInput :=
  ⟨requesterId, recipientId, [3], 1, none, nowUnix, 300, some 1, .minimum⟩

def briefNonce : Bytes := List.replicate 32 0x33

def briefRequest (nowUnix : UInt64) : Except TransportError InboxStoreRequest :=
  buildBridgePublishRequest sampleBridgeCrypto (List.replicate 32 7) briefNonce (briefInput nowUnix)

theorem briefRequest_ok (nowUnix : UInt64) : ∃ request, briefRequest nowUnix = .ok request := by
  have hnamed : (briefInput nowUnix).grant.named = (briefInput nowUnix).grant := rfl
  have huser : (briefInput nowUnix).grant.userId.length < 2 ^ 64 :=
    show (List.replicate 32 (0xaa : UInt8)).length < 2 ^ 64 by decide
  obtain ⟨bytes, hbytes⟩ := toCtap2CanonicalBytes_named huser
  rw [hnamed] at hbytes
  exact ⟨_, buildBridgePublishRequest_eq_ok.mpr
    ⟨bytes, _, hbytes, generatePuzzleOutput_publish, validatePowPuzzle_publish, rfl⟩⟩

theorem briefInput_wellFormed {now : UInt64} (h : now.toNat < 2 ^ 63) :
    (briefInput now).WellFormed now := by
  refine ⟨show [(3 : UInt8)].length ≤ maxInboxItemBytes by decide, fun ttl httl => ?_, ?_⟩
  · rw [← Option.some.inj httl]
    decide
  · have httl : (briefInput now).ttl.toNat = 1 := rfl
    omega

/-- A bridge that has not seen a request. -/
def emptyServer : Server := ⟨emptyDatabase, []⟩

/-- The request runs alone. -/
def briefEvents (now : UInt64) (request : InboxStoreRequest) : List Event :=
  publishEvents [5] "unknown" now request (List.replicate 8 ⟨now, .advance 0⟩)

theorem briefInput_undisturbed {now : UInt64} {request : InboxStoreRequest}
    (h : now.toNat < 2 ^ 63) (hbuild : briefRequest now = .ok request) :
    ∀ turn ∈ serverRun sampleBridgeCrypto {} emptyServer (briefEvents now request),
      Undisturbed {} ((briefInput now).Admissible {}) 0 turn.before turn.input := by
  refine undisturbed_alone (putInbox_built hbuild _ _ _) ⟨(0, 0), rfl, ?_⟩ 8
  have hroom : Bridge.Admits {} 0 0 [(3 : UInt8)].length := by decide
  have hwork : AtLeast (requiredPowParams ⟨0, 0, 0⟩ {}) .minimum :=
    ⟨by decide, by decide, by decide, by decide⟩
  refine ⟨hroom, hwork, ?_⟩
  rw [UInt64.lt_iff_toNat_lt, Saturating.toNat_add]
  have httl : (briefInput now).grantTtlSeconds.toNat = 300 := rfl
  have hnow : (briefInput now).nowUnix = now := rfl
  rw [httl, hnow]
  omega

theorem emptyServer_readable : emptyServer.Readable {} :=
  ⟨fun _ hrow => absurd hrow List.not_mem_nil, fun _ htask => absurd htask List.not_mem_nil⟩

theorem publish_accepted_brief : ∃ request, briefRequest requestTime = .ok request ∧
    Answered 0 (.ok ())
      (serverRun sampleBridgeCrypto {} emptyServer (briefEvents requestTime request)) ∧
    FoundUntil sampleBridgeCrypto {} (final (Server.step sampleBridgeCrypto {}) emptyServer
      (briefEvents requestTime request)) [5] [3] requestTime (requestTime + 1) := by
  obtain ⟨request, hbuild⟩ := briefRequest_ok requestTime
  have hturns := briefInput_undisturbed (by decide) hbuild
  exact ⟨request, hbuild, (publish_accepted_iff signsCorrectly_sampleBridgeCrypto rfl hbuild
    (briefInput_wellFormed (by decide)) emptyServer_readable hturns (by decide)).mpr
      (.inl (by decide))⟩

/-- An item that is put in the last second of the range of an `i64` is accepted and
not found before it expires. -/
theorem late_item_not_found : ∃ request, briefRequest lastTime = .ok request ∧
    (briefInput lastTime).WellFormed lastTime ∧
    (∀ turn ∈ serverRun sampleBridgeCrypto {} emptyServer (briefEvents lastTime request),
      Undisturbed {} ((briefInput lastTime).Admissible {}) 0 turn.before turn.input) ∧
    Answered 0 (.ok ())
      (serverRun sampleBridgeCrypto {} emptyServer (briefEvents lastTime request)) ∧
    ¬ FoundUntil sampleBridgeCrypto {} (final (Server.step sampleBridgeCrypto {}) emptyServer
      (briefEvents lastTime request)) [5] [3] lastTime (lastTime + 1) := by
  obtain ⟨request, hbuild⟩ := briefRequest_ok lastTime
  have hform := briefInput_wellFormed (show lastTime.toNat < 2 ^ 63 by decide)
  have hturns := briefInput_undisturbed (show lastTime.toNat < 2 ^ 63 by decide) hbuild
  obtain ⟨hanswered, hitem⟩ := answered_of_undisturbed signsCorrectly_sampleBridgeCrypto rfl
    hbuild hform hturns (by decide)
  refine ⟨request, hbuild, hform, hturns, hanswered, fun hfound => ?_⟩
  rcases (foundUntil_iff (readable_run emptyServer_readable) hitem (inboxGrows_final _ _)
    (dated_run _ _)).mp hfound with hbefore | hafter | hheld
  · exact absurd hbefore (by decide)
  · exact absurd hafter (by decide)
  · cases hheld

end Sample

end Spex
