import Spex.RateLimits

/-!
# What the bridge stores

A row of the cards, the slots or the inboxes is written by a request that has
passed every check: its grant is signed and has not expired, its proof of work is
as hard as the snapshot asks for, the snapshot leaves room for it, and the key of
a card or a slot is the hash of the data. The handlers make these checks in
different orders and on a snapshot that was read earlier, so a request is followed
through the turns of a run. Since the key is the hash, a card or a slot never
changes once it is stored.
-/
namespace Spex.Bridge
open Transcript Fallible

section Gates
variable {crypto : BridgeCrypto} {limits : RateLimitConfig} {value : String} {bytes : Bytes}

/-- The embedded signature verifies for the fields of the grant. -/
def GrantTokenPayload.Signed (crypto : BridgeCrypto) (grant : GrantTokenPayload) : Prop :=
  ∃ userId verifyKey signature bytes, Base64.decode grant.userId = some userId ∧
    Base64.decode grant.verifyingKey = some verifyKey ∧ verifyKey.length = 32 ∧
    crypto.validKey verifyKey = true ∧
    Base64.decode grant.signature = some signature ∧ signature.length = 64 ∧
    toCtap2CanonicalBytes (⟨userId, grant.role, grant.flags, grant.expiresAt, ∅⟩ : GrantToken) =
      .ok bytes ∧ crypto.verifyStrict verifyKey (crypto.sha256 bytes) signature = true

def GrantTokenPayload.Unexpired (now : UInt64) (grant : GrantTokenPayload) : Prop :=
  ∀ expiresAt ∈ grant.expiresAt, now < expiresAt

/-- Parameters that are as hard as a minimum in every respect. -/
structure AtLeast (minimum params : PowParams) : Prop where
  memoryKib : minimum.memoryKib ≤ params.memoryKib
  iterations : minimum.iterations ≤ params.iterations
  parallelism : minimum.parallelism ≤ params.parallelism
  outputLen : minimum.outputLen ≤ params.outputLen

def PuzzlePayload.powParams (puzzle : PuzzlePayload) : PowParams :=
  puzzle.params.elim .minimum PowParamsPayload.toCore

/-- The output of the puzzle is that of Argon2id under its parameters. -/
def PuzzlePayload.Solved (crypto : BridgeCrypto) (puzzle : PuzzlePayload) : Prop :=
  ∃ recipientKey puzzleInput puzzleOutput, Base64.decode puzzle.recipientKey = some recipientKey ∧
    Base64.decode puzzle.puzzleInput = some puzzleInput ∧
    Base64.decode puzzle.puzzleOutput = some puzzleOutput ∧
    generatePuzzleOutput crypto.toRequestCrypto recipientKey puzzleInput puzzle.powParams =
      .ok puzzleOutput

theorem decodeBase64_eq_ok : decodeBase64 value = .ok bytes ↔ Base64.decode value = some bytes := by
  rw [decodeBase64]
  cases Base64.decode value <;> simp

theorem decodeFixedBytes_eq_ok {length : ℕ} :
    decodeFixedBytes length value = .ok bytes ↔
      Base64.decode value = some bytes ∧ bytes.length = length := by
  simp only [decodeFixedBytes, bind_eq_ok, decodeBase64_eq_ok, require_eq_ok, pure_eq_ok,
    exists_const]
  constructor
  · rintro ⟨decoded, hdecoded, hlength, rfl⟩
    exact ⟨hdecoded, hlength⟩
  · rintro ⟨hdecoded, hlength⟩
    exact ⟨bytes, hdecoded, hlength, rfl⟩

theorem decodeVerifyingKey_eq_ok :
    decodeVerifyingKey crypto value = .ok bytes ↔
      Base64.decode value = some bytes ∧ bytes.length = 32 ∧ crypto.validKey bytes = true := by
  simp only [decodeVerifyingKey, bind_eq_ok, decodeFixedBytes_eq_ok, require_eq_ok, pure_eq_ok,
    exists_const]
  constructor
  · rintro ⟨decoded, ⟨hdecoded, hlength⟩, hvalid, rfl⟩
    exact ⟨hdecoded, hlength, hvalid⟩
  · rintro ⟨hdecoded, hlength, hvalid⟩
    exact ⟨bytes, ⟨hdecoded, hlength⟩, hvalid, rfl⟩

theorem validateGrant_ok {now : UInt64} {grant : GrantTokenPayload}
    (h : validateGrant crypto now grant = .ok ()) : grant.Signed crypto ∧ grant.Unexpired now := by
  obtain ⟨userId, huser, h⟩ := bind_eq_ok.mp h
  obtain ⟨verifyKey, hkey, h⟩ := bind_eq_ok.mp h
  obtain ⟨signature, hsignature, h⟩ := bind_eq_ok.mp h
  obtain ⟨hunexpired, bytes, hbytes, hverify⟩ :=
    (validateGrantToken_eq_ok _ _).mp (mapError_eq_ok.mp h)
  obtain ⟨hkey, hlength, hvalid⟩ := decodeVerifyingKey_eq_ok.mp hkey
  obtain ⟨hsignature, hlength'⟩ := decodeFixedBytes_eq_ok.mp hsignature
  exact ⟨⟨userId, verifyKey, signature, bytes, decodeBase64_eq_ok.mp huser, hkey, hlength, hvalid,
    hsignature, hlength', hbytes, hverify⟩, hunexpired⟩

theorem validatePuzzle_ok {puzzle : PuzzlePayload} {minimum : PowParams}
    (h : validatePuzzle crypto puzzle minimum = .ok ()) :
    puzzle.Solved crypto ∧ AtLeast minimum puzzle.powParams := by
  obtain ⟨recipientKey, hrecipient, h⟩ := bind_eq_ok.mp h
  obtain ⟨puzzleInput, hinput, h⟩ := bind_eq_ok.mp h
  obtain ⟨puzzleOutput, houtput, h⟩ := bind_eq_ok.mp h
  have hpow := mapError_eq_ok.mp h
  rw [validatePowPuzzle] at hpow
  split_ifs at hpow with hweak
  obtain ⟨valid, hvalid, hpow⟩ := bind_eq_ok.mp hpow
  have hverify := mapError_eq_ok.mp hvalid
  rw [verifyPuzzleOutput] at hverify
  split_ifs at hverify hpow with hmeets hlength htrue
  simp only [not_or, UInt32.not_lt, UInt64.not_lt] at hweak
  obtain ⟨output, hgenerate, hequal⟩ := map_eq_ok.mp hverify
  rw [htrue, decide_eq_true_eq] at hequal
  refine ⟨⟨recipientKey, puzzleInput, puzzleOutput, decodeBase64_eq_ok.mp hrecipient,
    decodeBase64_eq_ok.mp hinput, decodeBase64_eq_ok.mp houtput, ?_⟩,
    hweak.1, hweak.2.1, hweak.2.2.1, hweak.2.2.2⟩
  rw [← hequal]
  exact hgenerate

/-- A snapshot never asks for less than the base parameters. -/
theorem minimum_atLeast_required (snapshot : RateLimitSnapshot) (limits : RateLimitConfig) :
    AtLeast .minimum (requiredPowParams snapshot limits) where
  memoryKib := by
    rw [requiredPowParams]
    exact Saturating.le_mul32 _ (Saturating.one_le_add32_one _)
  iterations := Saturating.le_add32 _ _
  parallelism := UInt32.le_refl _
  outputLen := UInt64.le_refl _

theorem AtLeast.trans {a b c : PowParams} (hab : AtLeast a b) (hbc : AtLeast b c) :
    AtLeast a c where
  memoryKib := UInt32.le_trans hab.memoryKib hbc.memoryKib
  iterations := UInt32.le_trans hab.iterations hbc.iterations
  parallelism := UInt32.le_trans hab.parallelism hbc.parallelism
  outputLen := UInt64.le_trans hab.outputLen hbc.outputLen

theorem computeInboxExpiration_ok {now expiresAt : UInt64} {ttlSeconds : Option UInt64}
    (h : computeInboxExpiration now ttlSeconds = .ok expiresAt) :
    ∃ ttl : UInt64, ttlSeconds.getD defaultInboxTtlSeconds = ttl ∧ 1 ≤ ttl ∧
      ttl ≤ maxInboxTtlSeconds ∧ expiresAt.toNat = now.toNat + ttl.toNat := by
  unfold computeInboxExpiration at h
  dsimp only at h
  split_ifs at h with hbounds hfits
  rw [not_or, UInt64.not_lt] at hbounds
  refine ⟨_, rfl, ?_, hbounds.2, ?_⟩
  · rw [UInt64.le_iff_toNat_le]
    exact Nat.one_le_iff_ne_zero.mpr fun hzero => hbounds.1 (UInt64.toNat_inj.mp hzero)
  · rw [← Except.ok.inj h, UInt64.toNat_add, Nat.mod_eq_of_lt hfits]

end Gates

/-- The request with the given number arrives in a turn. -/
def ArrivesIn (crypto : BridgeCrypto) (index : ℕ) (task : Task) (turn : BridgeTurn) : Prop :=
  turn.before.tasks.length = index ∧ turn.input.arrival crypto = some (.ok (task.at .counting))

def CountsIn (limits : RateLimitConfig) (index : ℕ) (task : Task)
    (recentRequests recentBytes : ℕ) (turn : BridgeTurn) : Prop :=
  turn.input.action = .advance index ∧
    turn.before.db.countRecent task.identity (windowStart limits task.now) =
      some (recentRequests, recentBytes)

def ScoresIn (index : ℕ) (task : Task) (score : ℤ) (turn : BridgeTurn) : Prop :=
  turn.input.action = .advance index ∧ turn.before.db.score task.identity = score

/-- A request of a run with its number and its snapshot, and the turns in which it
arrived, counted, read the score and was checked. -/
structure Passage where
  index : ℕ
  task : Task
  snapshot : RateLimitSnapshot
  arrived : BridgeTurn
  counted : BridgeTurn
  scored : BridgeTurn
  checked : BridgeTurn

/-- The request goes through these turns of the run, one after the other, and its
checks let it write. -/
structure Passage.Through (crypto : BridgeCrypto) (limits : RateLimitConfig)
    (run : List BridgeTurn) (write : Write) (passage : Passage) : Prop where
  order : [passage.arrived, passage.counted, passage.scored, passage.checked].Sublist run
  arrives : ArrivesIn crypto passage.index passage.task passage.arrived
  counts : CountsIn limits passage.index passage.task passage.snapshot.recentRequests
    passage.snapshot.recentBytes passage.counted
  scores : ScoresIn passage.index passage.task passage.snapshot.reputationScore passage.scored
  turn : passage.checked.input.action = .advance passage.index
  checks : passage.task.checks crypto limits passage.checked.input.clock passage.snapshot =
    .ok write

theorem Passage.Through.mono {crypto : BridgeCrypto} {limits : RateLimitConfig}
    {past : List BridgeTurn} {write : Write} {passage : Passage}
    (h : passage.Through crypto limits past write) (turn : BridgeTurn) :
    passage.Through crypto limits (past ++ [turn]) write :=
  { h with order := h.order.trans (List.sublist_append_left ..) }

/-- The rows of a database are those of the start and those of requests that were
let through. -/
structure RowsFrom (crypto : BridgeCrypto) (limits : RateLimitConfig) (start : Database)
    (run : List BridgeTurn) (db : Database) : Prop where
  cards : ∀ cardHash data, db.cards cardHash = some data → start.cards cardHash = some data ∨
    ∃ passage : Passage, passage.Through crypto limits run (.card cardHash) ∧
      passage.task.data = data
  slots : ∀ slotId data, db.slots slotId = some data → start.slots slotId = some data ∨
    ∃ passage : Passage, passage.Through crypto limits run (.slot slotId) ∧
      passage.task.data = data
  items : ∀ row ∈ db.inboxItems.items, row ∈ start.inboxItems.items ∨
    ∃ (passage : Passage) (expiresAt : UInt64),
      passage.Through crypto limits run (.item row.inboxKey expiresAt) ∧
      passage.task.data = row.item ∧ row.expiresAt = some (asI64 expiresAt)

section Histories
variable {crypto : BridgeCrypto} {limits : RateLimitConfig} {past : List BridgeTurn}
  {turn : BridgeTurn} {index : ℕ} {task : Task} {start db : Database}

def LetThrough (crypto : BridgeCrypto) (limits : RateLimitConfig) (past : List BridgeTurn)
    (task : Task) (write : Write) : Prop :=
  ∃ passage : Passage, passage.Through crypto limits past write ∧
    passage.task = task.at .counting

/-- How a request has come to its phase. -/
def Task.Explained (crypto : BridgeCrypto) (limits : RateLimitConfig) (past : List BridgeTurn)
    (index : ℕ) (task : Task) : Prop :=
  match task.phase with
  | .counting => ∃ arrived, [arrived].Sublist past ∧ ArrivesIn crypto index task arrived
  | .scoring recentRequests recentBytes => ∃ arrived counted, [arrived, counted].Sublist past ∧
      ArrivesIn crypto index task arrived ∧
      CountsIn limits index task recentRequests recentBytes counted
  | .validating snapshot => ∃ arrived counted scored, [arrived, counted, scored].Sublist past ∧
      ArrivesIn crypto index task arrived ∧
      CountsIn limits index task snapshot.recentRequests snapshot.recentBytes counted ∧
      ScoresIn index task snapshot.reputationScore scored
  | .storing write => LetThrough crypto limits past task write
  | .storingItem inboxKey expiresAt => LetThrough crypto limits past task (.item inboxKey expiresAt)
  | _ => True

theorem LetThrough.mono {write : Write} (h : LetThrough crypto limits past task write)
    (turn : BridgeTurn) : LetThrough crypto limits (past ++ [turn]) task write := by
  obtain ⟨passage, hpassage, htask⟩ := h
  exact ⟨passage, hpassage.mono turn, htask⟩

theorem Task.Explained.mono (h : task.Explained crypto limits past index) (turn : BridgeTurn) :
    task.Explained crypto limits (past ++ [turn]) index := by
  have hgrow : ∀ turns : List BridgeTurn, turns.Sublist past → turns.Sublist (past ++ [turn]) :=
    fun turns hturns => hturns.trans (List.sublist_append_left ..)
  revert h
  unfold Task.Explained
  cases task.phase with
  | counting =>
    rintro ⟨arrived, hsub, hrest⟩
    exact ⟨arrived, hgrow _ hsub, hrest⟩
  | scoring recentRequests recentBytes =>
    rintro ⟨arrived, counted, hsub, hrest⟩
    exact ⟨arrived, counted, hgrow _ hsub, hrest⟩
  | validating snapshot =>
    rintro ⟨arrived, counted, scored, hsub, hrest⟩
    exact ⟨arrived, counted, scored, hgrow _ hsub, hrest⟩
  | storing write => exact fun h => h.mono turn
  | storingItem inboxKey expiresAt => exact fun h => h.mono turn
  | _ => exact id

/-- The next statement of a request adds its turn to the history. -/
theorem explained_advance (turn : BridgeTurn) (h : task.Explained crypto limits past index)
    (hturn : turn.input.action = .advance index) :
    (task.advance crypto limits turn.input.clock turn.before.db).2.Explained crypto limits
      (past ++ [turn]) index := by
  have hextend : ∀ turns : List BridgeTurn, turns.Sublist past →
      (turns ++ [turn]).Sublist (past ++ [turn]) := fun turns hturns => hturns.append (.refl _)
  have hmono := h.mono turn
  generalize hnext : task.advance crypto limits turn.input.clock turn.before.db = next
  unfold Task.Explained at h hmono
  cases statement_advance hnext with
  | counted recentRequests recentBytes hphase hcount =>
    rw [hphase] at h
    obtain ⟨arrived, hsub, harrives⟩ := h
    dsimp only [Task.Explained, Task.at]
    exact ⟨arrived, turn, hextend _ hsub, harrives, hturn, hcount⟩
  | scored recentRequests recentBytes hphase =>
    rw [hphase] at h
    obtain ⟨arrived, counted, hsub, harrives, hcounts⟩ := h
    dsimp only [Task.Explained, Task.at]
    exact ⟨arrived, counted, turn, hextend _ hsub, harrives, hcounts, hturn, rfl⟩
  | passed snapshot write hphase hchecks =>
    rw [hphase] at h
    obtain ⟨arrived, counted, scored, hsub, harrives, hcounts, hscores⟩ := h
    dsimp only [Task.Explained, Task.at]
    exact ⟨⟨index, task.at .counting, snapshot, arrived, counted, scored, turn⟩,
      ⟨hextend _ hsub, harrives, hcounts, hscores, hturn, hchecks⟩, rfl⟩
  | storedKey inboxKey expiresAt hphase =>
    rw [hphase] at hmono
    exact hmono
  | rested result hphase => simp only [Task.Explained, hphase]
  | _ => trivial

theorem LetThrough.passage {write : Write} (h : LetThrough crypto limits past task write) :
    ∃ passage : Passage, passage.Through crypto limits past write ∧
      passage.task.data = task.data := by
  obtain ⟨passage, hpassage, htask⟩ := h
  exact ⟨passage, hpassage, htask ▸ rfl⟩

theorem RowsFrom.mono (h : RowsFrom crypto limits start past db) (turn : BridgeTurn) :
    RowsFrom crypto limits start (past ++ [turn]) db := by
  refine ⟨fun cardHash data hdata => ?_, fun slotId data hdata => ?_, fun row hrow => ?_⟩
  · exact (h.cards cardHash data hdata).imp_right fun ⟨passage, hpassage, hrest⟩ =>
      ⟨passage, hpassage.mono turn, hrest⟩
  · exact (h.slots slotId data hdata).imp_right fun ⟨passage, hpassage, hrest⟩ =>
      ⟨passage, hpassage.mono turn, hrest⟩
  · exact (h.items row hrow).imp_right fun ⟨passage, expiresAt, hpassage, hrest⟩ =>
      ⟨passage, expiresAt, hpassage.mono turn, hrest⟩

theorem RowsFrom.of_stored {db' : Database} (h : RowsFrom crypto limits start past db)
    (hcards : db'.cards = db.cards) (hslots : db'.slots = db.slots)
    (hitems : db'.inboxItems = db.inboxItems) : RowsFrom crypto limits start past db' := by
  refine ⟨?_, ?_, ?_⟩
  · rw [hcards]
    exact h.cards
  · rw [hslots]
    exact h.slots
  · rw [hitems]
    exact h.items

theorem RowsFrom.storeCard (h : RowsFrom crypto limits start past db) {cardHash : String}
    (hpassed : LetThrough crypto limits past task (.card cardHash)) :
    RowsFrom crypto limits start past (db.storeCard cardHash task.data) := by
  refine ⟨fun other data hdata => ?_, h.slots, h.items⟩
  simp only [Database.storeCard, Function.update_apply] at hdata
  split_ifs at hdata with hsame
  · rw [hsame, ← Option.some.inj hdata]
    exact .inr hpassed.passage
  · exact h.cards other data hdata

theorem RowsFrom.storeSlot (h : RowsFrom crypto limits start past db) {slotId : String}
    (hpassed : LetThrough crypto limits past task (.slot slotId)) :
    RowsFrom crypto limits start past (db.storeSlot slotId task.data) := by
  refine ⟨h.cards, fun other data hdata => ?_, h.items⟩
  simp only [Database.storeSlot, Function.update_apply] at hdata
  split_ifs at hdata with hsame
  · rw [hsame, ← Option.some.inj hdata]
    exact .inr hpassed.passage
  · exact h.slots other data hdata

theorem RowsFrom.insertItem (h : RowsFrom crypto limits start past db) {inboxKey : String}
    {expiresAt : UInt64} (hpassed : LetThrough crypto limits past task (.item inboxKey expiresAt)) :
    RowsFrom crypto limits start past (db.insertInboxItem inboxKey task.data expiresAt) := by
  refine ⟨h.cards, h.slots, fun row hrow => ?_⟩
  rcases List.mem_append.mp hrow with hold | hnew
  · exact h.items row hold
  · obtain ⟨passage, hpassage, hdata⟩ := hpassed.passage
    rw [List.mem_singleton.mp hnew]
    exact .inr ⟨passage, expiresAt, hpassage, hdata, rfl⟩

/-- A statement writes rows of its own request only. -/
theorem rowsFrom_advance (h : RowsFrom crypto limits start past db)
    (htask : task.Explained crypto limits past index) (clock : UInt64) :
    RowsFrom crypto limits start past (task.advance crypto limits clock db).1 := by
  generalize hnext : task.advance crypto limits clock db = next
  unfold Task.Explained at htask
  cases statement_advance hnext with
  | storedCard cardHash hphase =>
    rw [hphase] at htask
    exact h.storeCard htask
  | storedSlot slotId hphase =>
    rw [hphase] at htask
    exact h.storeSlot htask
  | storedKey inboxKey expiresAt hphase =>
    unfold Database.insertInboxKey
    split_ifs
    · exact h
    · exact h.of_stored rfl rfl rfl
  | storedItem inboxKey expiresAt hphase =>
    rw [hphase] at htask
    exact h.insertItem htask
  | logged result hphase => exact h.of_stored rfl rfl rfl
  | wroteScore result current hphase => exact h.of_stored rfl rfl rfl
  | _ => exact h

/-- Every row and every request in progress has a history. -/
structure Server.Explained (crypto : BridgeCrypto) (limits : RateLimitConfig) (start : Database)
    (past : List BridgeTurn) (server : Server) : Prop where
  rows : RowsFrom crypto limits start past server.db
  tasks : ∀ (index : ℕ) (task : Task), server.tasks[index]? = some task →
    task.Explained crypto limits past index

theorem explained_arrival {server : Server} (hturn : turn.before = server)
    (harrival : turn.input.arrival crypto = some (.ok task)) :
    task.Explained crypto limits (past ++ [turn]) server.tasks.length := by
  obtain ⟨-, hphase | ⟨err, hphase⟩⟩ := arrival_phase harrival
  · have hcounting : task.at .counting = task := by rw [Task.at, ← hphase]
    unfold Task.Explained
    rw [hphase]
    exact ⟨turn, List.sublist_append_right .., by rw [hturn], hcounting ▸ harrival⟩
  · unfold Task.Explained
    rw [hphase]
    trivial

theorem explained_step {server : Server} {event : Event}
    (h : server.Explained crypto limits start past) :
    (server.step crypto limits event).2.Explained crypto limits start
      (past ++ [⟨server, event, (server.step crypto limits event).1,
        (server.step crypto limits event).2⟩]) := by
  generalize hnext : server.step crypto limits event = next
  generalize hturn : (⟨server, event, next.1, next.2⟩ : BridgeTurn) = turn
  have hbefore : turn.before = server := hturn ▸ rfl
  have hinput : turn.input = event := hturn ▸ rfl
  have hrows := h.rows.mono turn
  have htasks := fun index task hget => (h.tasks index task hget).mono turn
  cases step_case hnext with
  | refused err harrival => exact ⟨hrows, htasks⟩
  | arrived task harrival =>
    refine ⟨hrows, fun index other hother => ?_⟩
    rw [List.getElem?_append, List.getElem?_singleton] at hother
    split_ifs at hother with hold hlast
    · exact htasks index other hother
    · obtain rfl : index = server.tasks.length := by omega
      rw [← Option.some.inj hother]
      exact explained_arrival hbefore (hinput ▸ harrival)
  | advanced index task haction hget =>
    have hmono := (h.tasks index task hget).mono turn
    refine ⟨rowsFrom_advance hrows hmono _, fun other updated hother => ?_⟩
    rw [List.getElem?_set] at hother
    split_ifs at hother with hsame hlt
    · rw [← hsame, ← Option.some.inj hother]
      have hadvance := explained_advance turn (h.tasks index task hget) (by rw [hinput, haction])
      rwa [hinput, hbefore] at hadvance
    · exact htasks other updated hother
  | failed index task haction hget =>
    refine ⟨hrows, fun other updated hother => ?_⟩
    rw [List.getElem?_set] at hother
    split_ifs at hother with hsame hlt
    · rw [← Option.some.inj hother]
      trivial
    · exact htasks other updated hother
  | idle index haction hget => exact ⟨hrows, htasks⟩

/-- The rows of a state that a run reaches come from the start or from requests of
the run that were let through. -/
theorem rowsFrom_run (crypto : BridgeCrypto) (limits : RateLimitConfig) (start : Database)
    (events : List Event) :
    RowsFrom crypto limits start (serverRun crypto limits ⟨start, []⟩ events)
      (final (Server.step crypto limits) ⟨start, []⟩ events).db := by
  have hstart : Server.Explained crypto limits start [] ⟨start, []⟩ :=
    ⟨⟨fun _ _ => .inl, fun _ _ => .inl, fun _ => .inl⟩, by simp⟩
  exact (history (fun past server => Server.Explained crypto limits start past server) hstart
    fun past server event h => explained_step h).rows

end Histories

/-- Every gate that a request has passed. The grant is compared with the clock on
arrival or at the checks. -/
structure Passage.Gated (crypto : BridgeCrypto) (limits : RateLimitConfig) (passage : Passage) :
    Prop where
  signed : passage.task.grant.Signed crypto
  unexpired : passage.task.grant.Unexpired passage.arrived.input.clock ∨
    passage.task.grant.Unexpired passage.checked.input.clock
  solved : passage.task.puzzle.Solved crypto
  required : AtLeast (requiredPowParams passage.snapshot limits) passage.task.puzzle.powParams
  base : AtLeast .minimum passage.task.puzzle.powParams
  admitted : Admits limits passage.snapshot.recentRequests passage.snapshot.recentBytes
    passage.task.data.length

/-- What a row of an inbox owes to its request: the data, their size and the time
that the request asked for. -/
structure ItemOf (task : Task) (row : InboxItem) : Prop where
  item : row.item = task.data
  size : row.item.length ≤ 262144
  expires : ∃ ttlSeconds, task.target = .inbox row.inboxKey ttlSeconds ∧
    ∃ ttl expiresAt : UInt64, ttlSeconds.getD defaultInboxTtlSeconds = ttl ∧ 1 ≤ ttl ∧
      ttl ≤ 604800 ∧ expiresAt.toNat = task.now.toNat + ttl.toNat ∧
      row.expiresAt = some (asI64 expiresAt)

section Passing
variable {crypto : BridgeCrypto} {limits : RateLimitConfig} {run : List BridgeTurn}
  {passage : Passage} {write : Write}

/-- A slot request that counts has had its grant checked on arrival. -/
theorem validateGrant_of_arrival {event : Event} {task : Task} {slotId : String}
    (harrival : event.arrival crypto = some (.ok task)) (htarget : task.target = .slot slotId)
    (hphase : task.phase = .counting) : validateGrant crypto event.clock task.grant = .ok () := by
  cases arrival_case harrival with
  | putCard cardHash ip payload _ htask =>
    obtain ⟨hother, -⟩ := startPut_ok htask
    simp [htarget] at hother
  | putSlot slotId ip payload _ htask =>
    obtain ⟨-, hgrant, -, ⟨hvalid, -⟩ | ⟨err, hother⟩⟩ := putSlot_ok htask
    · rw [hgrant]
      exact hvalid
    · simp [hphase] at hother
  | putInbox inboxKey ip payload _ htask =>
    obtain ⟨hother, -⟩ := startPut_ok htask
    simp [htarget] at hother

theorem Passage.Gated.of_valid (h : passage.Through crypto limits run write)
    (hgrant : passage.task.grant.Signed crypto ∧
      (passage.task.grant.Unexpired passage.arrived.input.clock ∨
        passage.task.grant.Unexpired passage.checked.input.clock))
    (hpuzzle : validatePuzzle crypto passage.task.puzzle
      (requiredPowParams passage.snapshot limits) = .ok ()) : passage.Gated crypto limits := by
  obtain ⟨hsolved, hrequired⟩ := validatePuzzle_ok hpuzzle
  exact ⟨hgrant.1, hgrant.2, hsolved, hrequired,
    (minimum_atLeast_required _ _).trans hrequired, admits_of_checks h.checks⟩

/-- A request that is let through has passed every gate. -/
theorem Passage.Through.gated (h : passage.Through crypto limits run write) :
    passage.Gated crypto limits := by
  cases htarget : passage.task.target with
  | card cardHash =>
    obtain ⟨-, hgrant, hpuzzle, -⟩ := (checks_card htarget).mp h.checks
    obtain ⟨hsigned, hunexpired⟩ := validateGrant_ok hgrant
    exact .of_valid h ⟨hsigned, .inr hunexpired⟩ hpuzzle
  | slot slotId =>
    obtain ⟨-, hpuzzle, -⟩ := (checks_slot htarget).mp h.checks
    obtain ⟨hsigned, hunexpired⟩ := validateGrant_ok
      (validateGrant_of_arrival h.arrives.2 htarget rfl)
    exact .of_valid h ⟨hsigned, .inl hunexpired⟩ hpuzzle
  | inbox inboxKey ttlSeconds =>
    obtain ⟨-, -, hgrant, hpuzzle, -⟩ := (checks_inbox htarget).mp h.checks
    obtain ⟨hsigned, hunexpired⟩ := validateGrant_ok hgrant
    exact .of_valid h ⟨hsigned, .inr hunexpired⟩ hpuzzle

variable {task : Task} {clock : UInt64} {snapshot : RateLimitSnapshot}

/-- A request that is about to store something has asked for it, and a card or a
slot under the hash of its data. -/
theorem target_of_checks (h : task.checks crypto limits clock snapshot = .ok write) :
    match write with
    | .card cardHash =>
      task.target = .card cardHash ∧ cardHash = Hex.encode (crypto.sha256 task.data)
    | .slot slotId => task.target = .slot slotId ∧ slotId = Hex.encode (crypto.sha256 task.data)
    | .item inboxKey _ => ∃ ttlSeconds, task.target = .inbox inboxKey ttlSeconds := by
  cases htarget : task.target with
  | card cardHash =>
    obtain ⟨-, -, -, hhash, rfl⟩ := (checks_card htarget).mp h
    exact ⟨rfl, hhash.symm⟩
  | slot slotId =>
    obtain ⟨-, -, hhash, rfl⟩ := (checks_slot htarget).mp h
    exact ⟨rfl, hhash.symm⟩
  | inbox inboxKey ttlSeconds =>
    obtain ⟨-, -, -, -, expiresAt, -, rfl⟩ := (checks_inbox htarget).mp h
    exact ⟨ttlSeconds, rfl⟩

theorem itemOf_of_checks {row : InboxItem} {expiresAt : UInt64}
    (h : task.checks crypto limits clock snapshot = .ok (.item row.inboxKey expiresAt))
    (hdata : task.data = row.item) (hrow : row.expiresAt = some (asI64 expiresAt)) :
    ItemOf task row := by
  obtain ⟨ttlSeconds, htarget⟩ : ∃ ttlSeconds, task.target = .inbox row.inboxKey ttlSeconds :=
    target_of_checks h
  obtain ⟨hsize, -, -, -, computed, hcomputed, hwrite⟩ := (checks_inbox htarget).mp h
  obtain ⟨-, rfl⟩ := Write.item.inj hwrite
  obtain ⟨ttl, httl, hpositive, hbounded, hsum⟩ := computeInboxExpiration_ok hcomputed
  exact ⟨hdata.symm, hdata ▸ hsize, ttlSeconds, htarget, ttl, expiresAt, httl, hpositive,
    hbounded, hsum, hrow⟩

end Passing

/-- In every state that a run reaches, each row is one of the start or comes from a
request of the run that has passed every gate. -/
theorem stored_rows_gated (crypto : BridgeCrypto) (limits : RateLimitConfig) (start : Database)
    (events : List Event) :
    let run := serverRun crypto limits ⟨start, []⟩ events
    let db := (final (Server.step crypto limits) ⟨start, []⟩ events).db
    (∀ cardHash data, db.cards cardHash = some data → start.cards cardHash = some data ∨
      ∃ passage : Passage, passage.Through crypto limits run (.card cardHash) ∧
        passage.Gated crypto limits ∧ passage.task.target = .card cardHash ∧
        passage.task.data = data ∧ cardHash = Hex.encode (crypto.sha256 data)) ∧
    (∀ slotId data, db.slots slotId = some data → start.slots slotId = some data ∨
      ∃ passage : Passage, passage.Through crypto limits run (.slot slotId) ∧
        passage.Gated crypto limits ∧ passage.task.target = .slot slotId ∧
        passage.task.data = data ∧ slotId = Hex.encode (crypto.sha256 data)) ∧
    ∀ row ∈ db.inboxItems.items, row ∈ start.inboxItems.items ∨
      ∃ (passage : Passage) (expiresAt : UInt64),
        passage.Through crypto limits run (.item row.inboxKey expiresAt) ∧
        passage.Gated crypto limits ∧ ItemOf passage.task row := by
  intro run db
  have hrows : RowsFrom crypto limits start run db := rowsFrom_run crypto limits start events
  refine ⟨fun cardHash data hdata => ?_, fun slotId data hdata => ?_, fun row hrow => ?_⟩
  · refine (hrows.cards cardHash data hdata).imp_right ?_
    rintro ⟨passage, hpassage, rfl⟩
    obtain ⟨htarget, hhash⟩ := target_of_checks hpassage.checks
    exact ⟨passage, hpassage, hpassage.gated, htarget, rfl, hhash⟩
  · refine (hrows.slots slotId data hdata).imp_right ?_
    rintro ⟨passage, hpassage, rfl⟩
    obtain ⟨htarget, hhash⟩ := target_of_checks hpassage.checks
    exact ⟨passage, hpassage, hpassage.gated, htarget, rfl, hhash⟩
  · refine (hrows.items row hrow).imp_right ?_
    rintro ⟨passage, expiresAt, hpassage, hdata, hexpires⟩
    exact ⟨passage, expiresAt, hpassage, hpassage.gated,
      itemOf_of_checks hpassage.checks hdata hexpires⟩

/-- The key of every card and every slot is the hash of its data. -/
structure Database.Addressed (crypto : BridgeCrypto) (db : Database) : Prop where
  cards : ∀ cardHash data, db.cards cardHash = some data →
    cardHash = Hex.encode (crypto.sha256 data)
  slots : ∀ slotId data, db.slots slotId = some data → slotId = Hex.encode (crypto.sha256 data)

section Immutable
variable {crypto : BridgeCrypto} {limits : RateLimitConfig} {start : Database}
  {events later : List Event}

theorem addressed_run (hstart : start.Addressed crypto) (events : List Event) :
    (final (Server.step crypto limits) ⟨start, []⟩ events).db.Addressed crypto := by
  have hrows := rowsFrom_run crypto limits start events
  constructor
  · intro cardHash data hdata
    rcases hrows.cards cardHash data hdata with hold | ⟨passage, hpassage, rfl⟩
    · exact hstart.cards cardHash data hold
    · exact (target_of_checks hpassage.checks).2
  · intro slotId data hdata
    rcases hrows.slots slotId data hdata with hold | ⟨passage, hpassage, rfl⟩
    · exact hstart.slots slotId data hold
    · exact (target_of_checks hpassage.checks).2

/-- No row of the cards or the slots is deleted. -/
def Database.KeepsKeys (db db' : Database) : Prop :=
  (∀ cardHash, (db.cards cardHash).isSome → (db'.cards cardHash).isSome) ∧
    ∀ slotId, (db.slots slotId).isSome → (db'.slots slotId).isSome

theorem isSome_update {table : String → Option Bytes} {key other : String} {data : Bytes}
    (h : (table other).isSome) : (Function.update table key (some data) other).isSome := by
  by_cases hkey : other = key <;> simp [hkey, h]

theorem keepsKeys_advance (crypto : BridgeCrypto) (limits : RateLimitConfig) (clock : UInt64)
    (db : Database) (task : Task) :
    db.KeepsKeys (task.advance crypto limits clock db).1 := by
  generalize hnext : task.advance crypto limits clock db = next
  cases statement_advance hnext with
  | storedCard cardHash hphase => exact ⟨fun _ => isSome_update, fun _ => id⟩
  | storedSlot slotId hphase => exact ⟨fun _ => id, fun _ => isSome_update⟩
  | storedKey inboxKey expiresAt hphase =>
    unfold Database.insertInboxKey
    split_ifs <;> exact ⟨fun _ => id, fun _ => id⟩
  | _ => exact ⟨fun _ => id, fun _ => id⟩

theorem keepsKeys_run (server : Server) (later : List Event) :
    server.db.KeepsKeys (final (Server.step crypto limits) server later).db := by
  refine db_final crypto limits ⟨fun _ => id, fun _ => id⟩ (fun clock db task hbefore => ?_) later
  have hstep := keepsKeys_advance crypto limits clock db task
  exact ⟨fun key h => hstep.1 key (hbefore.1 key h), fun key h => hstep.2 key (hbefore.2 key h)⟩

/-- Two tables with the same addressing agree wherever the first has a row. -/
theorem storedResponse_kept {sha256 : Bytes → Bytes} (hinj : Function.Injective sha256)
    {table table' : String → Option Bytes} {key response : String}
    (htable : ∀ data, table key = some data → key = Hex.encode (sha256 data))
    (htable' : ∀ data, table' key = some data → key = Hex.encode (sha256 data))
    (hkeeps : (table key).isSome → (table' key).isSome)
    (h : storedResponse (table key) = .ok response) :
    storedResponse (table' key) = .ok response := by
  cases hdata : table key with
  | none => simp [storedResponse, hdata] at h
  | some data =>
    obtain ⟨data', hdata'⟩ := Option.isSome_iff_exists.mp (hkeeps (by simp [hdata]))
    have hsame : data = data' :=
      hinj (Hex.encode_injective ((htable data hdata).symm.trans (htable' data' hdata')))
    rw [hdata', ← hsame, ← hdata]
    exact h

/-- Along every run of a bridge whose cards and slots are addressed by their
hashes, they stay so, and what has been stored under a key is what every later
request for the key gets. -/
theorem cards_and_slots_immutable (hstart : start.Addressed crypto) (events later : List Event) :
    let db := (final (Server.step crypto limits) ⟨start, []⟩ events).db
    let db' := (final (Server.step crypto limits) ⟨start, []⟩ (events ++ later)).db
    db.Addressed crypto ∧ (Function.Injective crypto.sha256 →
      (∀ cardHash response, getCard db cardHash = .ok response →
        getCard db' cardHash = .ok response) ∧
      ∀ slotId response, getSlot db slotId = .ok response →
        getSlot db' slotId = .ok response) := by
  intro db db'
  have hdb : db.Addressed crypto := addressed_run hstart events
  have hdb' : db'.Addressed crypto := addressed_run hstart (events ++ later)
  have hkeeps : db.KeepsKeys db' := by
    dsimp only [db, db']
    rw [final_append]
    exact keepsKeys_run _ later
  refine ⟨hdb, fun hinj => ⟨fun cardHash response h => ?_, fun slotId response h => ?_⟩⟩
  · exact storedResponse_kept hinj (hdb.cards cardHash) (hdb'.cards cardHash)
      (hkeeps.1 cardHash) h
  · exact storedResponse_kept hinj (hdb.slots slotId) (hdb'.slots slotId) (hkeeps.2 slotId) h

end Immutable

section Sample

def sampleCardHash : String := Hex.encode (sampleBridgeCrypto.sha256 [1, 2, 3])

def sampleCard : StorageRequest := ⟨Base64.encode [1, 2, 3], sampleGrant, samplePuzzle⟩

def cardTask (phase : Phase) : Task :=
  ⟨.card sampleCardHash, sampleGrant, samplePuzzle, "unknown", [1, 2, 3], sampleIdentity,
    requestTime, phase⟩

/-- A card is put, statement by statement. -/
def cardEvents : List Event :=
  ⟨requestTime, .putCard sampleCardHash "unknown" sampleCard⟩ :: sampleAdvances 0 7

theorem run_cardTask {db : Database}
    (hcount : db.countRecent sampleIdentity (windowStart {} requestTime) = some (4, 1048573))
    (hscore : db.score sampleIdentity = 100) :
    (cardTask .counting).run sampleBridgeCrypto {} requestTime db 7 =
      (((db.storeCard sampleCardHash [1, 2, 3]).insertLog
        ((cardTask .counting).logRow (.ok ()))).upsertScore sampleIdentity
          (nextScore (db.score sampleIdentity) .accepted), cardTask (.finished (.ok ()))) := by
  have hcounted : (cardTask .counting).advance sampleBridgeCrypto {} requestTime db =
      (db, cardTask (.scoring 4 1048573)) := advance_counted rfl hcount
  have hscored : (cardTask (.scoring 4 1048573)).advance sampleBridgeCrypto {} requestTime db =
      (db, cardTask (.validating ⟨4, 1048573, 100⟩)) := by
    rw [← hscore]
    rfl
  have hhash : Hex.encode (hashBytes sampleBridgeCrypto.sha256 .sha256 [1, 2, 3]) =
      sampleCardHash := by
    rw [hashBytes, sampleCardHash]
  have hchecks : (cardTask (.validating ⟨4, 1048573, 100⟩)).checks sampleBridgeCrypto {}
      requestTime ⟨4, 1048573, 100⟩ = .ok (.card sampleCardHash) :=
    (checks_card rfl).mpr ⟨admits_sample, validateGrant_sample, validatePuzzle_sample pow_sample,
      hhash, rfl⟩
  have hchecked : (cardTask (.validating ⟨4, 1048573, 100⟩)).advance sampleBridgeCrypto {}
      requestTime db = (db, cardTask (.storing (.card sampleCardHash))) :=
    advance_passed rfl hchecks
  rw [Task.run, Function.iterate_succ_apply, hcounted, Function.iterate_succ_apply, hscored,
    Function.iterate_succ_apply, hchecked]
  rfl

theorem getCard_cardEvents :
    getCard (final (Server.step sampleBridgeCrypto {}) sampleServer cardEvents).db
      sampleCardHash = .ok (Base64.encode [1, 2, 3]) := by
  have hput : putCard sampleCardHash "unknown" requestTime sampleCard =
      .ok (cardTask .counting) := startPut_encode rfl
  have harrived : (Server.step sampleBridgeCrypto {} sampleServer
      ⟨requestTime, .putCard sampleCardHash "unknown" sampleCard⟩).2 =
        ⟨sampleServer.db, [cardTask .counting]⟩ := by
    simp only [Server.step, hput]
    rfl
  rw [cardEvents, final_cons, harrived, sampleAdvances, final_advances rfl,
    run_cardTask count_sample score_sample]
  simp [getCard, storedResponse, Database.upsertScore, Database.insertLog, Database.storeCard]

/-- A card that was put can be read after a second attempt to put it. -/
theorem card_stays :
    getCard (final (Server.step sampleBridgeCrypto {}) sampleServer cardEvents).db
      sampleCardHash = .ok (Base64.encode [1, 2, 3]) ∧
    getCard (final (Server.step sampleBridgeCrypto {}) sampleServer
      (cardEvents ++ cardEvents)).db sampleCardHash = .ok (Base64.encode [1, 2, 3]) := by
  have haddressed : sampleServer.db.Addressed sampleBridgeCrypto :=
    ⟨fun _ _ h => by simp [sampleServer, loggedServer] at h,
      fun _ _ h => by simp [sampleServer, loggedServer] at h⟩
  have hinjective : Function.Injective sampleBridgeCrypto.sha256 :=
    Tabulated.tabulated_injective (by decide)
  exact ⟨getCard_cardEvents, ((cards_and_slots_immutable haddressed cardEvents cardEvents).2
    hinjective).1 sampleCardHash _ getCard_cardEvents⟩

end Sample

end Spex.Bridge
