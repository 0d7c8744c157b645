import Spex.Bridge
import Spex.KeySort

/-!
# The export of the request log

The rows of the log are read in the order of their ids. A row that passes every field of
the filter is exported with the hash of its identity, and the export stops when it holds
as many records as the limit asks for. The limit is looked at after a record has been
added, so a limit of zero acts like a limit of one.
-/
namespace Spex.Bridge
open Cbor KeySort

/-- A row of the table `request_logs`. -/
structure RequestLogRow where
  id : ℤ
  timestamp : Int64
  identity : String
  ip : String
  requestKind : String
  outcome : String
  bytes : Int64
  deriving DecidableEq

/-- The table, whose primary key is the id. -/
structure RequestLogs where
  rows : List RequestLogRow
  distinct : (rows.map RequestLogRow.id).Nodup

structure AbuseLogFilter where
  identity : Option String := none
  requestKind : Option String := none
  outcome : Option String := none
  sinceTimestamp : Option UInt64 := none
  untilTimestamp : Option UInt64 := none
  limit : Option ℕ := none

structure AbuseLogRecord where
  timestamp : UInt64
  identityHashHex : String
  ipPrefix : String
  requestKind : String
  outcome : String
  bytes : UInt64
  deriving DecidableEq

/-- The rows in the order of their ids. -/
def RequestLogs.ordered (logs : RequestLogs) : List RequestLogRow :=
  sortOn (· ≤ ·) RequestLogRow.id logs.rows

section Export
variable (sha256 : Bytes → Bytes) (filter : AbuseLogFilter)

def RequestLogRow.toRecord (row : RequestLogRow) : AbuseLogRecord where
  timestamp := row.timestamp.toUInt64
  identityHashHex := Hex.encode (hashBytes sha256 .sha256 (Value.utf8 row.identity))
  ipPrefix := row.ip
  requestKind := row.requestKind
  outcome := row.outcome
  bytes := row.bytes.toUInt64

/-- A given text that the value of a row differs from. -/
def differs (given : Option String) (value : String) : Bool :=
  match given with
  | some expected => value ≠ expected
  | none => false

/-- The checks that leave a row out. -/
def AbuseLogFilter.skips (row : RequestLogRow) : Bool :=
  differs filter.identity row.identity || differs filter.requestKind row.requestKind ||
    differs filter.outcome row.outcome ||
    (match filter.sinceTimestamp with
      | some since => row.timestamp.toUInt64 < since
      | none => false) ||
    (match filter.untilTimestamp with
      | some untilTime => untilTime < row.timestamp.toUInt64
      | none => false)

def AbuseLogFilter.reached (exported : List AbuseLogRecord) : Bool :=
  match filter.limit with
  | some limit => limit ≤ exported.length
  | none => false

/-- The loop over the rows; a row whose columns have other types is an error. -/
def exportRows : List (Option RequestLogRow) → List AbuseLogRecord →
    Except BridgeError (List AbuseLogRecord)
  | [], exported => .ok exported
  | none :: _, _ => .error .storage
  | some row :: rows, exported =>
    if filter.skips row then exportRows rows exported
    else
      let exported := exported ++ [row.toRecord sha256]
      if filter.reached exported then .ok exported else exportRows rows exported

/-- The export of what the query yields, which is nothing if the file cannot be opened or
has no such table. -/
def exportAbuseLogs (query : Option (List (Option RequestLogRow))) :
    Except BridgeError (List AbuseLogRecord) :=
  match query with
  | none => .error .storage
  | some rows => exportRows sha256 filter rows []

end Export

/-- The row agrees with every field of the filter that is given. -/
@[mk_iff] structure AbuseLogFilter.Matches (filter : AbuseLogFilter) (row : RequestLogRow) :
    Prop where
  identity : ∀ expected ∈ filter.identity, row.identity = expected
  requestKind : ∀ expected ∈ filter.requestKind, row.requestKind = expected
  outcome : ∀ expected ∈ filter.outcome, row.outcome = expected
  sinceTimestamp : ∀ since ∈ filter.sinceTimestamp, since ≤ row.timestamp.toUInt64
  untilTimestamp : ∀ untilTime ∈ filter.untilTimestamp, row.timestamp.toUInt64 ≤ untilTime

section Loop
variable {sha256 : Bytes → Bytes} {filter : AbuseLogFilter}

theorem differs_eq_false {given : Option String} {value : String} :
    differs given value = false ↔ ∀ expected ∈ given, value = expected := by
  cases given <;> simp [differs]

theorem skips_eq_false {row : RequestLogRow} : filter.skips row = false ↔ filter.Matches row := by
  have hsince : (match filter.sinceTimestamp with
      | some since => decide (row.timestamp.toUInt64 < since)
      | none => false) = false ↔
        ∀ since ∈ filter.sinceTimestamp, since ≤ row.timestamp.toUInt64 := by
    cases filter.sinceTimestamp <;> simp
  have huntil : (match filter.untilTimestamp with
      | some untilTime => decide (untilTime < row.timestamp.toUInt64)
      | none => false) = false ↔
        ∀ untilTime ∈ filter.untilTimestamp, row.timestamp.toUInt64 ≤ untilTime := by
    cases filter.untilTimestamp <;> simp
  simp only [AbuseLogFilter.skips, Bool.or_eq_false_iff, differs_eq_false, hsince, huntil,
    AbuseLogFilter.matches_iff, and_assoc]

instance (filter : AbuseLogFilter) (row : RequestLogRow) : Decidable (filter.Matches row) :=
  decidable_of_iff _ skips_eq_false

variable (sha256 filter) in
/-- The records of the rows that match. -/
def matching (rows : List RequestLogRow) : List AbuseLogRecord :=
  (rows.filter fun row => filter.Matches row).map (RequestLogRow.toRecord sha256)

/-- The first records, as many as a limit allows. -/
def truncate {α : Type} (limit : Option ℕ) (records : List α) : List α :=
  match limit with
  | some limit => records.take limit
  | none => records

theorem truncate_of_forall_le {α : Type} {limit : Option ℕ} {records : List α}
    (h : ∀ n ∈ limit, records.length ≤ n) : truncate limit records = records := by
  cases limit with
  | none => rfl
  | some n => exact List.take_of_length_le (h n rfl)

/-- While there is room, the loop appends the records that match, up to the limit or to
one if the limit is zero. -/
theorem exportRows_of_room (rows : List RequestLogRow) {exported : List AbuseLogRecord}
    (hroom : ∀ limit ∈ filter.limit, exported.length < max 1 limit) :
    exportRows sha256 filter (rows.map some) exported =
      .ok (truncate (filter.limit.map (max 1)) (exported ++ matching sha256 filter rows)) := by
  induction rows generalizing exported with
  | nil =>
    simp only [List.map_nil, exportRows, matching, List.filter_nil, List.append_nil]
    rw [truncate_of_forall_le]
    intro n hn
    obtain ⟨limit, hlimit, rfl⟩ := Option.mem_map.mp hn
    exact (hroom limit hlimit).le
  | cons row rows ih =>
    rw [List.map_cons, exportRows]
    by_cases hmatch : filter.Matches row
    · rw [if_neg (by simp [skips_eq_false.mpr hmatch])]
      have hcons : exported ++ matching sha256 filter (row :: rows) =
          (exported ++ [row.toRecord sha256]) ++ matching sha256 filter rows := by
        simp [matching, hmatch]
      rw [hcons]
      dsimp only
      cases hlimit : filter.limit with
      | none =>
        rw [if_neg (by simp [AbuseLogFilter.reached, hlimit]), ih (by simp [hlimit]), hlimit]
      | some limit =>
        have hlength := hroom limit hlimit
        split_ifs with hfull
        · have hle : limit ≤ exported.length + 1 := by
            simpa [AbuseLogFilter.reached, hlimit] using hfull
          have hexact : max 1 limit = (exported ++ [row.toRecord sha256]).length := by
            rw [List.length_append, List.length_singleton]
            omega
          simp only [Option.map_some, truncate]
          rw [hexact, List.take_left]
        · have hlt : exported.length + 1 < limit := by
            simpa [AbuseLogFilter.reached, hlimit] using hfull
          rw [ih, hlimit]
          intro limit' hlimit'
          rw [hlimit] at hlimit'
          obtain rfl := Option.some.inj hlimit'
          rw [List.length_append, List.length_singleton]
          omega
    · have hskips : filter.skips row = true := by
        rw [← Bool.not_eq_false, skips_eq_false]
        exact hmatch
      rw [if_pos hskips, ih hroom]
      simp [matching, hmatch]

/-- What is exported from a readable log. -/
theorem exportAbuseLogs_eq (rows : List RequestLogRow) :
    exportAbuseLogs sha256 filter (some (rows.map some)) =
      .ok (truncate (filter.limit.map (max 1)) (matching sha256 filter rows)) := by
  rw [exportAbuseLogs, exportRows_of_room rows (by simp), List.nil_append]

theorem matching_eq_nil {rows : List RequestLogRow} :
    matching sha256 filter rows = [] ↔ ∀ row ∈ rows, ¬ filter.Matches row := by
  simp [matching]

/-- Only a limit of zero is not the one that was asked for. -/
theorem truncate_max_eq_iff {α : Type} {limit : Option ℕ} {records : List α} :
    truncate (limit.map (max 1)) records = truncate limit records ↔
      limit ≠ some 0 ∨ records = [] := by
  rcases limit with _ | _ | limit
  · simp [truncate]
  · simp [truncate, List.take_eq_nil_iff]
  · simp [truncate]

end Loop

/-- The export holds the records that match, in the order of their ids and up to the
limit. -/
def FilterThenTake (sha256 : Bytes → Bytes) (filter : AbuseLogFilter) (logs : RequestLogs) :
    Prop :=
  ∃ records, exportAbuseLogs sha256 filter (some (logs.ordered.map some)) = .ok records ∧
    records = truncate filter.limit (matching sha256 filter logs.ordered) ∧
    ∀ limit ∈ filter.limit, records.length ≤ limit

/-- The export is filter then take exactly if the limit is not zero or no row matches. -/
theorem export_filter_take_iff (sha256 : Bytes → Bytes) (filter : AbuseLogFilter)
    (logs : RequestLogs) :
    FilterThenTake sha256 filter logs ↔
      filter.limit ≠ some 0 ∨ ∀ row ∈ logs.rows, ¬ filter.Matches row := by
  have hnone : matching sha256 filter logs.ordered = [] ↔
      ∀ row ∈ logs.rows, ¬ filter.Matches row := by
    simp [matching_eq_nil, RequestLogs.ordered]
  rw [← hnone, ← truncate_max_eq_iff, FilterThenTake, exportAbuseLogs_eq]
  constructor
  · rintro ⟨records, hexport, hrecords, -⟩
    rw [Except.ok.inj hexport, hrecords]
  · intro h
    refine ⟨_, rfl, h, fun limit hlimit => ?_⟩
    rw [h, hlimit]
    exact List.length_take_le _ _

section Sample

def loggedInbox : RequestLogRow := ⟨1, 200, "id-b", "10.0.1.0", "inbox", "rejected", 40⟩

/-- A limit of zero exports a record. -/
theorem export_exceeds_zero_limit :
    (exportAbuseLogs id { limit := some 0 } (some [some loggedInbox])) =
        .ok [loggedInbox.toRecord id] ∧
      ¬ FilterThenTake id { limit := some 0 } ⟨[loggedInbox], by simp⟩ := by
  refine ⟨rfl, ?_⟩
  rintro ⟨records, hexport, -, hlimit⟩
  have hone : records = [loggedInbox.toRecord id] := (Except.ok.inj hexport).symm
  have hlength := hlimit 0 rfl
  simp [hone] at hlength

end Sample

section Database

def RequestKind.asStr : RequestKind → String
  | .card => "card"
  | .slot => "slot"
  | .inbox => "inbox"

def RequestOutcome.asStr : RequestOutcome → String
  | .accepted => "accepted"
  | .rejected => "rejected"

/-- The row that `record_request_log` inserts. -/
def LogRow.stored (index : ℕ) (row : LogRow) : RequestLogRow :=
  ⟨index + 1, Int64.ofInt row.timestamp, row.identity, row.ip, row.kind.asStr,
    row.outcome.asStr, Int64.ofNat row.bytes⟩

theorem pairwise_stored (rows : List LogRow) :
    (rows.mapIdx LogRow.stored).Pairwise fun row row' => row.id < row'.id := by
  rw [List.pairwise_iff_getElem]
  intro i j hi hj hij
  simpa [LogRow.stored] using hij

/-- The table that the bridge has filled. -/
def Database.requestLogTable (db : Database) : RequestLogs where
  rows := db.requestLogs.mapIdx LogRow.stored
  distinct := by
    rw [List.Nodup, List.pairwise_map]
    exact (pairwise_stored db.requestLogs).imp ne_of_lt

/-- Without a filter every request that the bridge has logged is exported, in order. -/
theorem export_requestLogTable (sha256 : Bytes → Bytes) (db : Database) :
    exportAbuseLogs sha256 {} (some (db.requestLogTable.ordered.map some)) =
      .ok ((db.requestLogs.mapIdx LogRow.stored).map (RequestLogRow.toRecord sha256)) := by
  have hall (row : RequestLogRow) : AbuseLogFilter.Matches {} row :=
    ⟨by simp, by simp, by simp, by simp, by simp⟩
  have hordered : db.requestLogTable.ordered = db.requestLogs.mapIdx LogRow.stored :=
    sortOn_of_pairwise _ _ _ ((pairwise_stored db.requestLogs).imp le_of_lt)
  rw [exportAbuseLogs_eq, hordered]
  simp [truncate, matching, hall]

end Database
end Spex.Bridge
