import Spex.InboxDelivery

/-!
# Reading an inbox while it grows

A client reads an inbox page by page, and between the pages other clients put
items into inboxes. Rows are only added, at the end, and each page starts after
the last row of the page before it. So the client gets no row twice, and it gets
every row that was there from the start and does not expire before the last page.
-/
namespace Spex
open Transcript

namespace Bridge

/-- Inboxes and their items are only added. -/
structure InboxGrows (db db' : Database) : Prop where
  keys : db.inboxKeys ⊆ db'.inboxKeys
  items : db.inboxItems.items ⊆ db'.inboxItems.items
  sequence : db.inboxItems.sequence ≤ db'.inboxItems.sequence

theorem InboxGrows.refl (db : Database) : InboxGrows db db :=
  ⟨List.Subset.refl _, List.Subset.refl _, le_rfl⟩

theorem InboxGrows.trans {db db' db'' : Database} (h : InboxGrows db db')
    (h' : InboxGrows db' db'') : InboxGrows db db'' :=
  ⟨List.Subset.trans h.keys h'.keys, List.Subset.trans h.items h'.items,
    h.sequence.trans h'.sequence⟩

section Growing
variable {crypto : BridgeCrypto} {limits : RateLimitConfig}

theorem inboxGrows_advance (clock : UInt64) (db : Database) (task : Task) :
    InboxGrows db (task.advance crypto limits clock db).1 := by
  generalize hnext : task.advance crypto limits clock db = next
  cases statement_advance hnext with
  | storedKey inboxKey expiresAt hphase =>
    refine ⟨fun key hkey => mem_insertInboxKey.mpr (.inl hkey), ?_, ?_⟩
    · rw [insertInboxKey_inboxItems]
      exact List.Subset.refl _
    · rw [insertInboxKey_inboxItems]
  | storedItem inboxKey expiresAt hphase =>
    exact ⟨List.Subset.refl _, List.subset_append_left _ _, Nat.le_succ _⟩
  | _ => exact ⟨List.Subset.refl _, List.Subset.refl _, le_rfl⟩

theorem inboxGrows_step (server : Server) (event : Event) :
    InboxGrows server.db (server.step crypto limits event).2.db :=
  db_step crypto limits (.refl _) (fun _ _ _ h => h.trans (inboxGrows_advance ..)) event

theorem inboxGrows_final (server : Server) (events : List Event) :
    InboxGrows server.db (final (Server.step crypto limits) server events).db :=
  db_final crypto limits (.refl _) (fun _ _ _ h => h.trans (inboxGrows_advance ..)) events

end Growing

/-- What happens between the page reads of a client: the events before each page,
and the clock that each page is read at. -/
structure Timeline where
  gaps : ℕ → List Event
  clocks : ℕ → UInt64

section Timelines
variable (crypto : BridgeCrypto) (limits : RateLimitConfig) (start : Server)

/-- The server when a page is read. -/
def Timeline.server (timeline : Timeline) : ℕ → Server
  | 0 => final (Server.step crypto limits) start (timeline.gaps 0)
  | page + 1 => final (Server.step crypto limits) (timeline.server page) (timeline.gaps (page + 1))

def Timeline.view (timeline : Timeline) (page : ℕ) : View :=
  ⟨limits, (timeline.server crypto limits start page).db, timeline.clocks page⟩

variable {crypto limits start} {timeline : Timeline}

theorem timeline_readable (h : start.Readable limits) (page : ℕ) :
    (timeline.server crypto limits start page).Readable limits := by
  induction page with
  | zero => exact readable_run h
  | succ page ih => exact readable_run ih

theorem timeline_grows {page page' : ℕ} (h : page ≤ page') :
    InboxGrows (timeline.server crypto limits start page).db
      (timeline.server crypto limits start page').db := by
  induction page', h using Nat.le_induction with
  | base => exact .refl _
  | succ page' hle ih => exact ih.trans (inboxGrows_final _ _)

theorem timeline_stays {last page : ℕ} (hlast : ∀ page, last ≤ page → timeline.gaps page = [])
    (h : last ≤ page) :
    timeline.server crypto limits start page = timeline.server crypto limits start last := by
  induction page, h using Nat.le_induction with
  | base => rfl
  | succ page hle ih =>
    rw [Timeline.server, hlast (page + 1) (by omega), ih]
    rfl

/-- With finitely many events, the ids of the rows are bounded. -/
theorem timeline_bounded {last : ℕ} (hlast : ∀ page, last ≤ page → timeline.gaps page = [])
    (page : ℕ) : ∀ row ∈ (timeline.server crypto limits start page).db.inboxItems.items,
      row.id ≤ (timeline.server crypto limits start last).db.inboxItems.sequence := by
  intro row hrow
  have hid := (timeline.server crypto limits start page).db.inboxItems.bounded row hrow
  rcases Nat.le_total page last with hle | hle
  · exact hid.trans (timeline_grows hle).sequence
  · rw [timeline_stays hlast hle] at hid
    exact hid

end Timelines

end Bridge

/-- `scan_inbox` on a bridge that changes from page to page. -/
def scanInboxDuring (views : ℕ → Bridge.View) (inboxScanKey : Bytes) (fuel : ℕ) :
    Option (Except TransportError InboxScanResponse) :=
  (Paging.scanFrom (fun page => fetchInboxPage (views page) (Hex.encode inboxScanKey))
    fuel 0 none).map (Except.map (⟨·, .bridge⟩))

section Scanning
variable {crypto : Bridge.BridgeCrypto} {limits : Bridge.RateLimitConfig} {start : Bridge.Server}
  {timeline : Bridge.Timeline} {inboxScanKey : Bytes}

variable (crypto) in
/-- A scan that runs while items are put ends, with the rows that its pages gather. -/
theorem scan_gathers (hreadable : start.Readable limits)
    (hknown : Hex.encode inboxScanKey ∈ start.db.inboxKeys)
    (hfinite : ∃ last, ∀ page, last ≤ page → timeline.gaps page = []) :
    let views := timeline.view crypto limits start
    ∃ (pages : ℕ) (rows : List Bridge.InboxItem),
      Paging.Gathered (Bridge.inboxLayout 100 limits.maxBytes.toNat)
        (fun page => (views page).db.inboxRows (Hex.encode inboxScanKey) (views page).now)
        0 0 pages rows ∧
      ∀ fuel, scanInboxDuring views inboxScanKey fuel =
        if pages ≤ fuel then some (.ok ⟨rows.map Bridge.InboxItem.item, .bridge⟩) else none := by
  obtain ⟨last, hlast⟩ := hfinite
  let views := timeline.view crypto limits start
  have hkey : ∀ page, Hex.encode inboxScanKey ∈ (views page).db.inboxKeys := by
    intro page
    exact (Bridge.timeline_grows (Nat.zero_le page)).keys
      ((Bridge.inboxGrows_final start (timeline.gaps 0)).keys hknown)
  have hpages : ∃ pages rows, Paging.Gathered (Bridge.inboxLayout 100 limits.maxBytes.toNat)
      (fun page => (views page).db.inboxRows (Hex.encode inboxScanKey) (views page).now)
        0 0 pages rows ∧
      ∀ fuel, Paging.scanFrom (fun page => fetchInboxPage (views page) (Hex.encode inboxScanKey))
        fuel 0 none =
          if pages ≤ fuel then some (.ok (rows.map Bridge.InboxItem.item)) else none :=
    Paging.scanFrom_gathered (Nat.succ_pos 99)
      (fun page row hrow => (Bridge.timeline_readable hreadable page).1 row
        (List.mem_of_mem_filter hrow))
      (fun page => (views page).db.inboxItems.increasing.filter _)
      (fun page row hrow => Bridge.timeline_bounded hlast page row (List.mem_of_mem_filter hrow))
      (fun page => fetchInboxPage_eq (hkey page)) 0 none
  obtain ⟨pages, rows, hgathered, hscan⟩ := hpages
  refine ⟨pages, rows, hgathered, fun fuel => ?_⟩
  rw [scanInboxDuring, hscan]
  split_ifs <;> rfl

/-- What is there on the first page and visible on every page is gathered. -/
theorem mem_gathered {pages : ℕ} {rows : List Bridge.InboxItem}
    (hgathered : Paging.Gathered (Bridge.inboxLayout 100 limits.maxBytes.toNat)
      (fun page => (timeline.view crypto limits start page).db.inboxRows (Hex.encode inboxScanKey)
        (timeline.view crypto limits start page).now) 0 0 pages rows)
    {row : Bridge.InboxItem}
    (hrow : row ∈ (timeline.view crypto limits start 0).db.inboxItems.items)
    (hinbox : row.inboxKey = Hex.encode inboxScanKey)
    (hfresh : ∀ page < pages, ∀ expiresAt ∈ row.expiresAt,
      Bridge.asI64 (timeline.clocks page) < expiresAt) : row ∈ rows := by
  refine hgathered.complete row
    ((timeline.view crypto limits start 0).db.inboxItems.positive row hrow) ?_
  intro page _ hpage
  refine List.mem_filter.mpr ⟨(Bridge.timeline_grows (Nat.zero_le page)).items hrow, ?_⟩
  exact decide_eq_true ⟨hinbox, hfresh page (by omega)⟩

/-- A scan that runs while items are put ends. It returns rows in the order of their
ids, none of them twice, and it returns every row that is there on the first page
and has not expired on any page. -/
theorem scan_loses_nothing (hreadable : start.Readable limits)
    (hknown : Hex.encode inboxScanKey ∈ start.db.inboxKeys)
    (hfinite : ∃ last, ∀ page, last ≤ page → timeline.gaps page = []) :
    let views := timeline.view crypto limits start
    ∃ (pages : ℕ) (rows : List Bridge.InboxItem),
      (∀ fuel, scanInboxDuring views inboxScanKey fuel =
        if pages ≤ fuel then some (.ok ⟨rows.map Bridge.InboxItem.item, .bridge⟩) else none) ∧
      (rows.Pairwise fun row row' => row.id < row'.id) ∧
      (∀ row ∈ rows, ∃ page < pages,
        row ∈ (views page).db.inboxRows (Hex.encode inboxScanKey) (views page).now) ∧
      ∀ row ∈ (views 0).db.inboxItems.items, row.inboxKey = Hex.encode inboxScanKey →
        (∀ page < pages, ∀ expiresAt ∈ row.expiresAt,
          Bridge.asI64 (timeline.clocks page) < expiresAt) → rows.count row = 1 := by
  obtain ⟨pages, rows, hgathered, hscan⟩ := scan_gathers crypto hreadable hknown hfinite
  have hnodup : rows.Nodup := hgathered.increasing.imp fun hlt heq => by
    rw [heq] at hlt
    exact lt_irrefl _ hlt
  refine ⟨pages, rows, hscan, hgathered.increasing, fun row hrow => ?_,
    fun row hrow hinbox hfresh => ?_⟩
  · obtain ⟨page, -, hpage, hvisible⟩ := hgathered.seen row hrow
    exact ⟨page, by omega, hvisible⟩
  · exact List.count_eq_one_of_mem hnodup (mem_gathered hgathered hrow hinbox hfresh)

end Scanning

section Sample

def scanLimits : Bridge.RateLimitConfig := { maxBytes := 3 }

/-- An inbox with two rows, and a request that is about to add a third one. -/
def scanServer : Bridge.Server where
  db := ⟨fun _ => none, fun _ => none, ["00"],
    (Bridge.InboxTable.empty.insert "00" [1, 1] none).insert "00" [2, 2] (some 1700086400), [],
    fun _ => none⟩
  tasks := [Bridge.sampleTask (.storingItem "00" 1700086400)]

/-- The third row is added after the first page. -/
def scanTimeline : Bridge.Timeline where
  gaps page := if page = 1 then Bridge.sampleAdvances 0 1 else []
  clocks _ := requestTime

theorem scan_loses_nothing_sample :
    let views := scanTimeline.view Bridge.sampleBridgeCrypto scanLimits scanServer
    (scanInboxDuring views [0] 3).map Except.toOption =
      some (some ⟨[[1, 1], [2, 2], [1, 2, 3]], .bridge⟩) ∧
    ∃ (pages : ℕ) (rows : List Bridge.InboxItem),
      (∀ fuel, scanInboxDuring views [0] fuel =
        if pages ≤ fuel then some (.ok ⟨rows.map Bridge.InboxItem.item, .bridge⟩) else none) ∧
      (rows.Pairwise fun row row' => row.id < row'.id) ∧
      (∀ row ∈ rows, ∃ page < pages,
        row ∈ (views page).db.inboxRows (Hex.encode [0]) (views page).now) ∧
      ∀ row ∈ (views 0).db.inboxItems.items, row.inboxKey = Hex.encode [0] →
        (∀ page < pages, ∀ expiresAt ∈ row.expiresAt,
          Bridge.asI64 (scanTimeline.clocks page) < expiresAt) → rows.count row = 1 := by
  have hreadable : scanServer.Readable scanLimits := by
    refine ⟨by unfold Bridge.Database.Readable; decide, ?_⟩
    intro task htask
    rw [List.mem_singleton.mp htask]
    intro _
    decide
  have hfinite : ∃ last, ∀ page, last ≤ page → scanTimeline.gaps page = [] :=
    ⟨2, fun page hpage => if_neg (by omega)⟩
  exact ⟨by decide, scan_loses_nothing hreadable (by decide) hfinite⟩

end Sample

end Spex
