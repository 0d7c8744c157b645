import Spex.Bridge

/-!
# The byte budget of an inbox page

A reader chooses how many bytes a page of an inbox may have. A page ends before the
first item that exceeds what is left of the budget. If that item is the first of the
page, the page is empty and names no position to go on from, so the item and all that
come after it are out of reach for this budget.
-/
namespace Spex.Bridge
open Paging

section Budget
variable {limits : RateLimitConfig} {db : Database} {now : UInt64} {inboxKey : String}
  {limit maxBytes : Option ℕ}

theorem normalizeInboxLimit_pos (limit : Option ℕ) : 0 < normalizeInboxLimit limit := by
  unfold normalizeInboxLimit
  split
  · split_ifs with hpos
    · exact lt_min hpos (by decide)
    · decide
  · decide

variable (limits now limit maxBytes) in
/-- The pages of a known inbox. -/
theorem getInbox_of_known (hknown : inboxKey ∈ db.inboxKeys) (cursor : Option ℕ) :
    getInbox limits db now inboxKey limit cursor maxBytes =
      .ok (((inboxLayout (normalizeInboxLimit limit)
        (normalizeInboxMaxBytes maxBytes limits.maxBytes)).page (cursor.getD 0)
        (db.inboxRows inboxKey now)).map fun row => Base64.encode row.item) := by
  rw [getInbox, loadInboxItems, if_pos hknown, Option.elim_some, Page.map, Page.map, Page.map,
    List.map_map]
  rfl

end Budget

/-- The items of an inbox with an id beyond a cursor, as they are sent. -/
def itemsAfter (db : Database) (inboxKey : String) (now : UInt64) (cursor : ℕ) : List String :=
  ((db.inboxRows inboxKey now).filter fun row => cursor < row.id).map fun row =>
    Base64.encode row.item

/-- Following the cursors of an inbox gives all its items in order, and a page without a
cursor is the last one, exactly if every item fits into the budget of a page. -/
theorem inbox_pages_complete_iff (limits : RateLimitConfig) (db : Database) (now : UInt64)
    (inboxKey : String) (limit maxBytes : Option ℕ) :
    (inboxKey ∈ db.inboxKeys →
      (∃ pages, ∀ fuel, pages ≤ fuel →
        scan (fun cursor => getInbox limits db now inboxKey limit cursor maxBytes) fuel none =
          some (.ok (itemsAfter db inboxKey now 0))) ∧
      ∀ cursor page, getInbox limits db now inboxKey limit cursor maxBytes = .ok page →
        page.next = none → page.items = itemsAfter db inboxKey now (cursor.getD 0)) ↔
    (inboxKey ∈ db.inboxKeys → ∀ row ∈ db.inboxRows inboxKey now,
      row.item.length ≤ normalizeInboxMaxBytes maxBytes limits.maxBytes) := by
  apply imp_congr_right
  intro hknown
  let layout := inboxLayout (normalizeInboxLimit limit)
    (normalizeInboxMaxBytes maxBytes limits.maxBytes)
  have hlimit : 0 < layout.limit := normalizeInboxLimit_pos limit
  have hstart : layout.after 0 (db.inboxRows inboxKey now) = db.inboxRows inboxKey now :=
    after_zero_inboxRows db inboxKey now _ _
  have hpages := getInbox_of_known limits now limit maxBytes hknown
  have hscan := scan_complete_iff hlimit hstart (db.inboxItems.increasing.filter _) hpages
  have hall : itemsAfter db inboxKey now 0 =
      (db.inboxRows inboxKey now).map fun row => Base64.encode row.item :=
    congrArg (List.map _) hstart
  rw [hall]
  constructor
  · exact fun h => hscan.mp h.1
  · intro hfits
    refine ⟨hscan.mpr hfits, ?_⟩
    intro cursor page hpage hlast
    obtain rfl := Except.ok.inj ((hpages cursor).symm.trans hpage)
    rcases layout.page_cases (cursor.getD 0) hlimit hfits with hrest | ⟨front, row, rest, -, hstop⟩
    · rw [hrest]
      rfl
    · rw [hstop] at hlast
      cases hlast

/-- An inbox with an item of two bytes. -/
def budgetDatabase : Database :=
  ⟨fun _ => none, fun _ => none, ["00"], InboxTable.empty.insert "00" [1, 1] none, [],
    fun _ => none⟩

/-- With a budget of one byte the inbox looks empty. -/
theorem small_budget_hides_items :
    getInbox {} budgetDatabase 0 "00" none none (some 1) = .ok ⟨[], none⟩ ∧
      itemsAfter budgetDatabase "00" 0 0 ≠ [] ∧
      scan (fun cursor => getInbox {} budgetDatabase 0 "00" none cursor (some 1)) 2 none =
        some (.ok []) := by
  refine ⟨rfl, ?_, rfl⟩
  decide

end Spex.Bridge
