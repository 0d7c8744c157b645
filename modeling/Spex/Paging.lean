import Mathlib.Tactic

/-!
# Reading a table page by page

The rows of a table have increasing positions and a weight. A page takes rows
until it holds a number of rows or the next one would exceed a weight, and names
the position of its last row if rows are left. A reader asks for the page after
the position it was given until no position is named. If every row fits on a page
of its own, the reader gets all rows, once and in order; otherwise it stops before the
first row that does not. If the table changes from page to page, the reader still gets
no row twice, and it gets every row that is there on all the pages it reads.
-/
namespace Spex.Paging

variable {α β ε : Type*}

structure Page (α : Type*) where
  items : List α
  next : Option ℕ

def Page.map (f : α → β) (page : Page α) : Page β := ⟨page.items.map f, page.next⟩

/-- Positions and weights of rows, and the bounds of a page. -/
structure Layout (α : Type*) where
  position : α → ℕ
  weight : α → ℕ
  limit : ℕ
  maxWeight : ℕ

namespace Layout
variable (layout : Layout α)

/-- The loop over the rows, with the rows taken, their weight and the position of
the last one. -/
def collect (taken : List α) (total : ℕ) (last : Option ℕ) : List α → Page α
  | [] => ⟨taken, none⟩
  | row :: rows =>
    if layout.limit ≤ taken.length then ⟨taken, last⟩
    else if layout.maxWeight < total + layout.weight row then ⟨taken, last⟩
    else collect (taken ++ [row]) (total + layout.weight row) (some (layout.position row)) rows

def after (cursor : ℕ) (rows : List α) : List α :=
  rows.filter fun row => cursor < layout.position row

/-- The rows stand in the order of their positions. -/
abbrev Sorted (rows : List α) : Prop :=
  rows.Pairwise fun row row' => layout.position row < layout.position row'

/-- One row more than the page can hold is read, to know whether rows are left. -/
def page (cursor : ℕ) (rows : List α) : Page α :=
  layout.collect [] 0 none ((layout.after cursor rows).take (layout.limit + 1))

end Layout

/-- The reader of a table that changes, with a bound on the number of pages: `fetch turn`
reads the table as it is at that turn. -/
def scanFrom (fetch : ℕ → Option ℕ → Except ε (Page β)) :
    ℕ → ℕ → Option ℕ → Option (Except ε (List β))
  | 0, _, _ => none
  | fuel + 1, turn, cursor =>
    match fetch turn cursor with
    | .error err => some (.error err)
    | .ok page =>
      match page.next with
      | none => some (.ok page.items)
      | some next => (scanFrom fetch fuel (turn + 1) (some next)).map (Except.map (page.items ++ ·))

/-- The reader of a table that stays as it is. -/
def scan (fetch : Option ℕ → Except ε (Page β)) (fuel : ℕ) (cursor : Option ℕ) :
    Option (Except ε (List β)) :=
  scanFrom (fun _ => fetch) fuel 0 cursor

theorem scanFrom_const (fetch : Option ℕ → Except ε (Page β)) (fuel turn : ℕ)
    (cursor : Option ℕ) : scanFrom (fun _ => fetch) fuel turn cursor = scan fetch fuel cursor := by
  unfold scan
  generalize 0 = first
  induction fuel generalizing turn first cursor with
  | zero => rfl
  | succ fuel ih =>
    rw [scanFrom, scanFrom]
    cases fetch cursor with
    | error err => rfl
    | ok page => cases page.next <;> simp [ih (turn + 1) _ (first + 1)]

theorem scan_succ (fetch : Option ℕ → Except ε (Page β)) (fuel : ℕ) (cursor : Option ℕ) :
    scan fetch (fuel + 1) cursor =
      match fetch cursor with
      | .error err => some (.error err)
      | .ok page =>
        match page.next with
        | none => some (.ok page.items)
        | some next => (scan fetch fuel (some next)).map (Except.map (page.items ++ ·)) := by
  simp only [← scanFrom_const fetch fuel 1]
  rfl

namespace Layout
variable {layout : Layout α} {rows taken : List α} {total : ℕ} {last : Option ℕ}

/-- The row beyond the limit changes nothing but that rows are left. -/
theorem collect_take {count : ℕ} (hroom : taken.length ≤ layout.limit)
    (hcount : layout.limit < taken.length + count) :
    layout.collect taken total last (rows.take count) = layout.collect taken total last rows := by
  induction rows generalizing taken total last count with
  | nil => rw [List.take_nil]
  | cons row rows ih =>
    obtain ⟨count, rfl⟩ : ∃ n, count = n + 1 := ⟨count - 1, by omega⟩
    rw [List.take_succ_cons, collect, collect]
    split_ifs with hfull hheavy
    · rfl
    · rfl
    · refine ih ?_ ?_ <;> rw [List.length_append, List.length_singleton] <;> omega

/-- A page holds all rows, or it stops at a row and names the one before it. -/
theorem collect_cases (layout : Layout α) (taken rows : List α) (total : ℕ) :
    layout.collect taken total (taken.getLast?.map layout.position) rows = ⟨taken ++ rows, none⟩ ∨
      ∃ front rest, rows = front ++ rest ∧
        layout.collect taken total (taken.getLast?.map layout.position) rows =
          ⟨taken ++ front, (taken ++ front).getLast?.map layout.position⟩ := by
  induction rows generalizing taken total with
  | nil => exact .inl (by rw [collect, List.append_nil])
  | cons row rows ih =>
    rw [collect]
    split_ifs with hfull hheavy
    · exact .inr ⟨[], row :: rows, rfl, by rw [List.append_nil]⟩
    · exact .inr ⟨[], row :: rows, rfl, by rw [List.append_nil]⟩
    · have hnext : some (layout.position row) =
          (taken ++ [row]).getLast?.map layout.position := by simp
      rw [hnext]
      rcases ih (taken ++ [row]) (total + layout.weight row) with hall | ⟨front, rest, hrows, hstop⟩
      · exact .inl (by rw [hall, List.append_assoc, List.singleton_append])
      · refine .inr ⟨row :: front, rest, by rw [hrows, List.cons_append], ?_⟩
        rw [hstop, List.append_assoc, List.singleton_append]

/-- If every row fits on a page, a page that is not the last one holds a row. -/
theorem page_cases (cursor : ℕ) (hlimit : 0 < layout.limit)
    (hweight : ∀ row ∈ rows, layout.weight row ≤ layout.maxWeight) :
    layout.page cursor rows = ⟨layout.after cursor rows, none⟩ ∨
      ∃ front row rest, layout.after cursor rows = front ++ row :: rest ∧
        layout.page cursor rows = ⟨front ++ [row], some (layout.position row)⟩ := by
  have htake : layout.page cursor rows = layout.collect [] 0 none (layout.after cursor rows) :=
    collect_take (Nat.zero_le _) (by simp)
  rw [htake]
  cases hafter : layout.after cursor rows with
  | nil => exact .inl rfl
  | cons first others =>
    have hfirst : first ∈ rows := List.mem_of_mem_filter (hafter ▸ List.mem_cons_self)
    have hroom : ¬ layout.limit ≤ ([] : List α).length := Nat.not_le.mpr hlimit
    have hfits : ¬ layout.maxWeight < 0 + layout.weight first := by
      rw [Nat.zero_add]
      exact Nat.not_lt.mpr (hweight first hfirst)
    rw [collect, if_neg hroom, if_neg hfits, List.nil_append]
    rcases collect_cases layout [first] others (0 + layout.weight first) with
      hall | ⟨front, rest, hrows, hstop⟩
    · exact .inl hall
    · obtain ⟨init, row, hinit⟩ : ∃ init row, first :: front = init ++ [row] :=
        ⟨_, _, (List.dropLast_append_getLast (List.cons_ne_nil first front)).symm⟩
      refine .inr ⟨init, row, rest, ?_, ?_⟩
      · rw [hrows, ← List.cons_append, hinit, List.append_assoc, List.singleton_append]
      · rw [List.singleton_append, hinit, List.getLast?_concat] at hstop
        exact hstop

/-- After the last row of a page come the rows that are left. -/
theorem after_position {cursor : ℕ} {front rest : List α} {row : α}
    (hsorted : layout.Sorted rows)
    (hafter : layout.after cursor rows = front ++ row :: rest) :
    layout.after (layout.position row) rows = rest := by
  have hcursor : cursor < layout.position row := by
    have hmem : row ∈ layout.after cursor rows := by simp [hafter]
    simpa using (List.mem_filter.mp hmem).2
  have htwice : layout.after (layout.position row) rows =
      layout.after (layout.position row) (layout.after cursor rows) := by
    rw [after, after, after, List.filter_filter]
    refine List.filter_congr fun other _ => ?_
    rw [← Bool.decide_and, decide_eq_decide]
    omega
  have hparts : (front ++ row :: rest).Pairwise
      fun row row' => layout.position row < layout.position row' :=
    hafter ▸ hsorted.filter _
  rw [List.pairwise_append, List.pairwise_cons] at hparts
  obtain ⟨-, ⟨hrest, -⟩, hfront⟩ := hparts
  rw [htwice, hafter, after, List.filter_append, List.filter_cons_of_neg (by simp),
    List.filter_eq_nil_iff.mpr, List.filter_eq_self.mpr, List.nil_append]
  · intro other hother
    simpa using hrest other hother
  · intro other hother
    have hlt := hfront other hother row List.mem_cons_self
    simp only [decide_eq_true_eq]
    omega

end Layout

/-- A reader of a table whose rows all fit gets every row after its cursor. -/
theorem scan_after {layout : Layout α} {rows : List α} {f : α → β}
    {fetch : Option ℕ → Except ε (Page β)} (hlimit : 0 < layout.limit)
    (hweight : ∀ row ∈ rows, layout.weight row ≤ layout.maxWeight)
    (hsorted : layout.Sorted rows)
    (hfetch : ∀ cursor, fetch cursor = .ok ((layout.page (cursor.getD 0) rows).map f))
    {fuel : ℕ} {cursor : Option ℕ} (hfuel : (layout.after (cursor.getD 0) rows).length < fuel) :
    scan fetch fuel cursor = some (.ok ((layout.after (cursor.getD 0) rows).map f)) := by
  induction fuel generalizing cursor with
  | zero => omega
  | succ fuel ih =>
    rw [scan_succ, hfetch]
    rcases layout.page_cases (cursor.getD 0) hlimit hweight with
      hall | ⟨front, row, rest, hrows, hstop⟩
    · rw [hall]
      rfl
    · have hleft : layout.after (layout.position row) rows = rest :=
        layout.after_position hsorted hrows
      have hshorter : (layout.after ((some (layout.position row)).getD 0) rows).length < fuel := by
        rw [hrows, List.length_append, List.length_cons] at hfuel
        rw [Option.getD_some, hleft]
        omega
      have hnext := ih hshorter
      rw [Option.getD_some, hleft] at hnext
      rw [hstop, Page.map]
      dsimp only
      rw [hnext, hrows]
      simp [Except.map]

section Oversized
variable {layout : Layout α} {rows taken : List α} {total : ℕ} {last : Option ℕ}
  {fetch : Option ℕ → Except ε (Page β)}

/-- A row that is taken fits on a page. -/
theorem Layout.weight_le_of_mem_collect
    (htaken : ∀ row ∈ taken, layout.weight row ≤ layout.maxWeight) :
    ∀ row ∈ (layout.collect taken total last rows).items,
      layout.weight row ≤ layout.maxWeight := by
  induction rows generalizing taken total last with
  | nil => exact htaken
  | cons row rows ih =>
    rw [collect]
    split_ifs with hfull hheavy
    · exact htaken
    · exact htaken
    · apply ih
      intro other hother
      rcases List.mem_append.mp hother with hold | hnew
      · exact htaken other hold
      · rw [List.mem_singleton.mp hnew]
        omega

/-- A row that does not fit on a page is the end of every page before it: a page after
which nothing is left to read stops short of it. -/
theorem Layout.page_of_oversized (cursor : ℕ) {heavy : α}
    (hmem : heavy ∈ layout.after cursor rows) (hheavy : layout.maxWeight < layout.weight heavy) :
    ∃ front rest, layout.after cursor rows = front ++ rest ∧ heavy ∈ rest ∧
      layout.page cursor rows = ⟨front, front.getLast?.map layout.position⟩ := by
  have htake : layout.page cursor rows = layout.collect [] 0 none (layout.after cursor rows) :=
    collect_take (Nat.zero_le _) (by simp)
  have hfits : ∀ row ∈ (layout.page cursor rows).items, layout.weight row ≤ layout.maxWeight := by
    rw [htake]
    exact weight_le_of_mem_collect (by simp)
  have hout : heavy ∉ (layout.page cursor rows).items := by
    intro hin
    have hle := hfits heavy hin
    omega
  rcases collect_cases layout [] (layout.after cursor rows) 0 with
    hall | ⟨front, rest, hrows, hstop⟩
  · rw [htake] at hout
    change heavy ∉ (layout.collect [] 0 ([].getLast?.map layout.position) _).items at hout
    rw [hall] at hout
    exact absurd hmem hout
  · have hpage : layout.page cursor rows = ⟨front, front.getLast?.map layout.position⟩ :=
      htake.trans hstop
    refine ⟨front, rest, hrows, ?_, hpage⟩
    rw [hpage] at hout
    rw [hrows] at hmem
    exact (List.mem_append.mp hmem).resolve_left hout

/-- The reader never gets past a row that does not fit on a page. -/
theorem scan_short {f : α → β} (hsorted : layout.Sorted rows)
    (hfetch : ∀ cursor, fetch cursor = .ok ((layout.page (cursor.getD 0) rows).map f)) {heavy : α}
    (hheavy : layout.maxWeight < layout.weight heavy) {fuel : ℕ} {cursor : Option ℕ}
    (hmem : heavy ∈ layout.after (cursor.getD 0) rows) {items : List β}
    (hscan : scan fetch fuel cursor = some (.ok items)) :
    items.length < (layout.after (cursor.getD 0) rows).length := by
  induction fuel generalizing cursor items with
  | zero => cases hscan
  | succ fuel ih =>
    obtain ⟨front, rest, hrows, hrest, hpage⟩ :=
      layout.page_of_oversized (cursor.getD 0) hmem hheavy
    have hpos := List.length_pos_of_mem hrest
    rw [scan_succ, hfetch, hpage, Page.map] at hscan
    dsimp only at hscan
    rw [hrows, List.length_append]
    obtain rfl | ⟨front, row, rfl⟩ := List.eq_nil_or_concat front
    · obtain rfl := Except.ok.inj (Option.some.inj hscan)
      simpa using hpos
    · rw [List.concat_eq_append, List.getLast?_concat, Option.map_some] at hscan
      rw [List.concat_eq_append, List.append_assoc, List.singleton_append] at hrows
      have hleft : layout.after ((some (layout.position row)).getD 0) rows = rest :=
        layout.after_position hsorted hrows
      obtain ⟨result, hnext, hitems⟩ := Option.map_eq_some_iff.mp hscan
      cases result with
      | error err => cases hitems
      | ok later =>
        have hshort := ih (hleft ▸ hrest) hnext
        rw [hleft] at hshort
        rw [← Except.ok.inj hitems, List.length_append, List.length_map, List.concat_eq_append]
        omega

/-- A reader that starts before the first row gets all rows exactly if each fits on a
page. -/
theorem scan_complete_iff {f : α → β} (hlimit : 0 < layout.limit)
    (hstart : layout.after 0 rows = rows) (hsorted : layout.Sorted rows)
    (hfetch : ∀ cursor, fetch cursor = .ok ((layout.page (cursor.getD 0) rows).map f)) :
    (∃ pages, ∀ fuel, pages ≤ fuel → scan fetch fuel none = some (.ok (rows.map f))) ↔
      ∀ row ∈ rows, layout.weight row ≤ layout.maxWeight := by
  constructor
  · intro h row hrow
    obtain ⟨pages, hscan⟩ := h
    by_contra hheavy
    have hmem : row ∈ layout.after ((none : Option ℕ).getD 0) rows := by
      rw [Option.getD_none, hstart]
      exact hrow
    have hshort := scan_short hsorted hfetch (Nat.lt_of_not_le hheavy) hmem (hscan pages le_rfl)
    rw [Option.getD_none, hstart, List.length_map] at hshort
    omega
  · intro hweight
    refine ⟨rows.length + 1, ?_⟩
    intro fuel hfuel
    have hleft : (layout.after ((none : Option ℕ).getD 0) rows).length < fuel := by
      rw [Option.getD_none, hstart]
      omega
    rw [scan_after hlimit hweight hsorted hfetch hleft, Option.getD_none, hstart]

end Oversized

section Changing

/-- What the reader gets from the pages of a number of turns. -/
structure Gathered (layout : Layout α) (visible : ℕ → List α) (turn cursor pages : ℕ)
    (rows : List α) : Prop where
  increasing : layout.Sorted rows
  beyond : ∀ row ∈ rows, cursor < layout.position row
  seen : ∀ row ∈ rows, ∃ page, turn ≤ page ∧ page < turn + pages ∧ row ∈ visible page
  complete : ∀ row, cursor < layout.position row →
    (∀ page, turn ≤ page → page < turn + pages → row ∈ visible page) → row ∈ rows

variable {layout : Layout α} {visible : ℕ → List α}

theorem gathered_last {turn cursor : ℕ}
    (hsorted : layout.Sorted (visible turn)) :
    Gathered layout visible turn cursor 1 (layout.after cursor (visible turn)) where
  increasing := hsorted.filter _
  beyond := by
    intro row hrow
    simpa using (List.mem_filter.mp hrow).2
  seen := fun row hrow => ⟨turn, le_rfl, by omega, List.mem_of_mem_filter hrow⟩
  complete := by
    intro row hbeyond hvisible
    exact List.mem_filter.mpr ⟨hvisible turn le_rfl (by omega), decide_eq_true hbeyond⟩

/-- One page more, which stops at a row. -/
theorem Gathered.cons {turn cursor pages : ℕ} {front rest rows : List α} {row : α}
    (hsorted : layout.Sorted (visible turn))
    (hafter : layout.after cursor (visible turn) = front ++ row :: rest)
    (h : Gathered layout visible (turn + 1) (layout.position row) pages rows) :
    Gathered layout visible turn cursor (pages + 1) (front ++ [row] ++ rows) := by
  have hmem : ∀ {other}, other ∈ front ++ [row] ++ rest ↔
      other ∈ visible turn ∧ cursor < layout.position other := by
    intro other
    rw [← List.append_cons, ← hafter, Layout.after, List.mem_filter, decide_eq_true_eq]
  have hparts : (front ++ [row] ++ rest).Pairwise
      fun row row' => layout.position row < layout.position row' := by
    rw [← List.append_cons, ← hafter]
    exact hsorted.filter _
  rw [List.pairwise_append] at hparts
  obtain ⟨hitems, -, hrest⟩ := hparts
  have hrow : row ∈ front ++ [row] := List.mem_append_right _ (List.mem_singleton_self row)
  have hlast : ∀ other ∈ front ++ [row], layout.position other ≤ layout.position row := by
    intro other hother
    rw [List.pairwise_append] at hitems
    rcases List.mem_append.mp hother with hfront | heq
    · exact (hitems.2.2 other hfront row (List.mem_singleton_self row)).le
    · rw [List.mem_singleton.mp heq]
  have hcursor := (hmem.mp (List.mem_append_left rest hrow)).2
  constructor
  case increasing =>
    exact List.pairwise_append.mpr ⟨hitems, h.increasing, fun other hother later hlater =>
      (hlast other hother).trans_lt (h.beyond later hlater)⟩
  case beyond =>
    intro other hother
    rcases List.mem_append.mp hother with hpage | hlater
    · exact (hmem.mp (List.mem_append_left rest hpage)).2
    · exact hcursor.trans (h.beyond other hlater)
  case seen =>
    intro other hother
    rcases List.mem_append.mp hother with hpage | hlater
    · exact ⟨turn, le_rfl, by omega, (hmem.mp (List.mem_append_left rest hpage)).1⟩
    · obtain ⟨page, hfirst, hbound, hvisible⟩ := h.seen other hlater
      exact ⟨page, by omega, by omega, hvisible⟩
  case complete =>
    intro other hbeyond hvisible
    have hnow := hmem.mpr ⟨hvisible turn le_rfl (by omega), hbeyond⟩
    rcases List.mem_append.mp hnow with hpage | hleft
    · exact List.mem_append_left rows hpage
    · refine List.mem_append_right _ (h.complete other (hrest row hrow other hleft) ?_)
      intro page hfirst hbound
      exact hvisible page (by omega) (by omega)

/-- If all positions are bounded, the reader ends. -/
theorem scanFrom_gathered {f : α → β} {fetch : ℕ → Option ℕ → Except ε (Page β)} {bound : ℕ}
    (hlimit : 0 < layout.limit)
    (hweight : ∀ turn, ∀ row ∈ visible turn, layout.weight row ≤ layout.maxWeight)
    (hsorted : ∀ turn, layout.Sorted (visible turn))
    (hbound : ∀ turn, ∀ row ∈ visible turn, layout.position row ≤ bound)
    (hfetch : ∀ turn cursor,
      fetch turn cursor = .ok ((layout.page (cursor.getD 0) (visible turn)).map f))
    (turn : ℕ) (cursor : Option ℕ) :
    ∃ pages rows, Gathered layout visible turn (cursor.getD 0) pages rows ∧
      ∀ fuel, scanFrom fetch fuel turn cursor =
        if pages ≤ fuel then some (.ok (rows.map f)) else none := by
  induction hleft : bound - cursor.getD 0 using Nat.strong_induction_on
    generalizing turn cursor with
  | _ left ih =>
    rcases layout.page_cases (cursor.getD 0) hlimit (hweight turn) with
      hall | ⟨front, row, rest, hrows, hstop⟩
    · refine ⟨1, _, gathered_last (hsorted turn), fun fuel => ?_⟩
      cases fuel with
      | zero => rfl
      | succ fuel =>
        rw [scanFrom, hfetch, hall, if_pos (by omega)]
        rfl
    · have hrow : row ∈ layout.after (cursor.getD 0) (visible turn) := by simp [hrows]
      rw [Layout.after, List.mem_filter, decide_eq_true_eq] at hrow
      have hshorter := hbound turn row hrow.1
      obtain ⟨pages, rows, hgathered, hscan⟩ := ih (bound - layout.position row) (by omega)
        (turn + 1) (some (layout.position row)) rfl
      refine ⟨pages + 1, _, hgathered.cons (hsorted turn) hrows, fun fuel => ?_⟩
      cases fuel with
      | zero => rw [if_neg (by omega)]; rfl
      | succ fuel =>
        rw [scanFrom, hfetch, hstop, Page.map]
        dsimp only
        rw [hscan]
        by_cases henough : pages ≤ fuel
        · rw [if_pos henough, if_pos (by omega)]
          simp [Except.map]
        · rw [if_neg henough, if_neg (by omega)]
          rfl

end Changing

end Spex.Paging
