import Mathlib.Tactic

/-!
# Hash maps as lists of entries

A table is a list of entries with distinct keys; inserting replaces the entry of the
key. A table that is filled from a list of records holds, for every key, the value of
the last record with that key. Records without a key are skipped, and a record whose
value cannot be computed ends the filling.
-/
namespace Spex.Table

variable {κ α ρ : Type} [DecidableEq κ] {table : List (κ × α)} {key : κ} {value : α}

def insert (table : List (κ × α)) (key : κ) (value : α) : List (κ × α) :=
  table.filter (fun entry => entry.1 ≠ key) ++ [(key, value)]

def get (table : List (κ × α)) (key : κ) : Option α :=
  (table.find? fun entry => entry.1 = key).map Prod.snd

def erase (table : List (κ × α)) (key : κ) : List (κ × α) :=
  table.filter fun entry => entry.1 ≠ key

theorem mem_erase {k : κ} {v : α} : (k, v) ∈ erase table key ↔ (k, v) ∈ table ∧ k ≠ key := by
  simp [erase]

theorem mem_insert {k : κ} {v : α} :
    (k, v) ∈ insert table key value ↔ (k, v) ∈ table ∧ k ≠ key ∨ k = key ∧ v = value := by
  simp [insert]

theorem nodup_erase (h : (table.map Prod.fst).Nodup) : ((erase table key).map Prod.fst).Nodup :=
  h.sublist (List.filter_sublist.map _)

theorem erase_of_get_eq_none (h : get table key = none) : erase table key = table := by
  rw [get, Option.map_eq_none_iff, List.find?_eq_none] at h
  rw [erase, List.filter_eq_self]
  simpa using h

/-- Erasing takes one entry off a table with distinct keys. -/
theorem length_erase (h : (table.map Prod.fst).Nodup) (hkey : key ∈ table.map Prod.fst) :
    (erase table key).length + 1 = table.length := by
  have hone : table.countP (fun entry => entry.1 = key) = 1 := by
    rw [← List.count_eq_one_of_mem h hkey, List.count, List.countP_map]
    rfl
  rw [List.length_eq_countP_add_countP (fun entry : κ × α => entry.1 = key) (l := table), hone,
    erase, ← List.countP_eq_length_filter, Nat.add_comm]
  simp

theorem nodup_insert (h : (table.map Prod.fst).Nodup) :
    ((insert table key value).map Prod.fst).Nodup := by
  rw [insert, List.map_append, List.nodup_append]
  refine ⟨nodup_erase h, by simp, ?_⟩
  intro k hk last hlast
  obtain ⟨entry, hentry, rfl⟩ := List.mem_map.mp hk
  have hne := (List.mem_filter.mp hentry).2
  simp only [List.map_cons, List.map_nil, List.mem_singleton] at hlast
  rw [hlast]
  simpa using hne

/-- A new key gets its entry at the end. -/
theorem insert_of_notMem (h : key ∉ table.map Prod.fst) :
    insert table key value = table ++ [(key, value)] := by
  have hkeep : table.filter (fun entry => entry.1 ≠ key) = table := by
    rw [List.filter_eq_self]
    intro entry hentry
    have hne : entry.1 ≠ key := ne_of_mem_of_not_mem (List.mem_map_of_mem hentry) h
    simpa using hne
  rw [insert, hkeep]

/-- Entries with distinct keys make up the table they are inserted into. -/
theorem foldl_insert {entries : List (κ × α)} (h : ((table ++ entries).map Prod.fst).Nodup) :
    entries.foldl (fun table entry => insert table entry.1 entry.2) table = table ++ entries := by
  induction entries generalizing table with
  | nil => simp
  | cons entry entries ih =>
    have hnew : entry.1 ∉ table.map Prod.fst := by
      rw [List.map_append, List.nodup_append] at h
      exact fun hmem => h.2.2 _ hmem entry.1 (by simp) rfl
    rw [List.foldl_cons, insert_of_notMem hnew, ih (by simpa using h)]
    simp

section Filling
variable (key : ρ → Option κ) (value : ρ → Option α)

/-- One turn of the loop over the records. -/
def fillStep (table : List (κ × α)) (entry : ρ) : Option (List (κ × α)) :=
  match key entry with
  | none => some table
  | some k => (value entry).map (insert table k)

def fill (records : List ρ) : Option (List (κ × α)) :=
  records.foldlM (fillStep key value) []

/-- The last record with a key. -/
def Last (records : List ρ) (k : κ) (entry : ρ) : Prop :=
  ∃ earlier later, records = earlier ++ entry :: later ∧ key entry = some k ∧
    ∀ other ∈ later, key other ≠ some k

variable {key value} {records : List ρ} {table : List (κ × α)} {k : κ} {v : α}

theorem fill_append {entry : ρ} : fill key value (records ++ [entry]) =
    (fill key value records).bind fun table => fillStep key value table entry := by
  simp [fill, List.foldlM_append]

omit [DecidableEq κ] in
theorem last_append {entry other : ρ} : Last key (records ++ [entry]) k other ↔
    Last key records k other ∧ key entry ≠ some k ∨ other = entry ∧ key entry = some k := by
  constructor
  · rintro ⟨earlier, later, hrecords, hkey, hlater⟩
    obtain rfl | ⟨later, last, rfl⟩ := List.eq_nil_or_concat later
    · obtain ⟨-, rfl⟩ := List.append_singleton_inj.mp hrecords
      exact .inr ⟨rfl, hkey⟩
    · rw [List.concat_eq_append, ← List.cons_append, ← List.append_assoc,
        List.append_singleton_inj] at hrecords
      obtain ⟨hrecords, rfl⟩ := hrecords
      refine .inl ⟨⟨earlier, later, hrecords, hkey, ?_⟩, hlater entry (by simp)⟩
      exact fun other hother => hlater other (by simp [hother])
  · rintro (⟨⟨earlier, later, rfl, hkey, hlater⟩, hentry⟩ | ⟨rfl, hkey⟩)
    · refine ⟨earlier, later ++ [entry], by simp, hkey, ?_⟩
      intro other hother
      rcases List.mem_append.mp hother with hother | hother
      · exact hlater other hother
      · rwa [List.mem_singleton.mp hother]
    · exact ⟨records, [], rfl, hkey, by simp⟩

/-- Filling succeeds if the value of every record with a key can be computed. -/
theorem isSome_fill : (fill key value records).isSome ↔
    ∀ entry ∈ records, key entry ≠ none → value entry ≠ none := by
  induction records using List.reverseRecOn with
  | nil => simp [fill]
  | append_singleton records entry ih =>
    have hstep : ∀ table : List (κ × α), (fillStep key value table entry).isSome ↔
        (key entry ≠ none → value entry ≠ none) := by
      intro table
      unfold fillStep
      cases key entry <;> simp [Option.isSome_iff_ne_none]
    rw [fill_append, List.forall_mem_append, List.forall_mem_singleton, ← ih]
    cases fill key value records with
    | none => simp
    | some table => simp [hstep]

/-- A filled table holds the value of the last record of every key. -/
theorem mem_fill (h : fill key value records = some table) :
    (k, v) ∈ table ↔ ∃ entry, Last key records k entry ∧ value entry = some v := by
  induction records using List.reverseRecOn generalizing table with
  | nil =>
    obtain rfl := Option.some.inj h
    simp [Last]
  | append_singleton records entry ih =>
    rw [fill_append] at h
    obtain ⟨before, hbefore, hstep⟩ := Option.bind_eq_some_iff.mp h
    have hlast : (∃ other, Last key (records ++ [entry]) k other ∧ value other = some v) ↔
        (k, v) ∈ before ∧ key entry ≠ some k ∨ key entry = some k ∧ value entry = some v := by
      rw [ih hbefore]
      constructor
      · rintro ⟨other, hother, hvalue⟩
        rcases last_append.mp hother with ⟨hlast, hkey⟩ | ⟨rfl, hkey⟩
        · exact .inl ⟨⟨other, hlast, hvalue⟩, hkey⟩
        · exact .inr ⟨hkey, hvalue⟩
      · rintro (⟨⟨other, hlast, hvalue⟩, hkey⟩ | ⟨hkey, hvalue⟩)
        · exact ⟨other, last_append.mpr (.inl ⟨hlast, hkey⟩), hvalue⟩
        · exact ⟨entry, last_append.mpr (.inr ⟨rfl, hkey⟩), hvalue⟩
    rw [hlast]
    unfold fillStep at hstep
    cases hkey : key entry with
    | none =>
      simp only [hkey, Option.some.injEq] at hstep
      simp [← hstep]
    | some k' =>
      simp only [hkey] at hstep
      obtain ⟨v', hv', rfl⟩ := Option.map_eq_some_iff.mp hstep
      simp [mem_insert, hv', eq_comm]

theorem nodup_fill (h : fill key value records = some table) :
    (table.map Prod.fst).Nodup := by
  induction records using List.reverseRecOn generalizing table with
  | nil =>
    obtain rfl := Option.some.inj h
    simp
  | append_singleton records entry ih =>
    rw [fill_append] at h
    obtain ⟨before, hbefore, hstep⟩ := Option.bind_eq_some_iff.mp h
    unfold fillStep at hstep
    cases hkey : key entry with
    | none =>
      simp only [hkey, Option.some.injEq] at hstep
      exact hstep ▸ ih hbefore
    | some k =>
      simp only [hkey] at hstep
      obtain ⟨v, -, rfl⟩ := Option.map_eq_some_iff.mp hstep
      exact nodup_insert (ih hbefore)

theorem get_eq_some (h : (table.map Prod.fst).Nodup) : get table k = some v ↔ (k, v) ∈ table := by
  constructor
  · intro hget
    obtain ⟨⟨k', v'⟩, hfind, rfl⟩ := Option.map_eq_some_iff.mp hget
    obtain rfl : k' = k := by simpa using List.find?_some hfind
    exact List.mem_of_find?_eq_some hfind
  · intro hmem
    cases hfind : table.find? fun entry => entry.1 = k with
    | none =>
      have := List.find?_eq_none.mp hfind (k, v) hmem
      simp at this
    | some entry =>
      have hkey : entry.1 = k := by simpa using List.find?_some hfind
      have heq := List.inj_on_of_nodup_map h (List.mem_of_find?_eq_some hfind) hmem hkey
      rw [get, hfind, heq]
      rfl

end Filling

end Spex.Table
