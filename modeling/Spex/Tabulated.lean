import Mathlib.Tactic

/-!
# Functions given on a few points

A function on byte strings that takes listed values at listed points, and
elsewhere prepends a byte that no listed value starts with. It is injective, so
it can stand for a hash function whose digests matter at the listed points only.
-/
namespace Spex.Tabulated

variable {table : List (List UInt8 × List UInt8)}

def tabulated (table : List (List UInt8 × List UInt8)) (input : List UInt8) : List UInt8 :=
  match table.find? (fun row => row.1 = input) with
  | some row => row.2
  | none => 0 :: input

/-- Listed values at listed points, and elsewhere the first bytes of the input. -/
def padded (table : List (List UInt8 × List UInt8)) (count : ℕ) (input : List UInt8) :
    List UInt8 :=
  ((table.find? fun row => row.1 = input).map Prod.snd).getD (input.takeD count 0)

theorem length_padded {count : ℕ} (h : ∀ row ∈ table, row.2.length = count)
    (input : List UInt8) : (padded table count input).length = count := by
  unfold padded
  cases hrow : table.find? fun row => row.1 = input with
  | none => simp [List.takeD_length]
  | some row => exact h row (List.mem_of_find?_eq_some hrow)

/-- Distinct values, none of which starts with a zero byte. -/
def Proper (table : List (List UInt8 × List UInt8)) : Prop :=
  (table.map Prod.snd).Nodup ∧ ∀ row ∈ table, row.2.head? ≠ some 0

instance : Decidable (Proper table) :=
  inferInstanceAs (Decidable ((table.map Prod.snd).Nodup ∧ ∀ row ∈ table, row.2.head? ≠ some 0))

theorem tabulated_eq (table : List (List UInt8 × List UInt8)) (input : List UInt8) :
    (∃ row ∈ table, row.1 = input ∧ tabulated table input = row.2) ∨
      tabulated table input = 0 :: input := by
  unfold tabulated
  cases h : table.find? (fun row => row.1 = input) with
  | some row =>
    exact .inl ⟨row, List.mem_of_find?_eq_some h, by simpa using List.find?_some h, rfl⟩
  | none => exact .inr rfl

theorem tabulated_of_mem {row : List UInt8 × List UInt8} (hkeys : (table.map Prod.fst).Nodup)
    (hrow : row ∈ table) : tabulated table row.1 = row.2 := by
  unfold tabulated
  cases h : table.find? (fun other => other.1 = row.1) with
  | some other =>
    have heq : other.1 = row.1 := by simpa using List.find?_some h
    rw [List.inj_on_of_nodup_map hkeys (List.mem_of_find?_eq_some h) hrow heq]
  | none =>
    rw [List.find?_eq_none] at h
    exact absurd (decide_eq_true rfl) (h row hrow)

theorem tabulated_injective (h : Proper table) : Function.Injective (tabulated table) := by
  intro a b hab
  rcases tabulated_eq table a with ⟨r, hr, rfl, ha⟩ | ha <;>
    rcases tabulated_eq table b with ⟨s, hs, rfl, hb⟩ | hb <;> rw [ha, hb] at hab
  · rw [List.inj_on_of_nodup_map h.1 hr hs hab]
  · exact absurd (by rw [hab]; rfl) (h.2 r hr)
  · exact absurd (by rw [← hab]; rfl) (h.2 s hs)
  · exact (List.cons.inj hab).2

/-- The point at which a tabulated function takes a value, if there is one. -/
def preimage (table : List (List UInt8 × List UInt8)) (value : List UInt8) : Option (List UInt8) :=
  (value.tail :: table.map Prod.fst).find? fun input => tabulated table input = value

theorem preimage_eq_some (h : Proper table) {input value : List UInt8} :
    preimage table value = some input ↔ tabulated table input = value := by
  constructor
  · intro hfind
    simpa using List.find?_some hfind
  · intro hvalue
    have hmem : input ∈ value.tail :: table.map Prod.fst := by
      rcases tabulated_eq table input with ⟨row, hrow, rfl, -⟩ | heq
      · exact List.mem_cons_of_mem _ (List.mem_map_of_mem hrow)
      · rw [← hvalue, heq]
        exact List.mem_cons_self
    obtain ⟨found, hfound⟩ : ∃ found, preimage table value = some found := by
      rw [← Option.isSome_iff_exists, preimage, List.find?_isSome]
      exact ⟨input, hmem, by simpa using hvalue⟩
    have heq : tabulated table found = value := by simpa using List.find?_some hfound
    rw [hfound, tabulated_injective h (heq.trans hvalue.symm)]

end Spex.Tabulated
