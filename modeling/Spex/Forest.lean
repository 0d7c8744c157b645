import Mathlib.Data.List.ReduceOption
import Mathlib.Data.Nat.Size
import Mathlib.Tactic

/-!
# Perfect trees over a growing list

The leaves of a list are split from left to right into blocks whose sizes are the
powers of two in the length, the largest first. Every block has a perfect tree,
and the roots of the blocks are joined, beginning with the largest. The same root
can be kept up to date while leaves are added at the end: a slot for every level
holds the root of the block of that level, and a new leaf is carried through the
occupied slots like a one through the digits of a binary counter.
-/
namespace Spex.Forest

variable {α : Type*}

section Slots
variable (combine : α → α → α)

/-- A block is carried into the slots of its level and above. -/
def push (carry : α) : List (Option α) → List (Option α)
  | [] => [some carry]
  | none :: slots => some carry :: slots
  | some left :: slots => none :: push (combine left carry) slots

/-- The occupied slots as binary digits, the lowest first. -/
def value : List (Option α) → ℕ
  | [] => 0
  | slot :: slots => Nat.bit slot.isSome (value slots)

@[simp] theorem value_nil : value ([] : List (Option α)) = 0 := rfl

@[simp] theorem value_none (slots : List (Option α)) : value (none :: slots) = 2 * value slots := by
  simp [value, Nat.bit]

@[simp] theorem value_some (top : α) (slots : List (Option α)) :
    value (some top :: slots) = 2 * value slots + 1 := by
  simp [value, Nat.bit]

theorem value_lt (slots : List (Option α)) : value slots < 2 ^ slots.length := by
  induction slots with
  | nil => simp
  | cons slot slots ih =>
    rw [List.length_cons, pow_succ]
    cases slot with
    | none => rw [value_none]; omega
    | some top => rw [value_some]; omega

/-- A slot is occupied exactly when its digit is one. -/
theorem testBit_value (slots : List (Option α)) (i : ℕ) :
    (value slots).testBit i = (slots[i]?.join).isSome := by
  induction slots generalizing i with
  | nil => simp
  | cons slot slots ih =>
    cases i with
    | zero => simp [value]
    | succ i => simp [value, Nat.testBit_bit_succ, ih]

theorem length_take_of_testBit {leaves : List α} {height : ℕ}
    (h : leaves.length.testBit height = true) :
    (leaves.take (2 ^ height)).length = 2 ^ height := by
  rw [List.length_take, Nat.min_eq_left (Nat.ge_two_pow_of_testBit h)]

theorem lt_of_testBit_eq_false {height n : ℕ} (h : n < 2 ^ (height + 1))
    (hbit : n.testBit height ≠ true) : n < 2 ^ height := by
  by_contra hle
  obtain ⟨rest, rfl⟩ := Nat.exists_eq_add_of_le (Nat.le_of_not_lt hle)
  have hrest : rest < 2 ^ height := by
    rw [pow_succ] at h
    omega
  rw [Nat.testBit_two_pow_add_eq, Nat.testBit_lt_two_pow hrest] at hbit
  exact hbit rfl

end Slots

section Blocks
variable [Inhabited α] (combine : α → α → α)

/-- The root of the perfect tree over a block of `2 ^ height` leaves. -/
def perfectRoot : ℕ → List α → α
  | 0, leaves => leaves.headD default
  | height + 1, leaves =>
    combine (perfectRoot height (leaves.take (2 ^ height)))
      (perfectRoot height (leaves.drop (2 ^ height)))

/-- The roots of the blocks of less than `2 ^ height` leaves, the largest first. -/
def blockRoots : ℕ → List α → List α
  | 0, _ => []
  | height + 1, leaves =>
    if leaves.length.testBit height then
      perfectRoot combine height (leaves.take (2 ^ height)) ::
        blockRoots height (leaves.drop (2 ^ height))
    else blockRoots height leaves

/-- Roots joined from the first on, each next one as the left child. -/
def joined : List α → α
  | [] => default
  | top :: rest => rest.foldl (fun accum block => combine block accum) top

def root (leaves : List α) : α :=
  joined combine (blockRoots combine leaves.length.size leaves)

/-- Slots from a level on hold the roots of the blocks of the leaves. -/
def Holds : ℕ → List (Option α) → List α → Prop
  | _, [], leaves => leaves = []
  | level, none :: slots, leaves => Holds (level + 1) slots leaves
  | level, some top :: slots, leaves => ∃ front block, leaves = front ++ block ∧
      block.length = 2 ^ level ∧ perfectRoot combine level block = top ∧
      Holds (level + 1) slots front

variable {combine} {level height : ℕ} {slots : List (Option α)} {leaves : List α}

theorem perfectRoot_append {left right : List α} (h : left.length = 2 ^ height) :
    perfectRoot combine (height + 1) (left ++ right) =
      combine (perfectRoot combine height left) (perfectRoot combine height right) := by
  rw [perfectRoot, List.take_left' h, List.drop_left' h]

theorem length_of_holds (h : Holds combine level slots leaves) :
    leaves.length = 2 ^ level * value slots := by
  induction slots generalizing level leaves with
  | nil =>
    rw [Holds] at h
    simp [h]
  | cons slot slots ih =>
    cases slot with
    | none =>
      rw [ih h, value_none, pow_succ]
      ring
    | some top =>
      obtain ⟨front, block, rfl, hblock, -, hfront⟩ := h
      rw [List.length_append, ih hfront, hblock, value_some, pow_succ]
      ring

/-- A block that follows the leaves is carried into the slots. -/
theorem holds_push {carry : α} {block : List α} (h : Holds combine level slots leaves)
    (hblock : block.length = 2 ^ level) (hcarry : perfectRoot combine level block = carry) :
    Holds combine level (push combine carry slots) (leaves ++ block) := by
  induction slots generalizing level leaves carry block with
  | nil =>
    rw [Holds] at h
    exact ⟨[], block, by rw [h], hblock, hcarry, rfl⟩
  | cons slot slots ih =>
    cases slot with
    | none => exact ⟨leaves, block, rfl, hblock, hcarry, h⟩
    | some left =>
      obtain ⟨front, last, rfl, hlast, hleft, hfront⟩ := h
      rw [push, Holds, List.append_assoc]
      refine ih hfront ?_ ?_
      · rw [List.length_append, hlast, hblock, pow_succ]
        ring
      · rw [perfectRoot_append hlast, hleft, hcarry]

theorem blockRoots_of_lt (h : leaves.length < 2 ^ height) (more : ℕ) :
    blockRoots combine (height + more) leaves = blockRoots combine height leaves := by
  induction more with
  | zero => rfl
  | succ more ih =>
    have hlt : leaves.length < 2 ^ (height + more) :=
      h.trans_le (Nat.pow_le_pow_right (by omega) (by omega))
    rw [← Nat.add_assoc, blockRoots, if_neg (by simp [Nat.testBit_lt_two_pow hlt]), ih]

theorem blockRoots_eq {height' : ℕ} (h : leaves.length < 2 ^ height)
    (h' : leaves.length < 2 ^ height') :
    blockRoots combine height leaves = blockRoots combine height' leaves := by
  rcases Nat.le_total height height' with hle | hle
  · obtain ⟨more, rfl⟩ := Nat.exists_eq_add_of_le hle
    exact (blockRoots_of_lt h more).symm
  · obtain ⟨more, rfl⟩ := Nat.exists_eq_add_of_le hle
    exact blockRoots_of_lt h' more

/-- The occupied slots are the roots of the blocks. Leaves that are fewer than a
block of the lowest level may follow. -/
theorem blockRoots_holds (h : Holds combine level slots leaves) (rest : List α)
    (hrest : rest.length < 2 ^ level) :
    blockRoots combine (level + slots.length) (leaves ++ rest) =
      slots.reverse.reduceOption ++ blockRoots combine level rest := by
  induction slots generalizing level leaves rest with
  | nil =>
    rw [Holds] at h
    simp [h]
  | cons slot slots ih =>
    have hheight : level + (slot :: slots).length = level + 1 + slots.length := by
      rw [List.length_cons]
      omega
    rw [hheight, List.reverse_cons, List.reduceOption_append]
    cases slot with
    | none =>
      rw [ih h rest (hrest.trans (Nat.pow_lt_pow_succ (by omega))), blockRoots,
        if_neg (by simp [Nat.testBit_lt_two_pow hrest])]
      simp
    | some top =>
      obtain ⟨front, block, rfl, hblock, htop, hfront⟩ := h
      have hlength : (block ++ rest).length = 2 ^ level + rest.length := by
        rw [List.length_append, hblock]
      have hbit : (block ++ rest).length.testBit level = true := by
        rw [hlength, Nat.testBit_two_pow_add_eq, Nat.testBit_lt_two_pow hrest]
        rfl
      rw [List.append_assoc, ih hfront (block ++ rest) (by rw [hlength, pow_succ]; omega),
        blockRoots, if_pos hbit, List.take_left' hblock, List.drop_left' hblock, htop]
      simp

/-- The slots give the root of the leaves. -/
theorem root_of_holds (h : Holds combine 0 slots leaves) :
    root combine leaves = joined combine slots.reverse.reduceOption := by
  have hblocks := blockRoots_holds h [] (by simp)
  have hlength := length_of_holds h
  rw [List.append_nil, Nat.zero_add, blockRoots, List.append_nil] at hblocks
  rw [root, ← hblocks]
  refine congrArg (joined combine) (blockRoots_eq (Nat.lt_size_self _) ?_)
  rw [hlength, pow_zero, Nat.one_mul]
  exact value_lt slots

theorem blockRoots_ne_nil (h : leaves ≠ []) (hlt : leaves.length < 2 ^ height) :
    blockRoots combine height leaves ≠ [] := by
  induction height with
  | zero =>
    rw [pow_zero, Nat.lt_one_iff, List.length_eq_zero_iff] at hlt
    exact absurd hlt h
  | succ height ih =>
    rw [blockRoots]
    split_ifs with hbit
    · exact List.cons_ne_nil _ _
    · exact ih (lt_of_testBit_eq_false hlt hbit)

end Blocks

section Maps
variable {β : Type*} [Inhabited α] [Inhabited β] {combine : α → α → α} {combine' : β → β → β}
  {f : α → β} {leaves : List α}

theorem map_perfectRoot (hf : ∀ x y, f (combine x y) = combine' (f x) (f y)) {height : ℕ}
    (h : leaves.length = 2 ^ height) :
    f (perfectRoot combine height leaves) = perfectRoot combine' height (leaves.map f) := by
  induction height generalizing leaves with
  | zero =>
    obtain ⟨leaf, rfl⟩ := List.length_eq_one_iff.mp h
    rfl
  | succ height ih =>
    rw [pow_succ] at h
    rw [perfectRoot, perfectRoot, hf, ih (by rw [List.length_take]; omega),
      ih (by rw [List.length_drop]; omega), List.map_take, List.map_drop]

theorem map_blockRoots (hf : ∀ x y, f (combine x y) = combine' (f x) (f y)) (height : ℕ) :
    (blockRoots combine height leaves).map f = blockRoots combine' height (leaves.map f) := by
  induction height generalizing leaves with
  | zero => rfl
  | succ height ih =>
    rw [blockRoots, blockRoots, List.length_map]
    split_ifs with hbit
    · rw [List.map_cons, map_perfectRoot hf (length_take_of_testBit hbit), ih, List.map_take,
        List.map_drop]
    · exact ih

theorem map_joined (hf : ∀ x y, f (combine x y) = combine' (f x) (f y)) {roots : List α}
    (h : roots ≠ []) : f (joined combine roots) = joined combine' (roots.map f) := by
  cases roots with
  | nil => exact absurd rfl h
  | cons top rest =>
    rw [List.map_cons, joined, joined]
    clear h
    induction rest generalizing top with
    | nil => rfl
    | cons block rest ih => rw [List.foldl_cons, ih, hf, List.map_cons, List.foldl_cons]

/-- A map that respects the operations takes roots to roots. -/
theorem map_root (f : α → β) (hf : ∀ x y, f (combine x y) = combine' (f x) (f y))
    (h : leaves ≠ []) :
    f (root combine leaves) = root combine' (leaves.map f) := by
  rw [root, root, map_joined hf (blockRoots_ne_nil h (Nat.lt_size_self _)), map_blockRoots hf,
    List.length_map]

end Maps

section Sums

theorem perfectRoot_add {height : ℕ} {leaves : List ℕ} (h : leaves.length = 2 ^ height) :
    perfectRoot (· + ·) height leaves = leaves.sum := by
  induction height generalizing leaves with
  | zero =>
    obtain ⟨leaf, rfl⟩ := List.length_eq_one_iff.mp h
    simp [perfectRoot]
  | succ height ih =>
    rw [pow_succ] at h
    rw [perfectRoot, ih (by rw [List.length_take]; omega), ih (by rw [List.length_drop]; omega),
      List.sum_take_add_sum_drop]

theorem sum_blockRoots {height : ℕ} {leaves : List ℕ} (h : leaves.length < 2 ^ height) :
    (blockRoots (· + ·) height leaves).sum = leaves.sum := by
  induction height generalizing leaves with
  | zero =>
    rw [pow_zero, Nat.lt_one_iff, List.length_eq_zero_iff] at h
    simp [blockRoots, h]
  | succ height ih =>
    rw [blockRoots]
    split_ifs with hbit
    · have hrest : (leaves.drop (2 ^ height)).length < 2 ^ height := by
        rw [List.length_drop, pow_succ] at *
        omega
      rw [List.sum_cons, perfectRoot_add (length_take_of_testBit hbit), ih hrest,
        List.sum_take_add_sum_drop]
    · exact ih (lt_of_testBit_eq_false h hbit)

theorem joined_add (roots : List ℕ) : joined (· + ·) roots = roots.sum := by
  cases roots with
  | nil => rfl
  | cons top rest =>
    rw [joined, List.sum_cons]
    induction rest generalizing top with
    | nil => rfl
    | cons block rest ih =>
      rw [List.foldl_cons, ih, List.sum_cons]
      omega

theorem root_add (leaves : List ℕ) : root (· + ·) leaves = leaves.sum := by
  rw [root, joined_add, sum_blockRoots (Nat.lt_size_self _)]

end Sums

section Injective
variable [Inhabited α] {combine : α → α → α} {leaves leaves' : List α}

theorem perfectRoot_inj (hc : Function.Injective2 combine) {height : ℕ}
    (h : leaves.length = 2 ^ height) (h' : leaves'.length = 2 ^ height)
    (heq : perfectRoot combine height leaves = perfectRoot combine height leaves') :
    leaves = leaves' := by
  induction height generalizing leaves leaves' with
  | zero =>
    obtain ⟨leaf, rfl⟩ := List.length_eq_one_iff.mp h
    obtain ⟨leaf', rfl⟩ := List.length_eq_one_iff.mp h'
    exact congrArg (fun leaf => [leaf]) heq
  | succ height ih =>
    rw [pow_succ] at h h'
    obtain ⟨hleft, hright⟩ := hc heq
    have htake := ih (by rw [List.length_take]; omega) (by rw [List.length_take]; omega) hleft
    have hdrop := ih (by rw [List.length_drop]; omega) (by rw [List.length_drop]; omega) hright
    rw [← List.take_append_drop (2 ^ height) leaves, htake, hdrop, List.take_append_drop]

theorem blockRoots_inj (hc : Function.Injective2 combine) {height : ℕ}
    (hlength : leaves.length = leaves'.length) (h : leaves.length < 2 ^ height)
    (heq : blockRoots combine height leaves = blockRoots combine height leaves') :
    leaves = leaves' := by
  induction height generalizing leaves leaves' with
  | zero =>
    rw [pow_zero, Nat.lt_one_iff] at h
    have h' : leaves'.length = 0 := hlength ▸ h
    rw [List.length_eq_zero_iff.mp h, List.length_eq_zero_iff.mp h']
  | succ height ih =>
    rw [blockRoots, blockRoots, ← hlength] at heq
    split_ifs at heq with hbit
    · rw [List.cons.injEq] at heq
      have htake := perfectRoot_inj hc (length_take_of_testBit hbit)
        (length_take_of_testBit (hlength ▸ hbit)) heq.1
      have hdrop := ih (by rw [List.length_drop, List.length_drop, hlength])
        (by rw [List.length_drop]; rw [pow_succ] at h; omega) heq.2
      rw [← List.take_append_drop (2 ^ height) leaves, htake, hdrop, List.take_append_drop]
    · exact ih hlength (lt_of_testBit_eq_false h hbit) heq

theorem joined_inj (hc : Function.Injective2 combine) {roots roots' : List α}
    (hlength : roots.length = roots'.length) (heq : joined combine roots = joined combine roots') :
    roots = roots' := by
  cases roots with
  | nil => exact (List.length_eq_zero_iff.mp hlength.symm).symm
  | cons top rest =>
    cases roots' with
    | nil => simp at hlength
    | cons top' rest' =>
      rw [joined, joined] at heq
      rw [List.length_cons, List.length_cons, Nat.add_right_cancel_iff] at hlength
      induction rest generalizing top top' rest' with
      | nil =>
        rw [List.length_eq_zero_iff.mp hlength.symm] at heq ⊢
        exact congrArg (fun top => [top]) heq
      | cons block rest ih =>
        cases rest' with
        | nil => simp at hlength
        | cons block' rest' =>
          rw [List.foldl_cons, List.foldl_cons] at heq
          have hrest := ih _ _ _ (by simpa using hlength) heq
          rw [List.cons.injEq] at hrest
          obtain ⟨hblock, htop⟩ := hc hrest.1
          rw [hblock, htop, hrest.2]

/-- The number of blocks depends on the number of leaves alone. -/
theorem length_blockRoots (hlength : leaves.length = leaves'.length) (height : ℕ) :
    (blockRoots combine height leaves).length = (blockRoots combine height leaves').length := by
  have hunit : ∀ xs : List α, (blockRoots combine height xs).length =
      (blockRoots (fun _ _ => ()) height (xs.map fun _ => ())).length := by
    intro xs
    have hmap : (blockRoots combine height xs).map (fun _ => ()) =
        blockRoots (fun _ _ => ()) height (xs.map fun _ => ()) := map_blockRoots (fun _ _ => rfl) _
    rw [← hmap, List.length_map]
  rw [hunit, hunit, List.map_const', List.map_const', hlength]

/-- Among lists of one length, the root determines the leaves. -/
theorem root_inj (hc : Function.Injective2 combine) (hlength : leaves.length = leaves'.length)
    (heq : root combine leaves = root combine leaves') : leaves = leaves' := by
  rw [root, root, ← hlength] at heq
  exact blockRoots_inj hc hlength (Nat.lt_size_self _)
    (joined_inj hc (length_blockRoots hlength _) heq)

end Injective

end Spex.Forest
