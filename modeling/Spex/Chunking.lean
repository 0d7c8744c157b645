import Spex.KeySort
import Spex.CborValue

/-!
# Splitting a payload into chunks

`chunk_data` cuts a payload into pieces of one size, the last one shorter, and
addresses each by its hash; `reassemble_chunks` sorts pieces by index and joins
them. The sort is `sort_unstable_by_key`, of which only this is assumed: it
returns the same chunks in order of index.
-/
namespace Spex

section Slices
variable {α : Type*}

def chunksFrom (n : ℕ) : ℕ → List α → List (List α)
  | 0, _ => []
  | fuel + 1, l => if l.isEmpty then [] else l.take n :: chunksFrom n fuel (l.drop n)

/-- `slice::chunks`, for a size that is not zero. -/
def chunks (n : ℕ) (l : List α) : List (List α) := chunksFrom n l.length l

lemma flatten_chunksFrom {n : ℕ} (hn : 0 < n) (fuel : ℕ) (l : List α) (h : l.length ≤ fuel) :
    (chunksFrom n fuel l).flatten = l := by
  induction fuel generalizing l with
  | zero =>
    have hl : l = [] := List.length_eq_zero_iff.mp (by omega)
    subst hl
    rfl
  | succ fuel ih =>
    unfold chunksFrom
    cases l with
    | nil => rfl
    | cons a l =>
      have hdrop : ((a :: l).drop n).length ≤ fuel := by
        rw [List.length_drop]
        simp only [List.length_cons] at h ⊢
        omega
      simp only [List.isEmpty_cons, Bool.false_eq_true, if_false, List.flatten_cons, ih _ hdrop]
      exact List.take_append_drop n (a :: l)

/-- The pieces joined are the whole. -/
theorem flatten_chunks {n : ℕ} (hn : 0 < n) (l : List α) : (chunks n l).flatten = l :=
  flatten_chunksFrom hn l.length l le_rfl

/-- What fits one piece is cut into one at most. -/
theorem length_chunks_le_one {n : ℕ} {l : List α} (h : l.length ≤ n) : (chunks n l).length ≤ 1 := by
  unfold chunks
  cases hfuel : l.length with
  | zero => exact Nat.zero_le 1
  | succ fuel =>
    have hdrop : l.drop n = [] := List.drop_eq_nil_of_le h
    unfold chunksFrom
    split_ifs
    · exact Nat.zero_le 1
    · rw [hdrop, List.length_cons]
      cases fuel <;> simp [chunksFrom]

end Slices

structure Chunk where
  index : ℕ
  hash : Bytes
  data : Bytes
  deriving DecidableEq, Repr

section Chunking
variable (hashBytes : Bytes → Bytes) (sortUnstable : List Chunk → List Chunk)

/-- Each piece with its position and hash. -/
def addressed (pieces : List Bytes) : List Chunk :=
  pieces.mapIdx fun index chunk => ⟨index, hashBytes chunk, chunk⟩

/-- The chunks of a payload; `none` is the panic of `chunks(0)`. -/
def chunkData (chunkSize : ℕ) (data : Bytes) : Option (List Chunk) :=
  if data.isEmpty then some []
  else if chunkSize = 0 then none
  else some (addressed hashBytes (chunks chunkSize data))

def reassembleChunks (chunks : List Chunk) : Bytes :=
  (sortUnstable chunks).flatMap Chunk.data

/-- What is assumed of sorting by index. -/
structure SortsByIndex : Prop where
  perm : ∀ l, (sortUnstable l).Perm l
  sorted : ∀ l, (sortUnstable l).Pairwise fun a b => a.index ≤ b.index

/-- A stable sort is one such sort. -/
theorem sortsByIndex_sortOn : SortsByIndex (KeySort.sortOn (· ≤ ·) Chunk.index) where
  perm := KeySort.sortOn_perm _ _
  sorted := KeySort.sortOn_pairwise _ _

variable {sortUnstable}

/-- Chunks that are in strict order of index are left alone. -/
theorem SortsByIndex.eq_of_increasing (hs : SortsByIndex sortUnstable) {l : List Chunk}
    (h : l.Pairwise fun a b => a.index < b.index) : sortUnstable l = l := by
  refine List.Perm.eq_of_pairwise ?_ (hs.sorted l) (h.imp le_of_lt) (hs.perm l)
  intro a b ha hb hab hba
  have hidx : a.index = b.index := le_antisymm hab hba
  have hnodup : (l.map Chunk.index).Nodup := by
    rw [List.Nodup, List.pairwise_map]
    exact h.imp ne_of_lt
  exact List.inj_on_of_nodup_map hnodup ((hs.perm l).mem_iff.mp ha) hb hidx

theorem chunkData_eq {chunkSize : ℕ} (hn : 0 < chunkSize) (data : Bytes) :
    chunkData hashBytes chunkSize data = some (addressed hashBytes (chunks chunkSize data)) := by
  cases data with
  | nil => rfl
  | cons a data => simp [chunkData, hn.ne']

/-- Whenever chunking succeeds, the chunks are slices that join to the payload. -/
theorem chunkData_eq_some {chunkSize : ℕ} {data : Bytes} {pieces : List Chunk}
    (h : chunkData hashBytes chunkSize data = some pieces) :
    ∃ slices, pieces = addressed hashBytes slices ∧ slices.flatten = data := by
  cases data with
  | nil => exact ⟨[], (Option.some.inj h).symm, rfl⟩
  | cons a data =>
    by_cases hn : chunkSize = 0
    · simp [chunkData, hn] at h
    · have hpos : 0 < chunkSize := Nat.pos_of_ne_zero hn
      rw [chunkData_eq hashBytes hpos, Option.some.injEq] at h
      exact ⟨_, h.symm, flatten_chunks hpos _⟩

theorem addressed_increasing (pieces : List Bytes) :
    (addressed hashBytes pieces).Pairwise fun a b => a.index < b.index := by
  rw [addressed, List.pairwise_iff_getElem]
  intro i j hi hj hij
  simpa using hij

theorem map_data_addressed (pieces : List Bytes) :
    (addressed hashBytes pieces).map Chunk.data = pieces := by
  apply List.ext_getElem <;> simp [addressed]

theorem map_hash_addressed (pieces : List Bytes) :
    (addressed hashBytes pieces).map Chunk.hash = pieces.map hashBytes := by
  apply List.ext_getElem <;> simp [addressed]

theorem hash_of_mem_addressed {pieces : List Bytes} {c : Chunk}
    (h : c ∈ addressed hashBytes pieces) : c.hash = hashBytes c.data := by
  rw [addressed, List.mem_mapIdx] at h
  obtain ⟨i, hi, rfl⟩ := h
  rfl

/-- Pieces in order of index join to the concatenation. -/
theorem reassembleChunks_addressed (hs : SortsByIndex sortUnstable) (pieces : List Bytes) :
    reassembleChunks sortUnstable (addressed hashBytes pieces) = pieces.flatten := by
  rw [reassembleChunks, hs.eq_of_increasing (addressed_increasing hashBytes pieces),
    List.flatMap_def, map_data_addressed]

end Chunking
end Spex
