import Spex.Transport

/-!
# Chunks in any order of arrival

Chunks arrive in any order and may be repeated. Of the chunks with one hash the first is
kept, and only then is its index compared with the manifest. The hash of a chunk does not
cover its index, so a chunk that is replayed under another index hides the right one if
it comes first.
-/
namespace Spex
open Fallible

section Order
variable {hashBytes : Bytes → Bytes} {sortUnstable : List Chunk → List Chunk}
  {manifest : ChunkManifest} {cs ordered : List Chunk} {payload : Bytes} {d : ChunkDescriptor}
  {c c' : Chunk}

/-- Sorting commutes with a map that keeps distinct indices. -/
theorem SortsByIndex.map (hs : SortsByIndex sortUnstable) {l : List Chunk} {f : Chunk → Chunk}
    (hindex : ∀ c ∈ l, (f c).index = c.index) (hnodup : (l.map Chunk.index).Nodup) :
    sortUnstable (l.map f) = (sortUnstable l).map f := by
  have hperm := (hs.perm (l.map f)).trans ((hs.perm l).map f).symm
  have hsorted : ((sortUnstable l).map f).Pairwise fun a b => a.index ≤ b.index := by
    rw [List.pairwise_map]
    apply (hs.sorted l).imp_of_mem
    intro a b ha hb hab
    rwa [hindex a ((hs.perm l).mem_iff.mp ha), hindex b ((hs.perm l).mem_iff.mp hb)]
  have hdistinct : ((l.map f).map Chunk.index).Nodup := by
    have hsame : (l.map f).map Chunk.index = l.map Chunk.index := by
      rw [List.map_map]
      exact List.map_congr_left hindex
    rwa [hsame]
  apply List.Perm.eq_of_pairwise _ (hs.sorted _) hsorted hperm
  intro a b ha hb hab hba
  have ha' := (hs.perm _).mem_iff.mp ha
  have hb' := (hs.perm _).mem_iff.mp (hperm.mem_iff.mpr hb)
  exact List.inj_on_of_nodup_map hdistinct ha' hb' (le_antisymm hab hba)

theorem length_reassembleChunks (hs : SortsByIndex sortUnstable) (l : List Chunk) :
    (reassembleChunks sortUnstable l).length = (l.map fun c => c.data.length).sum := by
  rw [reassembleChunks, List.length_flatMap]
  exact ((hs.perm l).map _).sum_eq

/-- The chunk that is kept for a descriptor. -/
def KeptFor (cs : List Chunk) (d : ChunkDescriptor) (c : Chunk) : Prop :=
  (cs.find? fun c => c.hash = d.hash) = some c ∧ c.index = d.index

theorem KeptFor.unique (h : KeptFor cs d c) (h' : KeptFor cs d c') : c = c' :=
  Option.some.inj (h.1.symm.trans h'.1)

theorem KeptFor.mem (h : KeptFor cs d c) : c ∈ cs :=
  List.mem_of_find?_eq_some h.1

theorem KeptFor.hash_eq (h : KeptFor cs d c) : c.hash = d.hash := by
  simpa using List.find?_some h.1

theorem selectChunk_eq_ok :
    selectChunk (fun k => Option.none.or (cs.find? fun c => c.hash = k)) d = .ok c ↔
      KeptFor cs d c := by
  rw [selectChunk, Option.none_or, KeptFor]
  cases cs.find? fun c => c.hash = d.hash with
  | none => simp
  | some x =>
    dsimp only
    split_ifs with hindex
    · simp only [false_iff, not_and, Option.some.injEq]
      rintro rfl
      exact hindex
    · simp only [Except.ok.injEq, Option.some.injEq]
      constructor
      · rintro rfl
        exact ⟨rfl, not_not.mp hindex⟩
      · exact fun h => h.1

/-- Reassembly succeeds if the kept chunks have the indices and the length of the
manifest. -/
theorem reassemble_eq_ok_iff (hs : SortsByIndex sortUnstable)
    (hcs : ∀ c ∈ cs, hashBytes c.data = c.hash) :
    reassembleChunksWithManifest hashBytes sortUnstable manifest cs = .ok payload ↔
      validateManifest manifest = .ok () ∧
        ∃ ordered, List.Forall₂ (KeptFor cs) manifest.chunks ordered ∧
        (ordered.map fun c => c.data.length).sum = manifest.totalLen ∧
        reassembleChunks sortUnstable ordered = payload := by
  have hcollect : collectByHash hashBytes (fun _ => none) cs =
      .ok fun k => Option.none.or (cs.find? fun c => c.hash = k) :=
    collectByHash_eq_ok.mpr ⟨hcs, rfl⟩
  rw [reassembleChunksWithManifest, hcollect, check_bind_eq_ok]
  simp only [ok_bind, bind_eq_ok, mapM_eq_ok, selectChunk_eq_ok, ← length_reassembleChunks hs]
  constructor
  · rintro ⟨hvalid, ordered, hordered, hlast⟩
    split_ifs at hlast with hlength
    exact ⟨hvalid, ordered, hordered, not_not.mp hlength, Except.ok.inj hlast⟩
  · rintro ⟨hvalid, ordered, hordered, hlength, rfl⟩
    exact ⟨hvalid, ordered, hordered, if_neg (not_not.mpr hlength)⟩

/-- No index and no hash is listed twice. -/
def DistinctEntries (manifest : ChunkManifest) : Prop :=
  (manifest.chunks.map ChunkDescriptor.index).Nodup ∧
    (manifest.chunks.map ChunkDescriptor.hash).Nodup

/-- Every descriptor has a chunk with its index and hash, and together they have the
length of the payload. -/
def Available (manifest : ChunkManifest) (cs : List Chunk) : Prop :=
  ∃ ordered, List.Forall₂ (fun d c => c ∈ cs ∧ c.index = d.index ∧ c.hash = d.hash)
    manifest.chunks ordered ∧ (ordered.map fun c => c.data.length).sum = manifest.totalLen

/-- The chunks with the hash of a descriptor have its index and one contents. -/
def Unambiguous (manifest : ChunkManifest) (cs : List Chunk) : Prop :=
  ∀ d ∈ manifest.chunks, ∀ c ∈ cs, c.hash = d.hash →
    c.index = d.index ∧ ∀ c' ∈ cs, c'.hash = d.hash → c'.data = c.data

theorem Available.valid (hdistinct : DistinctEntries manifest) (h : Available manifest cs) :
    validateManifest manifest = .ok () := by
  rw [validateManifest_eq_ok]
  refine ⟨?_, hdistinct⟩
  intro hempty
  obtain ⟨ordered, hordered, hlength⟩ := h
  rw [hempty, List.forall₂_nil_left_iff] at hordered
  rw [← hlength, hordered]
  rfl

theorem Available.perm {cs' : List Chunk} (hperm : cs'.Perm cs) (h : Available manifest cs) :
    Available manifest cs' := by
  obtain ⟨ordered, hordered, hlength⟩ := h
  refine ⟨ordered, hordered.imp ?_, hlength⟩
  intro d c hc
  exact ⟨hperm.mem_iff.mpr hc.1, hc.2⟩

theorem available_of_ok (hs : SortsByIndex sortUnstable)
    (hcs : ∀ c ∈ cs, hashBytes c.data = c.hash)
    (h : reassembleChunksWithManifest hashBytes sortUnstable manifest cs = .ok payload) :
    DistinctEntries manifest ∧ Available manifest cs := by
  obtain ⟨hvalid, ordered, hordered, hlength, -⟩ := (reassemble_eq_ok_iff hs hcs).mp h
  refine ⟨(validateManifest_eq_ok.mp hvalid).2, ordered, hordered.imp ?_, hlength⟩
  intro d c hkept
  exact ⟨hkept.mem, hkept.2, hkept.hash_eq⟩

/-- With unambiguous chunks any chunk with the hash is the one that is kept. -/
theorem keptFor_of_unambiguous (h : Unambiguous manifest cs) (hd : d ∈ manifest.chunks)
    (hc : c ∈ cs) (hhash : c.hash = d.hash) : KeptFor cs d c := by
  refine ⟨?_, (h d hd c hc hhash).1⟩
  cases hfind : cs.find? fun c => c.hash = d.hash with
  | none =>
    have hno := List.find?_eq_none.mp hfind c hc
    simp [hhash] at hno
  | some x =>
    have hx : x ∈ cs := List.mem_of_find?_eq_some hfind
    have hxhash : x.hash = d.hash := by simpa using List.find?_some hfind
    obtain ⟨hindex, hdata⟩ := h d hd c hc hhash
    have hxindex := (h d hd x hx hxhash).1
    rw [Option.some.injEq, Chunk.mk.injEq]
    exact ⟨hxindex.trans hindex.symm, hxhash.trans hhash.symm, hdata x hx hxhash⟩

theorem Unambiguous.perm {cs' : List Chunk} (hperm : cs'.Perm cs) (h : Unambiguous manifest cs) :
    Unambiguous manifest cs' := by
  simpa only [Unambiguous, hperm.mem_iff] using h

/-- The chunks that stand for a manifest are joined, in whatever order they arrive. -/
theorem reassemble_of_unambiguous (hs : SortsByIndex sortUnstable)
    (hcs : ∀ c ∈ cs, hashBytes c.data = c.hash) (hdistinct : DistinctEntries manifest)
    (havailable : Available manifest cs) (h : Unambiguous manifest cs) :
    ∃ payload, ∀ cs', cs'.Perm cs →
      reassembleChunksWithManifest hashBytes sortUnstable manifest cs' = .ok payload := by
  have hvalid := havailable.valid hdistinct
  obtain ⟨ordered, hordered, hlength⟩ := havailable
  refine ⟨reassembleChunks sortUnstable ordered, ?_⟩
  intro cs' hperm
  have hcs' : ∀ c ∈ cs', hashBytes c.data = c.hash := fun c hc => hcs c (hperm.mem_iff.mp hc)
  have hkept : List.Forall₂ (KeptFor cs') manifest.chunks ordered := by
    apply ((List.forall₂_and_left _ _).mpr ⟨fun d hd => hd, hordered⟩).imp
    rintro d c ⟨hd, hc, -, hhash⟩
    exact keptFor_of_unambiguous (h.perm hperm) hd (hperm.mem_iff.mpr hc) hhash
  exact (reassemble_eq_ok_iff hs hcs').mpr ⟨hvalid, ordered, hkept, hlength, rfl⟩

/-- Moving a chunk to the front changes nothing for the other hashes. -/
theorem find?_cons_erase {k : Bytes} (h : c.hash ≠ k) (cs : List Chunk) :
    ((c :: cs.erase c).find? fun x => x.hash = k) = cs.find? fun x => x.hash = k := by
  rw [List.find?_cons_of_neg (by simpa using h)]
  induction cs with
  | nil => rfl
  | cons x cs ih =>
    rw [List.erase_cons]
    split_ifs with hx
    · have hne : x.hash ≠ k := by rwa [eq_of_beq hx]
      rw [List.find?_cons_of_neg (by simpa using hne)]
    · rw [List.find?_cons, List.find?_cons, ih]

theorem find?_cons_self {k : Bytes} (h : c.hash = k) (cs : List Chunk) :
    ((c :: cs).find? fun x => x.hash = k) = some c := by simp [h]

/-- If one chunk is moved to the front in place of another with its hash, it takes its
place among the kept chunks. -/
theorem keptFor_replaced (hc : c.hash = d.hash) (hc' : c'.hash = d.hash)
    (hindex : c'.index = d.index) (hdistinct : (manifest.chunks.map ChunkDescriptor.hash).Nodup)
    (hd : d ∈ manifest.chunks)
    (h : List.Forall₂ (KeptFor (c :: cs.erase c)) manifest.chunks ordered) :
    List.Forall₂ (KeptFor (c' :: cs.erase c')) manifest.chunks
      (ordered.map (Function.update id c c')) := by
  rw [List.forall₂_map_right_iff]
  apply ((List.forall₂_and_left _ _).mpr ⟨fun e he => he, h⟩).imp
  rintro e x ⟨he, hfind, hkept⟩
  by_cases hhash : e.hash = d.hash
  · obtain rfl := List.inj_on_of_nodup_map hdistinct he hd hhash
    rw [find?_cons_self hc] at hfind
    rw [← Option.some.inj hfind, Function.update_self]
    exact ⟨find?_cons_self hc' _, hindex⟩
  · have hne : c.hash ≠ e.hash := by
      rw [hc]
      exact Ne.symm hhash
    have hne' : c'.hash ≠ e.hash := by
      rw [hc']
      exact Ne.symm hhash
    have hother : x ≠ c := by
      rintro rfl
      exact hne (KeptFor.hash_eq ⟨hfind, hkept⟩)
    rw [Function.update_of_ne hother]
    rw [find?_cons_erase hne] at hfind
    exact ⟨(find?_cons_erase hne' cs).trans hfind, hkept⟩

/-- Replacing one chunk leaves the payload alone only if the data are the same. -/
theorem data_eq_of_reassembled (hs : SortsByIndex sortUnstable)
    (hnodup : (ordered.map Chunk.index).Nodup) (hc : c ∈ ordered) (hindex : c'.index = c.index)
    (h : reassembleChunks sortUnstable (ordered.map (Function.update id c c')) =
      reassembleChunks sortUnstable ordered) : c'.data = c.data := by
  have hkeeps : ∀ x ∈ ordered, (Function.update id c c' x).index = x.index := by
    intro x _
    by_cases hx : x = c
    · rw [hx, Function.update_self, hindex]
    · rw [Function.update_of_ne hx]
      rfl
  rw [reassembleChunks, hs.map hkeeps hnodup, reassembleChunks] at h
  have hsorted : (sortUnstable ordered).Nodup :=
    (hs.perm ordered).nodup_iff.mpr hnodup.of_map
  obtain ⟨before, after, hsplit⟩ := List.append_of_mem ((hs.perm ordered).mem_iff.mpr hc)
  rw [hsplit, List.nodup_append] at hsorted
  obtain ⟨-, hafter, hbefore⟩ := hsorted
  have hfixed : ∀ l : List Chunk, c ∉ l → l.map (Function.update id c c') = l := by
    intro l hl
    have hid : l.map (Function.update id c c') = l.map id :=
      List.map_congr_left fun x hx => Function.update_of_ne (ne_of_mem_of_not_mem hx hl) _ _
    rw [hid, List.map_id]
  have hleft := hfixed before fun hmem => hbefore c hmem c List.mem_cons_self rfl
  have hright := hfixed after (List.nodup_cons.mp hafter).1
  rw [hsplit, List.map_append, List.map_cons, hleft, hright, Function.update_self] at h
  simpa using h

/-- The list with one of its chunks moved to the front. -/
theorem reassembled_front (hs : SortsByIndex sortUnstable)
    (hcs : ∀ c ∈ cs, hashBytes c.data = c.hash) (h : ∀ cs', cs'.Perm cs →
      reassembleChunksWithManifest hashBytes sortUnstable manifest cs' = .ok payload)
    (hc : c ∈ cs) :
    ∃ ordered, List.Forall₂ (KeptFor (c :: cs.erase c)) manifest.chunks ordered ∧
      reassembleChunks sortUnstable ordered = payload := by
  have hperm := (List.perm_cons_erase hc).symm
  have hcs' : ∀ x ∈ c :: cs.erase c, hashBytes x.data = x.hash :=
    fun x hx => hcs x (hperm.mem_iff.mp hx)
  obtain ⟨-, ordered, hordered, -, hpayload⟩ := (reassemble_eq_ok_iff hs hcs').mp (h _ hperm)
  exact ⟨ordered, hordered, hpayload⟩

/-- A chunk at the front is the one that is kept for its hash. -/
theorem keptFor_front {rest : List Chunk}
    (hordered : List.Forall₂ (KeptFor (c :: rest)) manifest.chunks ordered)
    (hd : d ∈ manifest.chunks) (hhash : c.hash = d.hash) :
    KeptFor (c :: rest) d c ∧ c ∈ ordered := by
  obtain ⟨x, hx, hfind, hindex⟩ := exists_mem_of_forall₂ hordered hd
  obtain rfl := Option.some.inj ((find?_cons_self hhash _).symm.trans hfind)
  exact ⟨⟨hfind, hindex⟩, hx⟩

theorem map_index_of_kept {ds : List ChunkDescriptor} (h : List.Forall₂ (KeptFor cs) ds ordered) :
    ordered.map Chunk.index = ds.map ChunkDescriptor.index := by
  rw [← List.forall₂_eq_eq_eq, List.forall₂_map_left_iff, List.forall₂_map_right_iff]
  exact (h.imp fun d c hc => hc.2).flip

/-- If every order of arrival gives one payload, the chunks are unambiguous. -/
theorem unambiguous_of_reassembled (hs : SortsByIndex sortUnstable)
    (hcs : ∀ c ∈ cs, hashBytes c.data = c.hash)
    (h : ∀ cs', cs'.Perm cs →
      reassembleChunksWithManifest hashBytes sortUnstable manifest cs' = .ok payload) :
    Unambiguous manifest cs := by
  obtain ⟨⟨hindices, hhashes⟩, -⟩ := available_of_ok hs hcs (h cs (.refl cs))
  intro d hd c hc hhash
  obtain ⟨ordered, hordered, hpayload⟩ := reassembled_front hs hcs h hc
  obtain ⟨hkept, hmem⟩ := keptFor_front hordered hd hhash
  refine ⟨hkept.2, ?_⟩
  intro c' hc' hhash'
  obtain ⟨ordered', hordered', hpayload'⟩ := reassembled_front hs hcs h hc'
  obtain ⟨hkept', -⟩ := keptFor_front hordered' hd hhash'
  have hreplaced := keptFor_replaced hhash hhash' hkept'.2 hhashes hd hordered
  have hsame : ordered' = ordered.map (Function.update id c c') :=
    List.right_unique_forall₂' (fun _ _ _ ha hb => ha.unique hb) hordered' hreplaced
  have hnodup : (ordered.map Chunk.index).Nodup := by
    rwa [map_index_of_kept hordered]
  apply data_eq_of_reassembled hs hnodup hmem (hkept'.2.trans hkept.2.symm)
  rw [hpayload, ← hsame, hpayload']

/-- Every order of arrival gives the payload, or an error, that any other gives, and the
payload if all its chunks arrive, exactly if no chunk of the payload arrives with another
index or other data as well. -/
theorem arrival_order_irrelevant_iff (hashBytes : Bytes → Bytes)
    (sortUnstable : List Chunk → List Chunk) (hs : SortsByIndex sortUnstable)
    (manifest : ChunkManifest) (cs : List Chunk) (hcs : ∀ c ∈ cs, hashBytes c.data = c.hash) :
    ((∀ cs', cs'.Perm cs →
        (reassembleChunksWithManifest hashBytes sortUnstable manifest cs').toOption =
          (reassembleChunksWithManifest hashBytes sortUnstable manifest cs).toOption) ∧
      (DistinctEntries manifest → Available manifest cs → ∃ payload,
        reassembleChunksWithManifest hashBytes sortUnstable manifest cs = .ok payload)) ↔
    (DistinctEntries manifest → Available manifest cs → Unambiguous manifest cs) := by
  constructor
  · rintro ⟨hsame, hcomplete⟩ hdistinct havailable
    obtain ⟨payload, hpayload⟩ := hcomplete hdistinct havailable
    apply unambiguous_of_reassembled hs hcs
    intro cs' hperm
    have hsome := hsame cs' hperm
    rw [hpayload] at hsome
    exact toOption_eq_some.mp hsome
  · intro h
    by_cases hparts : DistinctEntries manifest ∧ Available manifest cs
    · obtain ⟨payload, hpayload⟩ :=
        reassemble_of_unambiguous hs hcs hparts.1 hparts.2 (h hparts.1 hparts.2)
      refine ⟨?_, fun _ _ => ⟨payload, hpayload cs (.refl cs)⟩⟩
      intro cs' hperm
      rw [hpayload cs' hperm, hpayload cs (.refl cs)]
    · have hfails : ∀ cs', cs'.Perm cs →
          (reassembleChunksWithManifest hashBytes sortUnstable manifest cs').toOption = none := by
        intro cs' hperm
        rw [Option.eq_none_iff_forall_ne_some]
        intro payload hsome
        have hcs' : ∀ c ∈ cs', hashBytes c.data = c.hash :=
          fun c hc => hcs c (hperm.mem_iff.mp hc)
        obtain ⟨hdistinct, havailable⟩ :=
          available_of_ok hs hcs' (toOption_eq_some.mp hsome)
        exact hparts ⟨hdistinct, havailable.perm hperm.symm⟩
      refine ⟨?_, fun hdistinct havailable => absurd ⟨hdistinct, havailable⟩ hparts⟩
      intro cs' hperm
      rw [hfails cs' hperm, hfails cs (.refl cs)]

end Order

/-- A manifest of one chunk, the chunk, and the chunk under another index. -/
def replayedManifest : ChunkManifest := ⟨[⟨0, sampleHash [5]⟩], 1⟩

def replayedChunk : Chunk := ⟨0, sampleHash [5], [5]⟩

def movedChunk : Chunk := ⟨1, sampleHash [5], [5]⟩

/-- The chunk is found if it comes first, and refused if the other does. -/
theorem replayed_index_hides_chunk :
    DistinctEntries replayedManifest ∧ Available replayedManifest [movedChunk, replayedChunk] ∧
      reassembleChunksWithManifest sampleHash sortByIndex replayedManifest
        [replayedChunk, movedChunk] = .ok [5] ∧
      reassembleChunksWithManifest sampleHash sortByIndex replayedManifest
        [movedChunk, replayedChunk] = .error (.chunkIndexMismatch 0 1) := by
  refine ⟨⟨by decide, by decide⟩, ⟨[replayedChunk], ?_, by decide⟩, by decide, by decide⟩
  simp [replayedManifest, replayedChunk]

/-- Chunks that are repeated with their index do no harm. -/
theorem repeated_chunks_reassembled :
    reassembleChunksWithManifest sampleHash sortByIndex (manifestOf samplePieces [1, 2, 3, 4, 5])
        (samplePieces ++ samplePieces) = .ok [1, 2, 3, 4, 5] ∧
      ∀ cs', cs'.Perm (samplePieces ++ samplePieces) →
      (reassembleChunksWithManifest sampleHash sortByIndex
        (manifestOf samplePieces [1, 2, 3, 4, 5]) cs').toOption = some [1, 2, 3, 4, 5] := by
  have hiff := arrival_order_irrelevant_iff sampleHash sortByIndex sortsByIndex_sortOn
    (manifestOf samplePieces [1, 2, 3, 4, 5]) (samplePieces ++ samplePieces) (by decide)
  refine ⟨by decide, (hiff.mpr ?_).1⟩
  intro _ _
  unfold Unambiguous
  decide

end Spex
