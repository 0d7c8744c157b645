import Spex.Batch
import Spex.Table
import Spex.Transport

/-!
# Fetching chunks from the network

Chunks are looked up by hash, and anyone may answer. `extractRecords` keeps an answer
only if its value has the hash it is stored under; `collectManifestChunks` keeps every
answer and checks the last one of each hash. A good record that is followed by a bad one
is therefore lost to the second and not to the first.
-/
namespace Spex
open Fallible

/-- The answer to a lookup of a record. -/
inductive GetRecordOk where
  | foundRecord (key value : Bytes)
  | finishedWithNoAdditionalRecord
  deriving DecidableEq, Repr

/-- A hash map from hashes to data. -/
abbrev ChunkStore := Bytes → Option Bytes

section Records
variable (hashBytes : Bytes → Bytes)

local instance lawfulHashes : LawfulBEq Bytes := inferInstance

def extractRecords (result : GetRecordOk) (expected : List Bytes) : ChunkStore :=
  match result with
  | .foundRecord key value =>
    if key ∈ expected ∧ hashBytes value = key then Function.update (fun _ => none) key (some value)
    else fun _ => none
  | .finishedWithNoAdditionalRecord => fun _ => none

/-- `extend`: the entries of the second map are inserted into the first. -/
def extendStore (store entries : ChunkStore) : ChunkStore := fun key =>
  (entries key).or (store key)

/-- The store of `fetch_manifest_chunks` after some answers. -/
def mergeRecords (expected : List Bytes) (results : List GetRecordOk) : ChunkStore :=
  results.foldl (fun store result => extendStore store (extractRecords hashBytes result expected))
    fun _ => none

/-- The first loop of `collect_manifest_chunks`: later answers replace earlier ones. -/
def collectPayloads (results : List GetRecordOk) : ChunkStore :=
  results.foldl (fun payloads result => match result with
    | .foundRecord key value => Function.update payloads key (some value)
    | .finishedWithNoAdditionalRecord => payloads) fun _ => none

def collectManifestChunks (manifest : ChunkManifest) (results : List GetRecordOk) :
    Except TransportError (List Chunk) := do
  validateManifest manifest
  manifest.chunks.mapM (recoverChunk hashBytes (collectPayloads results))

/-- The hashes of a manifest, as `expected` collects them. -/
def ChunkManifest.hashes (manifest : ChunkManifest) : List Bytes :=
  manifest.chunks.map ChunkDescriptor.hash

/-- The key that an answer is about. -/
def GetRecordOk.key : GetRecordOk → Option Bytes
  | .foundRecord key _ => some key
  | .finishedWithNoAdditionalRecord => none

/-- The last record found under a key. -/
def LastRecord (results : List GetRecordOk) (key value : Bytes) : Prop :=
  Table.Last GetRecordOk.key results key (.foundRecord key value)

variable {hashBytes} {results : List GetRecordOk} {expected : List Bytes} {key value : Bytes}
  {store : ChunkStore}

theorem extractRecords_eq_some {result : GetRecordOk} :
    extractRecords hashBytes result expected key = some value ↔
      result = .foundRecord key value ∧ key ∈ expected ∧ hashBytes value = key := by
  cases result with
  | finishedWithNoAdditionalRecord => simp [extractRecords]
  | foundRecord other found =>
    rw [extractRecords]
    split_ifs with hgood
    · rw [Function.update_apply]
      split_ifs with hkey
      · subst hkey
        grind
      · simp [Ne.symm hkey]
    · grind

theorem collectPayloads_append (result : GetRecordOk) : collectPayloads (results ++ [result]) =
    match result with
    | .foundRecord key value => Function.update (collectPayloads results) key (some value)
    | .finishedWithNoAdditionalRecord => collectPayloads results := by
  simp [collectPayloads]

theorem mergeRecords_append (result : GetRecordOk) :
    mergeRecords hashBytes expected (results ++ [result]) =
      extendStore (mergeRecords hashBytes expected results)
        (extractRecords hashBytes result expected) := by
  simp [mergeRecords]

/-- The payload of a key is the value of its last record. -/
theorem collectPayloads_eq_some :
    collectPayloads results key = some value ↔ LastRecord results key value := by
  induction results using List.reverseRecOn with
  | nil => simp [collectPayloads, LastRecord, Table.Last]
  | append_singleton results result ih =>
    rw [LastRecord, Table.last_append, ← LastRecord, ← ih, collectPayloads_append]
    cases result with
    | finishedWithNoAdditionalRecord => simp [GetRecordOk.key]
    | foundRecord other found =>
      by_cases hkey : key = other
      · subst hkey
        simp [GetRecordOk.key, eq_comm]
      · simp [GetRecordOk.key, hkey, Ne.symm hkey]

/-- If the last record of a key has the hash, it is the one that is merged. -/
theorem mergeRecords_of_last (hlast : LastRecord results key value) (hkey : key ∈ expected)
    (hhash : hashBytes value = key) : mergeRecords hashBytes expected results key = some value := by
  induction results using List.reverseRecOn with
  | nil => simp [LastRecord, Table.Last] at hlast
  | append_singleton results result ih =>
    rw [mergeRecords_append, extendStore]
    rcases Table.last_append.mp hlast with ⟨hearlier, hother⟩ | ⟨rfl, -⟩
    · have hnone : extractRecords hashBytes result expected key = none := by
        cases result with
        | finishedWithNoAdditionalRecord => rfl
        | foundRecord other found =>
          have hne : key ≠ other := by simpa [GetRecordOk.key, eq_comm] using hother
          rw [extractRecords]
          split_ifs
          · simp [hne]
          · rfl
      rw [hnone, Option.none_or, ih hearlier]
    · simp [extractRecords, hkey, hhash]

/-- Recovery depends on the data under the hashes of the manifest only. -/
theorem recoverChunksFromStore_congr {manifest : ChunkManifest} {store' : ChunkStore}
    (h : ∀ descriptor ∈ manifest.chunks, store descriptor.hash = store' descriptor.hash) :
    recoverChunksFromStore hashBytes manifest store =
      recoverChunksFromStore hashBytes manifest store' := by
  have hmap : manifest.chunks.mapM (recoverChunk hashBytes store) =
      manifest.chunks.mapM (recoverChunk hashBytes store') := by
    apply Batch.mapM_congr
    intro descriptor hdescriptor
    rw [recoverChunk, recoverChunk, h descriptor hdescriptor]
  rw [recoverChunksFromStore, recoverChunksFromStore, hmap]

theorem recoverChunk_succeeds_iff {descriptor : ChunkDescriptor} :
    (∃ chunk, recoverChunk hashBytes store descriptor = .ok chunk) ↔
      ∃ data, store descriptor.hash = some data ∧ hashBytes data = descriptor.hash := by
  unfold recoverChunk
  cases store descriptor.hash with
  | none => simp
  | some data =>
    dsimp only
    split_ifs with hhash
    · simpa using hhash
    · simpa using hhash

/-- Recovery succeeds if every hash of an accepted manifest has data with that hash. -/
theorem recoverChunksFromStore_succeeds_iff {manifest : ChunkManifest}
    (hvalid : validateManifest manifest = .ok ()) :
    (∃ chunks, recoverChunksFromStore hashBytes manifest store = .ok chunks) ↔
      ∀ descriptor ∈ manifest.chunks, ∃ data, store descriptor.hash = some data ∧
        hashBytes data = descriptor.hash := by
  rw [recoverChunksFromStore, hvalid, ok_bind, Batch.mapM_succeeds_iff]
  simp only [recoverChunk_succeeds_iff]

theorem collectManifestChunks_eq (manifest : ChunkManifest) (results : List GetRecordOk) :
    collectManifestChunks hashBytes manifest results =
      recoverChunksFromStore hashBytes manifest (collectPayloads results) := rfl

/-- Every hash of the manifest has a record whose value has that hash. -/
def Served (hashBytes : Bytes → Bytes) (manifest : ChunkManifest) (results : List GetRecordOk) :
    Prop :=
  ∀ descriptor ∈ manifest.chunks, ∃ value,
    GetRecordOk.foundRecord descriptor.hash value ∈ results ∧ hashBytes value = descriptor.hash

/-- For a manifest all of whose chunks were found, collecting succeeds and agrees with the
records that were checked one by one exactly if the last record of every hash has that
hash. -/
theorem collect_agrees_iff (hashBytes : Bytes → Bytes) (manifest : ChunkManifest)
    (hvalid : validateManifest manifest = .ok ()) (results : List GetRecordOk) :
    (Served hashBytes manifest results →
      (∃ chunks, collectManifestChunks hashBytes manifest results = .ok chunks) ∧
        collectManifestChunks hashBytes manifest results =
          recoverChunksFromStore hashBytes manifest
            (mergeRecords hashBytes manifest.hashes results)) ↔
    (Served hashBytes manifest results → ∀ descriptor ∈ manifest.chunks, ∃ value,
      LastRecord results descriptor.hash value ∧ hashBytes value = descriptor.hash) := by
  apply imp_congr_right
  intro _
  simp only [← collectPayloads_eq_some, collectManifestChunks_eq,
    recoverChunksFromStore_succeeds_iff hvalid]
  constructor
  · exact fun h => h.1
  · intro h
    refine ⟨h, recoverChunksFromStore_congr ?_⟩
    intro descriptor hdescriptor
    obtain ⟨value, hvalue, hhash⟩ := h descriptor hdescriptor
    have hexpected : descriptor.hash ∈ manifest.hashes := List.mem_map_of_mem hdescriptor
    rw [hvalue, mergeRecords_of_last (collectPayloads_eq_some.mp hvalue) hexpected hhash]

/-- A manifest of one chunk. -/
def fetchedManifest : ChunkManifest := ⟨[⟨0, sampleHash [1]⟩], 1⟩

/-- A record with another value after the good one hides it. -/
theorem poisoned_record_hides_chunk :
    let results := [GetRecordOk.foundRecord (sampleHash [1]) [1], .foundRecord (sampleHash [1]) [2]]
    Served sampleHash fetchedManifest results ∧
      collectManifestChunks sampleHash fetchedManifest results = .error (.chunkHashMismatch 0) ∧
      recoverChunksFromStore sampleHash fetchedManifest
        (mergeRecords sampleHash fetchedManifest.hashes results) =
        .ok [⟨0, sampleHash [1], [1]⟩] := by
  refine ⟨?_, by decide, by decide⟩
  simp [Served, fetchedManifest]

/-- The other order is harmless. -/
theorem poisoned_record_first :
    let results := [GetRecordOk.foundRecord (sampleHash [1]) [2], .foundRecord (sampleHash [1]) [1]]
    (∃ chunks, collectManifestChunks sampleHash fetchedManifest results = .ok chunks) ∧
      collectManifestChunks sampleHash fetchedManifest results =
        recoverChunksFromStore sampleHash fetchedManifest
          (mergeRecords sampleHash fetchedManifest.hashes results) := by
  intro results
  have hvalid : validateManifest fetchedManifest = .ok () := by decide
  refine (collect_agrees_iff sampleHash fetchedManifest hvalid results).mpr ?_ ?_
  · intro _ descriptor hdescriptor
    obtain rfl := List.mem_singleton.mp hdescriptor
    exact ⟨[1], ⟨[.foundRecord (sampleHash [1]) [2]], [], rfl, rfl, by simp⟩, rfl⟩
  · simp [Served, fetchedManifest, results]

end Records

end Spex
