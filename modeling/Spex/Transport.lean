import Spex.CborValue
import Spex.Chunking
import Spex.Codec
import Spex.Fallible
import Spex.Hex
import Spex.Tabulated

/-!
# Manifests and recovery

A manifest lists the index and hash of every chunk of a payload and the length
of the payload. Recovery looks chunks up by hash, checks hashes, indices and
length, and joins the chunks in order of index. A manifest that lists a hash
twice is refused, although a payload with two equal chunks has such a manifest.
-/
namespace Spex
open Fallible

/-- The errors of the transport crate that the modelled functions return. -/
inductive TransportError where
  | serialization
  | cborDecode (error : SpexError)
  | http
  | bridgePayload
  | missingChunk (hash : String)
  | chunkHashMismatch (index : ℕ)
  | chunkIndexMismatch (expected actual : ℕ)
  | invalidManifest (reason : String)
  | payloadLengthMismatch (expected actual : ℕ)
  | invalidPayload (message : Option String)
  | invalidTtl
  | grantInvalid
  | grantExpired
  | powTooWeak
  | powInvalid
  deriving DecidableEq, Repr

/-- The `Display` text of an error, unless a library supplies a part of it. -/
def TransportError.message : TransportError → Option String
  | .serialization | .http => none
  | .cborDecode err => some s!"cbor decode error: {err.message}"
  | .bridgePayload => some "inbox bridge returned invalid payload"
  | .missingChunk hash => some s!"missing chunk for hash {hash}"
  | .chunkHashMismatch index => some s!"chunk hash mismatch for index {index}"
  | .chunkIndexMismatch expected actual =>
    some s!"chunk index mismatch (expected {expected}, got {actual})"
  | .invalidManifest reason => some s!"invalid manifest: {reason}"
  | .payloadLengthMismatch expected actual =>
    some s!"payload length mismatch (expected {expected}, got {actual})"
  | .invalidPayload message => message.map fun text => s!"invalid payload: {text}"
  | .invalidTtl => some "bridge rejected ttl policy"
  | .grantInvalid => some "grant signature invalid"
  | .grantExpired => some "grant expired"
  | .powTooWeak => some "pow parameters below minimum"
  | .powInvalid => some "pow puzzle invalid"

/-- The place of a chunk, and the digest of its data. -/
structure ChunkDescriptor where
  index : ℕ
  hash : Bytes
  deriving DecidableEq, Repr

/-- The chunks of a payload and its length. -/
structure ChunkManifest where
  chunks : List ChunkDescriptor
  totalLen : ℕ
  deriving DecidableEq, Repr

deriving instance Countable for ChunkDescriptor, ChunkManifest

/-- The loop of `validate_manifest`, with the indices and hashes seen so far. -/
def validateDescriptors (indices : List ℕ) (hashes : List Bytes) :
    List ChunkDescriptor → Except TransportError Unit
  | [] => .ok ()
  | descriptor :: rest =>
    if descriptor.index ∈ indices then
      .error (.invalidManifest s!"duplicate chunk index {descriptor.index}")
    else if descriptor.hash ∈ hashes then .error (.invalidManifest "duplicate chunk hash")
    else validateDescriptors (descriptor.index :: indices) (descriptor.hash :: hashes) rest

/-- No index and no digest twice, and no length without chunks. -/
def validateManifest (manifest : ChunkManifest) : Except TransportError Unit :=
  if manifest.chunks.isEmpty ∧ 0 < manifest.totalLen then
    .error (.invalidManifest "empty manifest for non-empty payload")
  else validateDescriptors [] [] manifest.chunks

section Recovery
variable (hashBytes : Bytes → Bytes) (sortUnstable : List Chunk → List Chunk)

/-- One turn of `recover_chunks_from_store`. -/
def recoverChunk (store : Bytes → Option Bytes) (descriptor : ChunkDescriptor) :
    Except TransportError Chunk :=
  match store descriptor.hash with
  | none => .error (.missingChunk (Hex.encode descriptor.hash))
  | some data =>
    if hashBytes data ≠ descriptor.hash then .error (.chunkHashMismatch descriptor.index)
    else .ok ⟨descriptor.index, descriptor.hash, data⟩

/-- The chunks that a manifest names, checked against it. -/
def recoverChunksFromStore (manifest : ChunkManifest) (store : Bytes → Option Bytes) :
    Except TransportError (List Chunk) := do
  validateManifest manifest
  manifest.chunks.mapM (recoverChunk hashBytes store)

/-- `entry(k).or_insert(v)`: the first value under a key stays. -/
def orInsert (map : Bytes → Option Chunk) (key : Bytes) (value : Chunk) : Bytes → Option Chunk :=
  fun k => if k = key then some ((map key).getD value) else map k

/-- The supplied chunks by hash, each checked against its own hash. -/
def collectByHash (byHash : Bytes → Option Chunk) :
    List Chunk → Except TransportError (Bytes → Option Chunk)
  | [] => .ok byHash
  | chunk :: rest =>
    if hashBytes chunk.data ≠ chunk.hash then .error (.chunkHashMismatch chunk.index)
    else collectByHash (orInsert byHash chunk.hash chunk) rest

/-- One turn of the loop that puts chunks in manifest order. -/
def selectChunk (byHash : Bytes → Option Chunk) (descriptor : ChunkDescriptor) :
    Except TransportError Chunk :=
  match byHash descriptor.hash with
  | none => .error (.missingChunk (Hex.encode descriptor.hash))
  | some chunk =>
    if chunk.index ≠ descriptor.index then
      .error (.chunkIndexMismatch descriptor.index chunk.index)
    else .ok chunk

/-- The payload of any chunks among which are those of the manifest. -/
def reassembleChunksWithManifest (manifest : ChunkManifest) (chunks : List Chunk) :
    Except TransportError Bytes := do
  validateManifest manifest
  let byHash ← collectByHash hashBytes (fun _ => none) chunks
  let ordered ← manifest.chunks.mapM (selectChunk byHash)
  let payload := reassembleChunks sortUnstable ordered
  if payload.length ≠ manifest.totalLen then
    .error (.payloadLengthMismatch manifest.totalLen payload.length)
  else .ok payload

/-- The payload of a manifest whose chunks are stored. -/
def reassemblePayloadFromStore (manifest : ChunkManifest) (store : Bytes → Option Bytes) :
    Except TransportError Bytes := do
  let chunks ← recoverChunksFromStore hashBytes manifest store
  reassembleChunksWithManifest hashBytes sortUnstable manifest chunks

/-- The manifest that is published with a payload's chunks. -/
def manifestOf (chunks : List Chunk) (payload : Bytes) : ChunkManifest :=
  ⟨chunks.map fun chunk => ⟨chunk.index, chunk.hash⟩, payload.length⟩

/-- The store that holds every chunk under its hash; a later chunk replaces an
earlier one with the same hash. -/
def storeOf (chunks : List Chunk) : Bytes → Option Bytes :=
  chunks.foldl (fun store chunk key => if key = chunk.hash then some chunk.data else store key)
    fun _ => none

end Recovery

theorem validateDescriptors_eq_ok {indices : List ℕ} {hashes : List Bytes}
    {ds : List ChunkDescriptor} :
    validateDescriptors indices hashes ds = .ok () ↔
      (∀ d ∈ ds, d.index ∉ indices ∧ d.hash ∉ hashes) ∧
        (ds.map ChunkDescriptor.index).Nodup ∧ (ds.map ChunkDescriptor.hash).Nodup := by
  induction ds generalizing indices hashes with
  | nil => simp [validateDescriptors]
  | cons d ds ih =>
    unfold validateDescriptors
    split_ifs with hindex hhash
    · simp [hindex]
    · simp [hhash]
    · rw [ih]
      simp only [List.mem_cons, not_or, List.map_cons, List.nodup_cons, List.mem_map, not_exists,
        not_and, forall_eq_or_imp]
      constructor
      · rintro ⟨hds, hi, hh⟩
        exact ⟨⟨⟨hindex, hhash⟩, fun e he => ⟨(hds e he).1.2, (hds e he).2.2⟩⟩,
          ⟨fun e he => (hds e he).1.1, hi⟩, ⟨fun e he => (hds e he).2.1, hh⟩⟩
      · rintro ⟨⟨-, hds⟩, ⟨hi, hi'⟩, hh, hh'⟩
        exact ⟨fun e he => ⟨⟨hi e he, (hds e he).1⟩, hh e he, (hds e he).2⟩, hi', hh'⟩

/-- A manifest is accepted when no index and no hash is listed twice and it is
not empty for a payload that is not. -/
theorem validateManifest_eq_ok {manifest : ChunkManifest} :
    validateManifest manifest = .ok () ↔
      (manifest.chunks = [] → manifest.totalLen = 0) ∧
        (manifest.chunks.map ChunkDescriptor.index).Nodup ∧
        (manifest.chunks.map ChunkDescriptor.hash).Nodup := by
  unfold validateManifest
  split_ifs with h
  · rw [List.isEmpty_iff] at h
    simp only [false_iff, not_and]
    intro hempty
    have := hempty h.1
    omega
  · rw [List.isEmpty_iff, not_and, not_lt, Nat.le_zero] at h
    rw [validateDescriptors_eq_ok]
    simp only [List.not_mem_nil, not_false_eq_true, and_self, implies_true, true_and]
    exact ⟨fun hn => ⟨h, hn⟩, fun hn => hn.2⟩

section Lookup
variable {hashBytes : Bytes → Bytes} {sortUnstable : List Chunk → List Chunk} {cs : List Chunk}

/-- The chunks are taken in if each has the hash it claims, and then the first
chunk with a hash is the one that is kept. -/
theorem collectByHash_eq_ok {byHash byHash' : Bytes → Option Chunk} :
    collectByHash hashBytes byHash cs = .ok byHash' ↔
      (∀ c ∈ cs, hashBytes c.data = c.hash) ∧
        byHash' = fun k => (byHash k).or (cs.find? fun c => c.hash = k) := by
  induction cs generalizing byHash with
  | nil => simp [collectByHash, eq_comm]
  | cons c cs ih =>
    unfold collectByHash
    split_ifs with h
    · simp [h]
    · rw [ih, List.forall_mem_cons, not_not.mp h]
      have hmap : (fun k => (orInsert byHash c.hash c k).or (cs.find? fun c => c.hash = k)) =
          fun k => (byHash k).or ((c :: cs).find? fun c => c.hash = k) := by
        funext k
        by_cases hk : c.hash = k
        · subst hk
          cases hb : byHash c.hash <;> simp [orInsert, hb]
        · simp [orInsert, hk, Ne.symm hk]
      rw [hmap]
      simp

lemma find?_hash (hd : (cs.map Chunk.hash).Nodup) {c : Chunk} (hc : c ∈ cs) :
    (cs.find? fun x => x.hash = c.hash) = some c := by
  cases hf : cs.find? fun x => x.hash = c.hash with
  | none =>
    have := List.find?_eq_none.mp hf c hc
    simp at this
  | some x =>
    have hx : x.hash = c.hash := by simpa using List.find?_some hf
    rw [List.inj_on_of_nodup_map hd (List.mem_of_find?_eq_some hf) hc hx]

lemma foldl_store_of_notMem {k : Bytes} (hk : k ∉ cs.map Chunk.hash)
    (store : Bytes → Option Bytes) :
    cs.foldl (fun store chunk key => if key = chunk.hash then some chunk.data else store key)
      store k = store k := by
  induction cs generalizing store with
  | nil => rfl
  | cons c cs ih =>
    rw [List.map_cons, List.mem_cons, not_or] at hk
    rw [List.foldl_cons, ih hk.2, if_neg hk.1]

theorem storeOf_hash (hd : (cs.map Chunk.hash).Nodup) {c : Chunk} (hc : c ∈ cs) :
    storeOf cs c.hash = some c.data := by
  suffices hfold : ∀ store : Bytes → Option Bytes,
      cs.foldl (fun store chunk key => if key = chunk.hash then some chunk.data else store key)
        store c.hash = some c.data from hfold _
  induction cs with
  | nil => simp at hc
  | cons x cs ih =>
    intro store
    rw [List.map_cons, List.nodup_cons] at hd
    rw [List.foldl_cons]
    rcases List.mem_cons.mp hc with rfl | hc
    · rw [foldl_store_of_notMem hd.1, if_pos rfl]
    · exact ih hd.2 hc _

end Lookup

section Recovered
variable {hashBytes : Bytes → Bytes} {sortUnstable : List Chunk → List Chunk} {cs : List Chunk}
  {payload : Bytes}

/-- A chunk that stands for a descriptor: its index, its hash, and data with
that hash. -/
def Matches (hashBytes : Bytes → Bytes) (d : ChunkDescriptor) (c : Chunk) : Prop :=
  c.index = d.index ∧ c.hash = d.hash ∧ hashBytes c.data = d.hash

/-- Success says which chunks were joined: one for each descriptor. -/
theorem reassembleChunksWithManifest_eq_ok {manifest : ChunkManifest}
    (h : reassembleChunksWithManifest hashBytes sortUnstable manifest cs = .ok payload) :
    ∃ ordered, List.Forall₂ (Matches hashBytes) manifest.chunks ordered ∧
      payload = reassembleChunks sortUnstable ordered := by
  obtain ⟨-, -, hafter⟩ := bind_eq_ok.mp h
  obtain ⟨byHash, hcollect, hrest⟩ := bind_eq_ok.mp hafter
  obtain ⟨ordered, hordered, hlast⟩ := bind_eq_ok.mp hrest
  obtain ⟨hvalid, rfl⟩ := collectByHash_eq_ok.mp hcollect
  refine ⟨ordered, (mapM_eq_ok.mp hordered).imp ?_, ?_⟩
  · intro d c hdc
    unfold selectChunk at hdc
    cases hf : cs.find? fun c => c.hash = d.hash with
    | none => simp [hf] at hdc
    | some x =>
      simp only [Option.none_or, hf] at hdc
      split_ifs at hdc with hindex
      have hx : x = c := Except.ok.inj hdc
      subst hx
      have hhash : x.hash = d.hash := by simpa using List.find?_some hf
      exact ⟨not_not.mp hindex, hhash, (hvalid x (List.mem_of_find?_eq_some hf)).trans hhash⟩
  · dsimp only at hlast
    split_ifs at hlast
    exact (Except.ok.inj hlast).symm

/-- A descriptor determines the chunk that stands for it. -/
lemma Matches.unique (hinj : Function.Injective hashBytes) {d : ChunkDescriptor} {c c' : Chunk}
    (h : Matches hashBytes d c) (h' : Matches hashBytes d c') : c = c' := by
  obtain ⟨i, k, data⟩ := c
  obtain ⟨i', k', data'⟩ := c'
  obtain ⟨rfl, rfl, hdata⟩ := h
  obtain ⟨rfl, rfl, hdata'⟩ := h'
  have hsame : data = data' := hinj (hdata.trans hdata'.symm)
  rw [hsame]

lemma eq_of_matches (hinj : Function.Injective hashBytes) {ds : List ChunkDescriptor}
    {cs' : List Chunk} (h : List.Forall₂ (Matches hashBytes) ds cs)
    (h' : List.Forall₂ (Matches hashBytes) ds cs') : cs = cs' := by
  induction h generalizing cs' with
  | nil =>
    cases h'
    rfl
  | cons hc _ ih =>
    cases h' with
    | cons hc' hcs' => rw [hc.unique hinj hc', ih hcs']

theorem matches_manifestOf (hcs : ∀ c ∈ cs, c.hash = hashBytes c.data) (payload : Bytes) :
    List.Forall₂ (Matches hashBytes) (manifestOf cs payload).chunks cs := by
  rw [manifestOf, List.forall₂_map_left_iff, List.forall₂_same]
  exact fun c hc => ⟨rfl, rfl, (hcs c hc).symm⟩

/-- A manifest determines the payload: whatever chunks are supplied, recovery
gives one result at most, and it is the payload the manifest was made from. -/
theorem manifest_determines_payload (hinj : Function.Injective hashBytes)
    (hs : SortsByIndex sortUnstable) :
    (∀ manifest cs cs' p p',
      reassembleChunksWithManifest hashBytes sortUnstable manifest cs = .ok p →
      reassembleChunksWithManifest hashBytes sortUnstable manifest cs' = .ok p' → p = p') ∧
    (∀ chunkSize payload pieces cs p, chunkData hashBytes chunkSize payload = some pieces →
      reassembleChunksWithManifest hashBytes sortUnstable (manifestOf pieces payload) cs = .ok p →
      p = payload) := by
  constructor
  · intro manifest cs cs' p p' h h'
    obtain ⟨ordered, hmatch, rfl⟩ := reassembleChunksWithManifest_eq_ok h
    obtain ⟨ordered', hmatch', rfl⟩ := reassembleChunksWithManifest_eq_ok h'
    rw [eq_of_matches hinj hmatch hmatch']
  · intro chunkSize payload pieces cs p hpieces h
    obtain ⟨slices, rfl, rfl⟩ := chunkData_eq_some hashBytes hpieces
    obtain ⟨ordered, hmatch, rfl⟩ := reassembleChunksWithManifest_eq_ok h
    have hown : List.Forall₂ (Matches hashBytes)
        (manifestOf (addressed hashBytes slices) slices.flatten).chunks
        (addressed hashBytes slices) :=
      matches_manifestOf (fun c hc => hash_of_mem_addressed hashBytes hc) _
    rw [eq_of_matches hinj hmatch hown, reassembleChunks_addressed hashBytes hs]

/-- With distinct chunks, looking the manifest's hashes up in the store gives
the chunks back. -/
theorem recoverChunksFromStore_of_nodup (hvalid : validateManifest (manifestOf cs payload) = .ok ())
    (hcs : ∀ c ∈ cs, c.hash = hashBytes c.data) (hd : (cs.map Chunk.hash).Nodup) :
    recoverChunksFromStore hashBytes (manifestOf cs payload) (storeOf cs) = .ok cs := by
  rw [recoverChunksFromStore, hvalid, ok_bind, mapM_eq_ok, manifestOf, List.forall₂_map_left_iff,
    List.forall₂_same]
  intro c hc
  rw [recoverChunk, storeOf_hash hd hc]
  exact if_neg (not_not.mpr (hcs c hc).symm)

theorem reassembleChunksWithManifest_of_nodup
    (hvalid : validateManifest (manifestOf cs payload) = .ok ())
    (hcs : ∀ c ∈ cs, c.hash = hashBytes c.data) (hd : (cs.map Chunk.hash).Nodup)
    (hpayload : reassembleChunks sortUnstable cs = payload) :
    reassembleChunksWithManifest hashBytes sortUnstable (manifestOf cs payload) cs =
      .ok payload := by
  have hcollect : collectByHash hashBytes (fun _ => none) cs =
      .ok fun k => Option.none.or (cs.find? fun c => c.hash = k) :=
    collectByHash_eq_ok.mpr ⟨fun c hc => (hcs c hc).symm, rfl⟩
  have hselect : (manifestOf cs payload).chunks.mapM
      (selectChunk fun k => Option.none.or (cs.find? fun c => c.hash = k)) = .ok cs := by
    rw [mapM_eq_ok, manifestOf, List.forall₂_map_left_iff, List.forall₂_same]
    intro c hc
    rw [selectChunk, Option.none_or, find?_hash hd hc]
    exact if_neg (not_not.mpr rfl)
  rw [reassembleChunksWithManifest, hvalid, ok_bind, hcollect, ok_bind, hselect, ok_bind, hpayload]
  exact if_neg (not_not.mpr rfl)

theorem validate_addressed {slices : List Bytes} (hd : (slices.map hashBytes).Nodup) :
    validateManifest (manifestOf (addressed hashBytes slices) slices.flatten) = .ok () := by
  rw [validateManifest_eq_ok, manifestOf, List.map_map, List.map_map]
  refine ⟨?_, ?_, ?_⟩
  · intro hempty
    have hslices : slices = [] := by
      rw [List.map_eq_nil_iff] at hempty
      rw [← map_data_addressed hashBytes slices, hempty, List.map_nil]
    rw [hslices]
    rfl
  · rw [List.Nodup, List.pairwise_map]
    exact (addressed_increasing hashBytes slices).imp ne_of_lt
  · exact map_hash_addressed hashBytes slices ▸ hd

/-- Publishing a payload and recovering it from the store gives it back exactly
when no two of its chunks are equal. -/
theorem published_payload_recovered_iff (hs : SortsByIndex sortUnstable) {chunkSize : ℕ}
    (hn : 0 < chunkSize) (payload : Bytes)
    (hinj : ∀ a ∈ chunks chunkSize payload, ∀ b ∈ chunks chunkSize payload,
      hashBytes a = hashBytes b → a = b) :
    ∃ pieces, chunkData hashBytes chunkSize payload = some pieces ∧
      (reassemblePayloadFromStore hashBytes sortUnstable (manifestOf pieces payload)
        (storeOf pieces) = .ok payload ↔ (chunks chunkSize payload).Nodup) := by
  refine ⟨_, chunkData_eq hashBytes hn payload, ?_⟩
  have hflatten := flatten_chunks hn payload
  constructor
  · intro h
    obtain ⟨_, hrecover, _⟩ := bind_eq_ok.mp h
    obtain ⟨_, hvalid, _⟩ := bind_eq_ok.mp hrecover
    have hhashes := (validateManifest_eq_ok.mp hvalid).2.2
    rw [manifestOf, List.map_map] at hhashes
    have hnodup : ((addressed hashBytes (chunks chunkSize payload)).map Chunk.hash).Nodup := hhashes
    rw [map_hash_addressed] at hnodup
    exact hnodup.of_map
  · intro hd
    have hhashes : ((chunks chunkSize payload).map hashBytes).Nodup :=
      hd.map_on fun a ha b hb hab => hinj a ha b hb hab
    have hvalid := validate_addressed hhashes
    rw [hflatten] at hvalid
    have hnodup := map_hash_addressed hashBytes (chunks chunkSize payload) ▸ hhashes
    have hown : ∀ c ∈ addressed hashBytes (chunks chunkSize payload), c.hash = hashBytes c.data :=
      fun c hc => hash_of_mem_addressed hashBytes hc
    have hjoin := reassembleChunks_addressed hashBytes hs (chunks chunkSize payload)
    rw [reassemblePayloadFromStore, recoverChunksFromStore_of_nodup hvalid hown hnodup, ok_bind]
    exact reassembleChunksWithManifest_of_nodup hvalid hown hnodup (hjoin.trans hflatten)

end Recovered

section Sample
open Tabulated

/-- SHA-256 on the chunks of the examples. -/
def sampleHash : Bytes → Bytes := tabulated
  [([1, 2], [0xa1, 0x28, 0x71, 0xfe, 0xe2, 0x10, 0xfb, 0x86, 0x19, 0x29, 0x1e, 0xae, 0xa1, 0x94,
      0x58, 0x1c, 0xbd, 0x25, 0x31, 0xe4, 0xb2, 0x37, 0x59, 0xd2, 0x25, 0xf6, 0x80, 0x69,
      0x23, 0xf6, 0x32, 0x22]),
   ([3, 4], [0x0c, 0xe3, 0x94, 0x0b, 0xeb, 0xf2, 0xb2, 0x2a, 0x5d, 0x21, 0x08, 0xec, 0xf0, 0xc3,
      0x68, 0xa0, 0x54, 0x1c, 0x7e, 0x3c, 0x45, 0x70, 0x3f, 0x85, 0x40, 0x92, 0x1b, 0x4e,
      0xaf, 0xc8, 0x29, 0x47]),
   ([5], [0xe7, 0x7b, 0x9a, 0x9a, 0xe9, 0xe3, 0x0b, 0x0d, 0xbd, 0xb6, 0xf5, 0x10, 0xa2, 0x64,
      0xef, 0x9d, 0xe7, 0x81, 0x50, 0x1d, 0x7b, 0x6b, 0x92, 0xae, 0x89, 0xeb, 0x05, 0x9c,
      0x5a, 0xb7, 0x43, 0xdb]),
   ([7], [0xca, 0x35, 0x87, 0x58, 0xf6, 0xd2, 0x7e, 0x6c, 0xf4, 0x52, 0x72, 0x93, 0x79, 0x77,
      0xa7, 0x48, 0xfd, 0x88, 0x39, 0x1d, 0xb6, 0x79, 0xce, 0xda, 0x7d, 0xc7, 0xbf, 0x1f,
      0x00, 0x5e, 0xe8, 0x79])]

theorem sampleHash_injective : Function.Injective sampleHash := tabulated_injective (by decide)

def sortByIndex : List Chunk → List Chunk := KeySort.sortOn (· ≤ ·) Chunk.index

def samplePieces : List Chunk := addressed sampleHash [[1, 2], [3, 4], [5]]

/-- Five bytes in chunks of two. -/
theorem published_payload_recovered_sample :
    ∃ pieces, chunkData sampleHash 2 [1, 2, 3, 4, 5] = some pieces ∧
      reassemblePayloadFromStore sampleHash sortByIndex (manifestOf pieces [1, 2, 3, 4, 5])
        (storeOf pieces) = .ok [1, 2, 3, 4, 5] := by
  obtain ⟨pieces, hpieces, hiff⟩ := published_payload_recovered_iff sortsByIndex_sortOn
    (by norm_num : 0 < 2) [1, 2, 3, 4, 5] fun a _ b _ hab => sampleHash_injective hab
  exact ⟨pieces, hpieces, hiff.mpr (by decide)⟩

/-- Two equal chunks make a manifest that recovery refuses. -/
theorem repeated_chunk_refused :
    ∃ pieces, chunkData sampleHash 1 [7, 7] = some pieces ∧
      reassemblePayloadFromStore sampleHash sortByIndex (manifestOf pieces [7, 7])
        (storeOf pieces) = .error (.invalidManifest "duplicate chunk hash") :=
  ⟨_, rfl, by decide⟩

/-- Chunks out of order and repeated are accepted, and no others give another
payload. -/
theorem manifest_determines_payload_sample :
    reassembleChunksWithManifest sampleHash sortByIndex (manifestOf samplePieces [1, 2, 3, 4, 5])
        (samplePieces.reverse ++ samplePieces) = .ok [1, 2, 3, 4, 5] ∧
      ∀ cs p, reassembleChunksWithManifest sampleHash sortByIndex
        (manifestOf samplePieces [1, 2, 3, 4, 5]) cs = .ok p → p = [1, 2, 3, 4, 5] :=
  ⟨by decide, fun cs p h => (manifest_determines_payload sampleHash_injective
    sortsByIndex_sortOn).2 2 [1, 2, 3, 4, 5] samplePieces cs p rfl h⟩

end Sample
end Spex
