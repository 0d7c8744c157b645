import Mathlib.Data.Finset.Sort
import Mathlib.Data.List.Destutter
import Mathlib.Data.String.Basic
import Spex.PoisonedSnapshots

/-!
# What a snapshot file keeps

A snapshot is brought into a canonical form before it is written: peers, manifests and
scores are sorted, addresses and index keys are sorted and lose their repeats. Reading
the file gives the canonical form, and writing that gives the same file. The form does
not depend on the order of the collections, except for manifests: they are sorted by
their length and number of chunks, and manifests that agree in both keep their order.
-/
namespace Spex.P2p
open KeySort

def decodeBootstrapSnapshot (json : Codec PersistedBootstrapState) (payload : Bytes) :
    Except TransportError PersistedBootstrapState :=
  match json.fromSlice payload with
  | none => .error .serialization
  | some snapshot => .ok snapshot

section Texts

/-- Sorting and dropping repeats lists the members of a collection in order. -/
theorem sortDedup_eq_sort (texts : List String) : sortDedup texts = texts.toFinset.sort := by
  have hsorted : (sortOn (· ≤ ·) id texts).Pairwise (· ≤ ·) := sortOn_pairwise (· ≤ ·) id texts
  have hdedup : sortDedup texts = (sortOn (· ≤ ·) id texts).dedup := hsorted.destutter_eq_dedup
  have hset : (sortDedup texts).toFinset = texts.toFinset := by
    ext text
    simp [hdedup]
  rw [← hset, eq_comm, List.toFinset_sort]
  · rw [hdedup]
    exact hsorted.sublist (List.dedup_sublist _)
  · rw [hdedup]
    exact List.nodup_dedup _

@[simp] theorem toFinset_sortDedup (texts : List String) :
    (sortDedup texts).toFinset = texts.toFinset := by
  rw [sortDedup_eq_sort, Finset.sort_toFinset]

theorem sortDedup_congr {texts texts' : List String} (h : texts.toFinset = texts'.toFinset) :
    sortDedup texts = sortDedup texts' := by
  rw [sortDedup_eq_sort, sortDedup_eq_sort, h]

@[simp] theorem sortDedup_sortDedup (texts : List String) :
    sortDedup (sortDedup texts) = sortDedup texts :=
  sortDedup_congr (toFinset_sortDedup texts)

end Texts

section Manifests

instance : Std.Total manifestLe where
  total left right := by
    unfold manifestLe
    omega

instance : IsTrans ChunkManifest manifestLe where
  trans left middle right := by
    unfold manifestLe
    omega

/-- The manifests of one length and number of chunks, in their order. -/
def ofSize (totalLen chunks : ℕ) (manifests : List ChunkManifest) : List ChunkManifest :=
  manifests.filter fun manifest => manifest.totalLen = totalLen ∧ manifest.chunks.length = chunks

theorem keyClass_manifestLe (manifest : ChunkManifest) (manifests : List ChunkManifest) :
    keyClass manifestLe id manifest manifests =
      ofSize manifest.totalLen manifest.chunks.length manifests := by
  unfold keyClass ofSize
  refine List.filter_congr fun other _ => ?_
  rw [decide_eq_decide]
  simp only [id_eq, manifestLe]
  omega

theorem sort_manifests_eq_iff {manifests manifests' : List ChunkManifest} :
    sortOn manifestLe id manifests = sortOn manifestLe id manifests' ↔
      ∀ totalLen chunks, ofSize totalLen chunks manifests = ofSize totalLen chunks manifests' := by
  rw [sortOn_eq_iff]
  constructor
  · intro h totalLen chunks
    have hclass := h ⟨List.replicate chunks ⟨0, []⟩, totalLen⟩
    simpa [keyClass_manifestLe] using hclass
  · intro h manifest
    rw [keyClass_manifestLe, keyClass_manifestLe, h]

end Manifests

section Peers

/-- A peer without the order and the repeats of its addresses. -/
def PersistedPeer.contents (peer : PersistedPeer) : PersistedPeer × Finset String :=
  ({ peer with addresses := [] }, peer.addresses.toFinset)

/-- A peer without the order of its addresses. -/
def PersistedPeer.unordered (peer : PersistedPeer) : PersistedPeer × Multiset String :=
  ({ peer with addresses := [] }, peer.addresses)

/-- The peer as it is written. -/
def PersistedPeer.written (peer : PersistedPeer) : PersistedPeer :=
  { peer with addresses := sortDedup peer.addresses }

@[simp] theorem PersistedPeer.contents_written (peer : PersistedPeer) :
    peer.written.contents = peer.contents := by
  simp [contents, written]

@[simp] theorem PersistedPeer.written_written (peer : PersistedPeer) :
    peer.written.written = peer.written := by
  simp [written]

theorem PersistedPeer.written_eq (peer : PersistedPeer) :
    peer.written =
      { peer.unordered.1 with addresses := peer.unordered.2.toFinset.sort } := by
  simp [written, unordered, sortDedup_eq_sort]

theorem perm_written {peers peers' : List PersistedPeer}
    (h : (peers.map PersistedPeer.unordered).Perm (peers'.map PersistedPeer.unordered)) :
    (peers.map PersistedPeer.written).Perm (peers'.map PersistedPeer.written) := by
  have hmap := h.map fun entry : PersistedPeer × Multiset String =>
    { entry.1 with addresses := entry.2.toFinset.sort }
  simpa [Function.comp_def, ← PersistedPeer.written_eq] using hmap

theorem canonical_knownPeers (snapshot : PersistedBootstrapState) :
    snapshot.canonical.knownPeers =
      sortOn (· ≤ ·) PersistedPeer.peerId (snapshot.knownPeers.map PersistedPeer.written) :=
  map_sortOn (· ≤ ·) _ _ PersistedPeer.written _ fun _ _ => rfl

end Peers

/-- Two snapshots hold the same: peers with their sets of addresses, sets of bootstrap
addresses and index keys, manifests and scores. -/
structure SameContents (snapshot other : PersistedBootstrapState) : Prop where
  knownPeers : (snapshot.knownPeers.map PersistedPeer.contents).Perm
    (other.knownPeers.map PersistedPeer.contents)
  bootstrapAddrs : snapshot.bootstrapAddrs.toFinset = other.bootstrapAddrs.toFinset
  manifests : snapshot.manifests.Perm other.manifests
  indexKeys : snapshot.indexKeys.toFinset = other.indexKeys.toFinset
  peerReputation : snapshot.peerReputation.Perm other.peerReputation

theorem sameContents_canonical (snapshot : PersistedBootstrapState) :
    SameContents snapshot.canonical snapshot where
  knownPeers := by
    rw [canonical_knownPeers]
    have hsort := (sortOn_perm (· ≤ ·) PersistedPeer.peerId
      (snapshot.knownPeers.map PersistedPeer.written)).map PersistedPeer.contents
    simpa [Function.comp_def] using hsort
  bootstrapAddrs := toFinset_sortDedup _
  manifests := sortOn_perm _ _ _
  indexKeys := toFinset_sortDedup _
  peerReputation := sortOn_perm _ _ _

/-- The canonical form is a fixed point. -/
theorem canonical_canonical (snapshot : PersistedBootstrapState) :
    snapshot.canonical.canonical = snapshot.canonical := by
  have hpeers : snapshot.canonical.canonical.knownPeers = snapshot.canonical.knownPeers := by
    rw [canonical_knownPeers, canonical_knownPeers,
      map_sortOn (· ≤ ·) PersistedPeer.peerId PersistedPeer.peerId PersistedPeer.written _
        fun _ _ => rfl]
    simp only [List.map_map, Function.comp_def, PersistedPeer.written_written, sortOn_idem]
  have haddrs := sortDedup_sortDedup snapshot.bootstrapAddrs
  have hkeys := sortDedup_sortDedup snapshot.indexKeys
  have hmanifests := sortOn_idem manifestLe id snapshot.manifests
  have hscores := sortOn_idem (· ≤ ·) PersistedPeerReputation.peerId snapshot.peerReputation
  unfold PersistedBootstrapState.canonical at hpeers ⊢
  simp only [haddrs, hkeys, hmanifests, hscores, PersistedBootstrapState.mk.injEq, and_true]
  exact hpeers

/-- A snapshot is read back with all it holds, and writing what was read gives the same
file. -/
theorem snapshot_survives_restart (json : Codec PersistedBootstrapState)
    (snapshot : PersistedBootstrapState) :
    ∃ decoded,
      decodeBootstrapSnapshot json (encodeBootstrapSnapshot json snapshot) = .ok decoded ∧
      SameContents decoded snapshot ∧
      encodeBootstrapSnapshot json decoded = encodeBootstrapSnapshot json snapshot := by
  refine ⟨snapshot.canonical, ?_, sameContents_canonical snapshot, ?_⟩
  · simp [decodeBootstrapSnapshot, encodeBootstrapSnapshot, json.fromSlice_toVec]
  · rw [encodeBootstrapSnapshot, encodeBootstrapSnapshot, canonical_canonical]

/-- Two snapshots with distinct peers that differ in the order of their collections. -/
structure Reordered (snapshot other : PersistedBootstrapState) : Prop where
  distinctPeers : (snapshot.knownPeers.map PersistedPeer.peerId).Nodup
  distinctScores : (snapshot.peerReputation.map PersistedPeerReputation.peerId).Nodup
  knownPeers : (snapshot.knownPeers.map PersistedPeer.unordered).Perm
    (other.knownPeers.map PersistedPeer.unordered)
  bootstrapAddrs : snapshot.bootstrapAddrs.Perm other.bootstrapAddrs
  manifests : snapshot.manifests.Perm other.manifests
  indexKeys : snapshot.indexKeys.Perm other.indexKeys
  peerReputation : snapshot.peerReputation.Perm other.peerReputation

namespace Reordered
variable {snapshot other : PersistedBootstrapState} (h : Reordered snapshot other)
include h

theorem canonical_knownPeers_eq : snapshot.canonical.knownPeers = other.canonical.knownPeers := by
  rw [canonical_knownPeers, canonical_knownPeers]
  refine sortOn_eq_of_perm _ _ ?_ (perm_written h.knownPeers)
  simpa [Function.comp_def, PersistedPeer.written] using h.distinctPeers

/-- Only the manifests depend on the order. -/
theorem canonical_eq_iff : snapshot.canonical = other.canonical ↔
    ∀ totalLen chunks,
      ofSize totalLen chunks snapshot.manifests = ofSize totalLen chunks other.manifests := by
  rw [← sort_manifests_eq_iff]
  constructor
  · exact fun hcanonical => congrArg PersistedBootstrapState.manifests hcanonical
  · intro hmanifests
    have hpeers := h.canonical_knownPeers_eq
    have haddrs := sortDedup_congr (List.toFinset_eq_of_perm _ _ h.bootstrapAddrs)
    have hkeys := sortDedup_congr (List.toFinset_eq_of_perm _ _ h.indexKeys)
    have hscores := sortOn_eq_of_perm (· ≤ ·) _ h.distinctScores h.peerReputation
    unfold PersistedBootstrapState.canonical at hpeers ⊢
    simp only [haddrs, hkeys, hmanifests, hscores, PersistedBootstrapState.mk.injEq, and_true]
    exact hpeers

end Reordered

/-- Reordered snapshots are written alike exactly if manifests of one size stand in the
same order. -/
theorem encoding_order_free_iff (json : Codec PersistedBootstrapState)
    {snapshot other : PersistedBootstrapState} (h : Reordered snapshot other) :
    encodeBootstrapSnapshot json snapshot = encodeBootstrapSnapshot json other ↔
      ∀ totalLen chunks,
        ofSize totalLen chunks snapshot.manifests = ofSize totalLen chunks other.manifests := by
  rw [encodeBootstrapSnapshot, encodeBootstrapSnapshot, json.toVec_injective.eq_iff,
    h.canonical_eq_iff]

section Sample

/-- A snapshot of two peers, the second with two addresses. -/
def twoPeers (manifests : List ChunkManifest) : PersistedBootstrapState where
  knownPeers := [⟨"a", ["/ip4/10.0.0.1"], 900, "ip4"⟩,
    ⟨"b", ["/ip4/10.0.0.2", "/ip4/10.0.0.3"], 900, "ip4"⟩]
  bootstrapAddrs := ["/ip4/10.0.0.1"]
  manifests := manifests
  indexKeys := ["k", "l"]
  peerReputation := []

/-- The same two peers in the other order, with the addresses exchanged. -/
def twoPeersExchanged (manifests : List ChunkManifest) : PersistedBootstrapState where
  knownPeers := [⟨"b", ["/ip4/10.0.0.3", "/ip4/10.0.0.2"], 900, "ip4"⟩,
    ⟨"a", ["/ip4/10.0.0.1"], 900, "ip4"⟩]
  bootstrapAddrs := ["/ip4/10.0.0.1"]
  manifests := manifests
  indexKeys := ["l", "k"]
  peerReputation := []

theorem reordered_twoPeers {manifests manifests' : List ChunkManifest}
    (h : manifests.Perm manifests') :
    Reordered (twoPeers manifests) (twoPeersExchanged manifests') where
  distinctPeers := by simp [twoPeers]
  distinctScores := by simp [twoPeers]
  knownPeers := by
    have hswap : (["/ip4/10.0.0.3", "/ip4/10.0.0.2"] : Multiset String) =
        ["/ip4/10.0.0.2", "/ip4/10.0.0.3"] := Quot.sound (.swap _ _ _)
    simp only [twoPeers, twoPeersExchanged, PersistedPeer.unordered, List.map_cons, List.map_nil,
      hswap]
    exact .swap _ _ _
  bootstrapAddrs := .refl _
  manifests := h
  indexKeys := .swap _ _ _
  peerReputation := .refl _

def oneChunk (hash : UInt8) (totalLen : ℕ) : ChunkManifest := ⟨[⟨0, [hash]⟩], totalLen⟩

theorem encoding_order_free_twoPeers :
    Reordered (twoPeers [oneChunk 1 5, oneChunk 2 6])
      (twoPeersExchanged [oneChunk 2 6, oneChunk 1 5]) ∧
    encodeBootstrapSnapshot sampleJson (twoPeers [oneChunk 1 5, oneChunk 2 6]) =
      encodeBootstrapSnapshot sampleJson (twoPeersExchanged [oneChunk 2 6, oneChunk 1 5]) := by
  have h := reordered_twoPeers (List.Perm.swap (oneChunk 2 6) (oneChunk 1 5) [])
  refine ⟨h, (encoding_order_free_iff sampleJson h).mpr fun totalLen chunks => ?_⟩
  simp only [twoPeers, twoPeersExchanged, ofSize, oneChunk, List.filter_cons, List.filter_nil]
  grind

/-- Two manifests of one chunk and one length are written in the order they come in. -/
theorem encoding_keeps_manifest_order :
    Reordered (twoPeers [oneChunk 1 5, oneChunk 2 5])
      (twoPeersExchanged [oneChunk 2 5, oneChunk 1 5]) ∧
    encodeBootstrapSnapshot sampleJson (twoPeers [oneChunk 1 5, oneChunk 2 5]) ≠
      encodeBootstrapSnapshot sampleJson (twoPeersExchanged [oneChunk 2 5, oneChunk 1 5]) := by
  have h := reordered_twoPeers (List.Perm.swap (oneChunk 2 5) (oneChunk 1 5) [])
  refine ⟨h, ?_⟩
  rw [encodeBootstrapSnapshot, encodeBootstrapSnapshot, sampleJson.toVec_injective.ne_iff,
    Ne, h.canonical_eq_iff]
  intro hsame
  have hone := hsame 5 1
  simp [twoPeers, twoPeersExchanged, ofSize, oneChunk] at hone

end Sample
end Spex.P2p
