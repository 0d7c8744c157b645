import Spex.CborRead
import Spex.NodeStart
import Spex.Validation

/-!
# Random walks over sources

A walk takes its sources in turn and hashes the seed, the source and the number of the
step. A source that has given its share of keys is passed over. The result is the list
of the first steps of every source, up to the share, however often a source is listed.
-/
namespace Spex.P2p
open Cbor Timers

section Shares
variable {κ : Type*} [DecidableEq κ] (label : ℕ → κ) (limit : ℕ)

/-- How many of the first steps carry a label. -/
def carried (steps : ℕ) (k : κ) : ℕ := (List.range steps).countP fun step => label step = k

/-- The first steps of every label, up to a limit for each. -/
def selected (steps : ℕ) : List ℕ :=
  (List.range steps).filter fun step => carried label step (label step) < limit

theorem carried_succ (steps : ℕ) (k : κ) :
    carried label (steps + 1) k = carried label steps k + if label steps = k then 1 else 0 := by
  simp [carried, List.range_succ, List.countP_append, List.countP_singleton]

theorem selected_succ (steps : ℕ) :
    selected label limit (steps + 1) = selected label limit steps ++
      if carried label steps (label steps) < limit then [steps] else [] := by
  simp [selected, List.range_succ, List.filter_append, List.filter_singleton]

theorem lt_of_mem_selected {steps step : ℕ} (h : step ∈ selected label limit steps) :
    step < steps := List.mem_range.mp (List.mem_filter.mp h).1

theorem nodup_selected (steps : ℕ) : (selected label limit steps).Nodup :=
  List.nodup_range.filter _

/-- Every label is selected as often as it is carried, up to the limit. -/
theorem countP_selected (steps : ℕ) (k : κ) :
    (selected label limit steps).countP (fun step => label step = k) =
      min limit (carried label steps k) := by
  induction steps with
  | zero => simp [selected, carried]
  | succ steps ih =>
    rw [selected_succ, carried_succ, List.countP_append, ih]
    by_cases hlabel : label steps = k
    · subst hlabel
      by_cases hlt : carried label steps (label steps) < limit
      · rw [if_pos hlt, if_pos rfl, List.countP_singleton, if_pos (by simp)]
        omega
      · rw [if_neg hlt, if_pos rfl, List.countP_nil]
        omega
    · split_ifs <;> simp [hlabel]

end Shares

section Walk
variable (sha256 : Bytes → Bytes) (seed : Bytes) (sources : List String)

/-- The source whose turn a step is. -/
def originAt (step : ℕ) : String := sources[step % max sources.length 1]?.getD "unknown"

def walkKey (origin : String) (step : ℕ) : Bytes :=
  hashBytes sha256 .sha256 (seed ++ Value.utf8 origin ++ u64Be (UInt64.ofNat step))

structure WalkState where
  sourceCounts : String → ℕ
  usedMaterial : List Bytes
  keys : List Bytes

/-- One turn of the loop. -/
def walkStep (normalizedLimit : ℕ) (state : WalkState) (step : ℕ) : WalkState :=
  let origin := originAt sources step
  let count := state.sourceCounts origin
  if normalizedLimit ≤ count then state
  else
    let derived := walkKey sha256 seed origin step
    if state.usedMaterial.contains derived then state
    else
      { sourceCounts := Function.update state.sourceCounts origin (count + 1)
        usedMaterial := derived :: state.usedMaterial
        keys := state.keys ++ [derived] }

/-- The steps and the share are `usize` values. -/
def robustRandomWalkWithSources (steps maxPerSource : UInt64) : List Bytes :=
  ((List.range (max steps.toNat 1)).foldl
    (walkStep sha256 seed sources (max maxPerSource.toNat 1)) ⟨fun _ => 0, [], []⟩).keys

/-- How many keys are hashes of the seed, an origin and one of the first steps. -/
def contribution (steps : ℕ) (keys : List Bytes) (origin : String) : ℕ :=
  keys.countP fun key => ∃ step ∈ List.range steps, key = walkKey sha256 seed origin step

end Walk

section Invariant
variable {sha256 : Bytes → Bytes} {seed : Bytes} {sources : List String} {limit steps : ℕ}

section Injective
variable (hinj : Function.Injective sha256)
include hinj

/-- The step has a fixed width, so the origin ends where it begins. -/
theorem walkKey_inj {origin origin' : String} {step step' : ℕ} (hstep : step < 2 ^ 64)
    (hstep' : step' < 2 ^ 64)
    (h : walkKey sha256 seed origin step = walkKey sha256 seed origin' step') :
    origin = origin' ∧ step = step' := by
  have hmaterial := hinj h
  rw [List.append_assoc, List.append_assoc, List.append_cancel_left_eq] at hmaterial
  obtain ⟨horigin, hbytes⟩ := List.append_inj' hmaterial (by simp)
  have hword := congrArg UInt64.toNat (u64Be_injective hbytes)
  rw [UInt64.toNat_ofNat_of_lt' hstep, UInt64.toNat_ofNat_of_lt' hstep'] at hword
  exact ⟨utf8_injective horigin, hword⟩

variable (sha256 seed sources) in
/-- The key of a step. -/
def keyAt (step : ℕ) : Bytes := walkKey sha256 seed (originAt sources step) step

variable (sha256 seed sources limit) in
/-- The state of the walk after a number of steps. -/
structure Walked (steps : ℕ) (state : WalkState) : Prop where
  sourceCounts : ∀ origin,
    state.sourceCounts origin = min limit (carried (originAt sources) steps origin)
  keys : state.keys = (selected (originAt sources) limit steps).map (keyAt sha256 seed sources)
  usedMaterial : ∀ key, key ∈ state.usedMaterial ↔ key ∈ state.keys

/-- No key is derived twice, so a step is passed over only for the share of its source. -/
theorem Walked.step (hsteps : steps < 2 ^ 64) {state : WalkState}
    (h : Walked sha256 seed sources limit steps state) :
    Walked sha256 seed sources limit (steps + 1)
      (walkStep sha256 seed sources limit state steps) := by
  have hcount := h.sourceCounts (originAt sources steps)
  have hfresh : keyAt sha256 seed sources steps ∉ state.usedMaterial := by
    rw [h.usedMaterial, h.keys, List.mem_map]
    rintro ⟨step, hstep, heq⟩
    have hlt := lt_of_mem_selected _ _ hstep
    have hsame := (walkKey_inj hinj (by omega) hsteps heq).2
    omega
  by_cases hroom : carried (originAt sources) steps (originAt sources steps) < limit
  · have hstep : walkStep sha256 seed sources limit state steps =
        { sourceCounts := Function.update state.sourceCounts (originAt sources steps)
            (state.sourceCounts (originAt sources steps) + 1)
          usedMaterial := keyAt sha256 seed sources steps :: state.usedMaterial
          keys := state.keys ++ [keyAt sha256 seed sources steps] } := by
      unfold walkStep
      dsimp only
      rw [if_neg (by omega)]
      exact if_neg (by simpa [keyAt] using hfresh)
    rw [hstep]
    refine ⟨fun origin => ?_, ?_, ?_⟩
    · rw [carried_succ]
      by_cases horigin : originAt sources steps = origin
      · subst horigin
        simp only [Function.update_self, if_true]
        omega
      · simp [Function.update_of_ne (Ne.symm horigin), horigin, h.sourceCounts]
    · simp [selected_succ, hroom, h.keys]
    · intro key
      simp [h.usedMaterial, or_comm]
  · have hstep : walkStep sha256 seed sources limit state steps = state := by
      unfold walkStep
      exact if_pos (by omega)
    rw [hstep]
    refine ⟨fun origin => ?_, ?_, h.usedMaterial⟩
    · rw [h.sourceCounts, carried_succ]
      split_ifs with horigin
      · subst horigin
        omega
      · rfl
    · rw [h.keys, selected_succ, if_neg hroom, List.append_nil]

theorem walked_foldl (steps : ℕ) (hsteps : steps ≤ 2 ^ 64) :
    Walked sha256 seed sources limit steps
      ((List.range steps).foldl (walkStep sha256 seed sources limit) ⟨fun _ => 0, [], []⟩) := by
  induction steps with
  | zero => exact ⟨by simp [carried], by simp [selected], by simp⟩
  | succ steps ih =>
    rw [List.range_succ, List.foldl_append]
    exact (ih (by omega)).step hinj (by omega)

variable (seed sources) in
/-- The keys are those of the first steps of every source, up to its share. -/
theorem robustRandomWalk_eq (steps maxPerSource : UInt64) :
    robustRandomWalkWithSources sha256 seed sources steps maxPerSource =
      (selected (originAt sources) (max 1 maxPerSource.toNat) (max 1 steps.toNat)).map
        (keyAt sha256 seed sources) := by
  have hlt := steps.toNat_lt
  rw [robustRandomWalkWithSources, Nat.max_comm _ 1, Nat.max_comm _ 1]
  exact (walked_foldl hinj (max 1 steps.toNat) (by omega)).keys

variable (seed sources limit) in
/-- A key counts for an origin exactly if the step it belongs to carries the origin. -/
theorem contribution_selected (hsteps : steps ≤ 2 ^ 64) (origin : String) :
    contribution sha256 seed steps
      ((selected (originAt sources) limit steps).map (keyAt sha256 seed sources)) origin =
      min limit (carried (originAt sources) steps origin) := by
  rw [contribution, List.countP_map, ← countP_selected]
  refine List.countP_congr fun step hstep => ?_
  have hlt := lt_of_mem_selected _ _ hstep
  simp only [Function.comp_apply, decide_eq_true_eq]
  constructor
  · rintro ⟨step', hstep', heq⟩
    have hlt' := List.mem_range.mp hstep'
    exact (walkKey_inj hinj (by omega) (by omega) heq).1
  · intro horigin
    refine ⟨step, List.mem_range.mpr hlt, ?_⟩
    rw [keyAt, horigin]

variable (seed sources) in
/-- What every origin gives to a walk. -/
theorem contribution_walk (steps maxPerSource : UInt64) (origin : String) :
    contribution sha256 seed (max 1 steps.toNat)
      (robustRandomWalkWithSources sha256 seed sources steps maxPerSource) origin =
      min (max 1 maxPerSource.toNat) (carried (originAt sources) (max 1 steps.toNat) origin) := by
  have hlt := steps.toNat_lt
  rw [robustRandomWalk_eq seed sources hinj]
  exact contribution_selected seed sources _ hinj (by omega) origin

end Injective

variable (sources) in
theorem originAt_mem_or (step : ℕ) :
    originAt sources step ∈ sources ∨ sources = [] ∧ originAt sources step = "unknown" := by
  rcases Nat.eq_zero_or_pos sources.length with hnone | hsome
  · have hnil := List.length_eq_zero_iff.mp hnone
    exact .inr ⟨hnil, by simp [originAt, hnil]⟩
  · have hlt : step % max sources.length 1 < sources.length := by
      rw [max_eq_left hsome]
      exact Nat.mod_lt _ hsome
    left
    simp [originAt, List.getElem?_eq_getElem hlt]

/-- A source that is listed has a turn in the first round. -/
theorem carried_pos {origin : String} (hmem : origin ∈ sources) (hsteps : sources.length ≤ steps) :
    1 ≤ carried (originAt sources) steps origin := by
  obtain ⟨index, hindex, rfl⟩ := List.mem_iff_getElem.mp hmem
  refine List.countP_pos_iff.mpr ⟨index, List.mem_range.mpr (by omega), ?_⟩
  have hmod : index % max sources.length 1 = index := Nat.mod_eq_of_lt (by omega)
  simp [originAt, hmod, hindex]

end Invariant

/-- The keys of a walk are distinct hashes of the seed, an origin and a step. Each origin
gives as many keys as steps carry it, up to its share, and at least one if the walk is
as long as the list of sources. -/
theorem walk_influence_bounded {sha256 : Bytes → Bytes} (hinj : Function.Injective sha256)
    (seed : Bytes) (steps : UInt64) (sources : List String) (maxPerSource : UInt64) :
    let keys := robustRandomWalkWithSources sha256 seed sources steps maxPerSource
    let walked := max 1 steps.toNat
    keys.Nodup ∧
      (∀ key ∈ keys, ∃ step < walked, key = walkKey sha256 seed (originAt sources step) step) ∧
      (∀ origin, contribution sha256 seed walked keys origin =
        min (max 1 maxPerSource.toNat) (carried (originAt sources) walked origin)) ∧
      (sources.length ≤ steps.toNat →
        ∀ origin ∈ sources, 1 ≤ contribution sha256 seed walked keys origin) := by
  have hlt := steps.toNat_lt
  have hkeys := robustRandomWalk_eq seed sources hinj steps maxPerSource
  have hshare := contribution_walk seed sources hinj steps maxPerSource
  refine ⟨?_, ?_, hshare, ?_⟩
  · rw [hkeys]
    refine (nodup_selected _ _ _).map_on fun step hstep step' hstep' heq => ?_
    have hstep := lt_of_mem_selected _ _ hstep
    have hstep' := lt_of_mem_selected _ _ hstep'
    exact (walkKey_inj hinj (by omega) (by omega) heq).2
  · intro key hkey
    rw [hkeys] at hkey
    obtain ⟨step, hstep, rfl⟩ := List.mem_map.mp hkey
    exact ⟨step, lt_of_mem_selected _ _ hstep, rfl⟩
  · intro hlong origin horigin
    rw [hshare]
    have hcarried := carried_pos horigin (hlong.trans (le_max_right 1 steps.toNat))
    omega

/-- SHA-256 on what a walk of six steps over a source that is listed twice and another one
hashes. -/
def walkHash : Bytes → Bytes :=
  Tabulated.tabulated ([
    0xa17a7fedc8fde9f5283b7cf9e641ad384ef9d9a1f4e6f8dd23939d3f91b4c4e9,
    0xe1267ac79ad23956fa85a37f3ea951e418c38b361779e27bc47a48cbe95c5e89,
    0x656e7f8a4a3d89327156993f84b425483e2cd0d91f4f4a4a43f957fd6964a7e5,
    0xd9c40ce1f6cf6fd6b54d08f968de5441cca7dd12eaf721073781e400128bc3bc,
    0xe4840f537a085193680c7c77f517ec326c15f2eb8d8b0384fb1a4324ce0f436f,
    0xbdc2378c2df53a4535b47df77b78a9876ec5f5e490c16da1a2555018b3cd46b6].mapIdx
      fun step digest => (7 :: Value.utf8 (originAt ["a", "a", "b"] step) ++
        u64Be (UInt64.ofNat step), BigEndian.write 32 digest))

/-- With a share of one. -/
theorem walk_influence_bounded_sample :
    let keys := robustRandomWalkWithSources walkHash [7] ["a", "a", "b"] 6 1
    contribution walkHash [7] 6 keys "a" = 1 ∧ 1 ≤ contribution walkHash [7] 6 keys "b" := by
  have hinj : Function.Injective walkHash := Tabulated.tabulated_injective (by decide)
  obtain ⟨-, -, hshare, hcovers⟩ := walk_influence_bounded hinj [7] 6 ["a", "a", "b"] 1
  exact ⟨(hshare "a").trans (by decide), hcovers (by decide) "b" (by decide)⟩

section Candidates
variable {Peer : Type} [DecidableEq Peer] (libp2p : Libp2p Peer) (localPeer : Peer)
  (iterate : List PersistedPeer → List PersistedPeer)

def isPeerProbationary (scores : PeerScores Peer) (peer : Peer) (now : ℕ) : Bool :=
  running ((scores peer).bind PeerScore.probationUntil) now

/-- A known peer that may influence a walk; a name that is no peer id stands for the node
itself. -/
def isWalkSource (node : TransportNode Peer) (now : ℕ) (entry : PersistedPeer) : Bool :=
  let parsedPeer := (libp2p.parsePeer entry.peerId).getD localPeer
  !isPeerBanned (Table.get node.peerScores) parsedPeer now &&
    !isPeerProbationary (Table.get node.peerScores) parsedPeer now

/-- The origins of the peers that may influence a walk, in the order that the hash map of
peers is iterated in. -/
def walkOrigins (node : TransportNode Peer) (now : ℕ) : List String :=
  ((iterate (node.peerStore.map Prod.snd)).filter (isWalkSource libp2p localPeer node now)).map
    PersistedPeer.originTag

def randomWalkCandidates (sha256 : Bytes → Bytes) (node : TransportNode Peer) (now : ℕ)
    (seed : Bytes) (steps maxPerOrigin : UInt64) : List Bytes :=
  robustRandomWalkWithSources sha256 seed (walkOrigins libp2p localPeer iterate node now) steps
    maxPerOrigin

/-- Whatever peers a node knows, no origin gives more than its share of the candidates, and
only the origins of peers that are neither banned nor on probation give any, unless there
are no such peers. -/
theorem candidates_bounded {sha256 : Bytes → Bytes} (hinj : Function.Injective sha256)
    (hiterate : ∀ peers, (iterate peers).Perm peers) (node : TransportNode Peer) (now : ℕ)
    (seed : Bytes) (steps maxPerOrigin : UInt64) (origin : String) :
    let share := contribution sha256 seed (max 1 steps.toNat) (randomWalkCandidates libp2p
      localPeer iterate sha256 node now seed steps maxPerOrigin) origin
    share ≤ max 1 maxPerOrigin.toNat ∧ (0 < share →
      (∃ entry ∈ node.peerStore, isWalkSource libp2p localPeer node now entry.2 ∧
        entry.2.originTag = origin) ∨
      walkOrigins libp2p localPeer iterate node now = [] ∧ origin = "unknown") := by
  intro share
  have hshare : share = _ := contribution_walk seed (walkOrigins libp2p localPeer iterate node now)
    hinj steps maxPerOrigin origin
  refine ⟨by omega, fun hpos => ?_⟩
  have hcarried : 0 < carried (originAt (walkOrigins libp2p localPeer iterate node now))
      (max 1 steps.toNat) origin := by omega
  obtain ⟨step, -, hstep⟩ := List.countP_pos_iff.mp hcarried
  have horigin : originAt (walkOrigins libp2p localPeer iterate node now) step = origin := by
    simpa using hstep
  rcases originAt_mem_or (walkOrigins libp2p localPeer iterate node now) step with hmem | hnone
  · rw [horigin] at hmem
    obtain ⟨entry, hentry, htag⟩ := List.mem_map.mp hmem
    obtain ⟨hknown, hsource⟩ := List.mem_filter.mp hentry
    obtain ⟨known, hstored, rfl⟩ := List.mem_map.mp ((hiterate _).mem_iff.mp hknown)
    exact .inl ⟨known, hstored, hsource, htag⟩
  · rw [horigin] at hnone
    exact .inr hnone

end Candidates
end Spex.P2p
