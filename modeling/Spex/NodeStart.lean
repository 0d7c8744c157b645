import Spex.BanRestarts
import Spex.Codec
import Spex.KeySort
import Spex.Table
import Spex.Transport

/-!
# Starting a node from a snapshot

A node reads the peers and scores of its last run from a snapshot file, then connects
to the peers of its configuration and to those of the snapshot. A file that cannot be
decoded is moved away and replaced by an empty snapshot, and the error is a warning.
The times of the snapshot are turned into instants, which panics for a time that is
not an instant of the clock; the addresses are connected one by one, and the first
that names no peer or cannot be dialled ends the start.
-/
namespace Spex.P2p
open Fallible KeySort Timers

/-- A component of an address. -/
inductive Protocol (Peer : Type) where
  | ip4 (address : String)
  | ip6 (address : String)
  | dns (name : String)
  | dns4 (name : String)
  | dns6 (name : String)
  | p2p (peer : Peer)
  | other (text : String)
  deriving DecidableEq, Repr

abbrev Multiaddr (Peer : Type) := List (Protocol Peer)

/-- The library's parsers and texts of peer ids and addresses, and what it answers when
an address is dialled. -/
structure Libp2p (Peer : Type) where
  parsePeer : String → Option Peer
  peerText : Peer → String
  parseAddr : String → Option (Multiaddr Peer)
  addrText : Multiaddr Peer → String
  dial : Multiaddr Peer → Except String Unit

inductive NodeError where
  | libp2p (message : String)
  | transport (error : TransportError)
  deriving DecidableEq, Repr

structure PersistedPeer where
  peerId : String
  addresses : List String
  lastSeenUnixSeconds : ℕ
  originTag : String
  deriving DecidableEq, Repr

/-- What a node writes to its file. -/
structure PersistedBootstrapState where
  knownPeers : List PersistedPeer
  bootstrapAddrs : List String
  manifests : List ChunkManifest
  indexKeys : List String
  peerReputation : List PersistedPeerReputation
  deriving DecidableEq, Repr

def PersistedBootstrapState.empty : PersistedBootstrapState := ⟨[], [], [], [], []⟩

/-- The part of the node's configuration that starting uses. -/
structure P2pNodeConfig (Peer : Type) extends ReputationConfig where
  peers : List (Multiaddr Peer) := []
  bootstrapNodes : List (Multiaddr Peer) := []
  persistencePath : Option String := none

inductive SnapshotLoadState where
  | notConfigured
  | missing
  | loaded
  | quarantinedRecovered
  deriving DecidableEq, Repr

/-- How the snapshot was recovered; a quarantined file is named by the second it was
moved at. -/
structure SnapshotRecoveryStatus where
  loadState : SnapshotLoadState := .notConfigured
  restoredKnownPeers : ℕ := 0
  restoredManifests : ℕ := 0
  restoredIndexKeys : ℕ := 0
  quarantinedSnapshots : ℕ := 0
  lastQuarantinedAt : Option ℕ := none
  deriving DecidableEq, Repr

/-- What a node keeps in memory. -/
structure TransportNode (Peer : Type) where
  peerStore : List (Peer × PersistedPeer) := []
  knownManifests : List ChunkManifest := []
  knownIndexKeys : List String := []
  peerScores : List (Peer × PeerScore) := []
  persistenceWarnings : List NodeError := []
  snapshotRecoveryStatus : SnapshotRecoveryStatus := {}

/-- The snapshot file, the file it was last moved to, and the answers of the file system
when a file is renamed or written. -/
structure SnapshotDisk where
  active : Option Bytes
  quarantined : Option Bytes := none
  renameError : Option NodeError := none
  writeError : Option NodeError := none

section Snapshots

/-- `sort` and `dedup`. -/
def sortDedup (texts : List String) : List String :=
  (sortOn (· ≤ ·) id texts).destutter (· ≠ ·)

/-- Fewer bytes first, then fewer chunks. -/
def manifestLe (left right : ChunkManifest) : Prop :=
  left.totalLen < right.totalLen ∨
    left.totalLen = right.totalLen ∧ left.chunks.length ≤ right.chunks.length

instance : DecidableRel manifestLe := fun left right =>
  inferInstanceAs (Decidable (left.totalLen < right.totalLen ∨
    left.totalLen = right.totalLen ∧ left.chunks.length ≤ right.chunks.length))

/-- The value that `encode_bootstrap_snapshot` serializes. -/
def PersistedBootstrapState.canonical (snapshot : PersistedBootstrapState) :
    PersistedBootstrapState where
  knownPeers := (sortOn (· ≤ ·) PersistedPeer.peerId snapshot.knownPeers).map fun peer =>
    { peer with addresses := sortDedup peer.addresses }
  bootstrapAddrs := sortDedup snapshot.bootstrapAddrs
  manifests := sortOn manifestLe id snapshot.manifests
  indexKeys := sortDedup snapshot.indexKeys
  peerReputation := sortOn (· ≤ ·) PersistedPeerReputation.peerId snapshot.peerReputation

variable (json : Codec PersistedBootstrapState)

def encodeBootstrapSnapshot (snapshot : PersistedBootstrapState) : Bytes :=
  json.toVec snapshot.canonical

def writeBootstrapSnapshotAtomic (disk : SnapshotDisk) (snapshot : PersistedBootstrapState) :
    Except NodeError SnapshotDisk :=
  match disk.writeError with
  | some err => .error err
  | none => .ok { disk with active := some (encodeBootstrapSnapshot json snapshot) }

/-- The unreadable file is renamed. -/
def quarantineCorruptedSnapshot (disk : SnapshotDisk) : Except NodeError SnapshotDisk :=
  match disk.renameError with
  | some err => .error err
  | none => .ok { disk with active := none, quarantined := disk.active }

end Snapshots

section Addresses
variable {Peer : Type}

/-- The first peer that an address names, and the components before it. -/
def splitPeerAddr : Multiaddr Peer → Except NodeError (Peer × Multiaddr Peer)
  | [] => .error (.libp2p "missing peer id")
  | .p2p peer :: _ => .ok (peer, [])
  | protocol :: rest => (splitPeerAddr rest).map fun result => (result.1, protocol :: result.2)

def inferOriginTag : Multiaddr Peer → String
  | .ip4 _ :: _ => "ip4"
  | .ip6 _ :: _ => "ip6"
  | .dns _ :: _ | .dns4 _ :: _ | .dns6 _ :: _ => "dns"
  | _ => "unknown"

end Addresses

section Starting
variable {Peer : Type} [DecidableEq Peer] (libp2p : Libp2p Peer)
  (json : Codec PersistedBootstrapState) (iterate : List PersistedPeer → List PersistedPeer)
  (config : P2pNodeConfig Peer) (instantLimit : ℕ)

/-- The node with the contents of a snapshot; a time that is not an instant is a panic. -/
def restoreSnapshot (node : TransportNode Peer) (now : Moment)
    (snapshot : PersistedBootstrapState) : Option (TransportNode Peer) := do
  let peerStore ← Table.fill (fun peer => libp2p.parsePeer peer.peerId) some snapshot.knownPeers
  let peerScores ← Table.fill (fun reputation => libp2p.parsePeer reputation.peerId)
    (loadPeerScore instantLimit now) snapshot.peerReputation
  return { node with
    peerStore, peerScores
    knownManifests := snapshot.manifests
    knownIndexKeys := snapshot.indexKeys.dedup
    snapshotRecoveryStatus := { node.snapshotRecoveryStatus with
      loadState := .loaded
      restoredKnownPeers := snapshot.knownPeers.length
      restoredManifests := snapshot.manifests.length
      restoredIndexKeys := snapshot.indexKeys.length } }

/-- The way out for a file that cannot be decoded, which is always an error. -/
def recoverCorrupted (node : TransportNode Peer) (now : Moment) (disk : SnapshotDisk) :
    NodeError × TransportNode Peer × SnapshotDisk :=
  match quarantineCorruptedSnapshot disk with
  | .error err => (err, node, disk)
  | .ok disk =>
    match writeBootstrapSnapshotAtomic json disk .empty with
    | .error err => (err, node, disk)
    | .ok disk =>
      let status := node.snapshotRecoveryStatus
      (.transport (.invalidPayload none), { node with
        snapshotRecoveryStatus :=
          { loadState := .quarantinedRecovered
            quarantinedSnapshots := status.quarantinedSnapshots + 1
            lastQuarantinedAt := some now.unixSeconds } }, disk)

/-- The start from the file, if there is one. -/
def loadPersistedState (node : TransportNode Peer) (now : Moment) (disk : SnapshotDisk) :
    Except (Fault NodeError) Unit × TransportNode Peer × SnapshotDisk :=
  let status := node.snapshotRecoveryStatus
  match config.persistencePath, disk.active with
  | none, _ => (.ok (), { node with
      snapshotRecoveryStatus := { status with loadState := .notConfigured } }, disk)
  | some _, none => (.ok (), { node with
      snapshotRecoveryStatus := { status with loadState := .missing } }, disk)
  | some _, some content =>
    match json.fromSlice content with
    | none =>
      let (err, node, disk) := recoverCorrupted json node now disk
      (.error (.returned err), node, disk)
    | some snapshot =>
      match restoreSnapshot libp2p instantLimit node now snapshot with
      | none => (.error .panicked, node, disk)
      | some node => (.ok (), node, disk)

/-- The addresses of the restored peers, in the order that a hash map is iterated in. -/
def persistedBootstrapAddrs (node : TransportNode Peer) : List (Multiaddr Peer) :=
  (iterate (node.peerStore.map Prod.snd)).flatMap fun peer =>
    peer.addresses.filterMap libp2p.parseAddr

/-- The address is added to those of the peer. -/
def observePeer (node : TransportNode Peer) (now : Moment) (peer : Peer) (address : String)
    (originTag : String) : TransportNode Peer :=
  let entry := (Table.get node.peerStore peer).getD ⟨libp2p.peerText peer, [], 0, originTag⟩
  let addresses := if address ∈ entry.addresses then entry.addresses
    else entry.addresses ++ [address]
  let entry := { entry with addresses, lastSeenUnixSeconds := now.unixSeconds, originTag }
  { node with peerStore := Table.insert node.peerStore peer entry }

/-- One turn of the loop of `configure_peers`. -/
def configurePeer (now : Moment) (node : TransportNode Peer) (addr : Multiaddr Peer) :
    Except NodeError (TransportNode Peer) :=
  match splitPeerAddr addr with
  | .error err => .error err
  | .ok (peer, _) =>
    if isPeerBanned (Table.get node.peerScores) peer now.instant then .ok node
    else match libp2p.dial addr with
      | .error message => .error (.libp2p message)
      | .ok () =>
        .ok (observePeer libp2p node now peer (libp2p.addrText addr) (inferOriginTag addr))

/-- The tables of the node, written to its file. -/
def persistState (node : TransportNode Peer) (now : Moment) (disk : SnapshotDisk) :
    Except (Fault NodeError) SnapshotDisk :=
  match config.persistencePath with
  | none => .ok disk
  | some _ =>
    let peers := iterate (node.peerStore.map Prod.snd)
    let bootstrapAddrs := config.bootstrapNodes.map libp2p.addrText ++
      peers.flatMap PersistedPeer.addresses
    match node.peerScores.mapM fun entry =>
        persistPeerScore (libp2p.peerText entry.1) now entry.2 with
    | none => .error .panicked
    | some peerReputation => (writeBootstrapSnapshotAtomic json disk
        ⟨peers, bootstrapAddrs, node.knownManifests, node.knownIndexKeys, peerReputation⟩).mapError
        .returned

def configurePeers (node : TransportNode Peer) (now : Moment) (disk : SnapshotDisk) :
    Except (Fault NodeError) (TransportNode Peer × SnapshotDisk) := do
  let addresses := config.peers ++ config.bootstrapNodes ++
    persistedBootstrapAddrs libp2p iterate node
  let node ← (addresses.foldlM (configurePeer libp2p now) node).mapError .returned
  let disk ← persistState libp2p json iterate config node now disk
  return (node, disk)

/-- What `P2pTransport::new` does once the snapshot is loaded. -/
def finishStart (node : TransportNode Peer) (now : Moment) (disk : SnapshotDisk) :
    Except (Fault NodeError) (TransportNode Peer × SnapshotDisk) := do
  let (node, disk) ← configurePeers libp2p json iterate config node now disk
  let disk ← persistState libp2p json iterate config node now disk
  return (node, disk)

/-- `P2pTransport::new` without the set-up of the network. The snapshot is loaded at one
moment, the peers are connected at another. An error of loading is only a warning. -/
def startNode (loadedAt now : Moment) (disk : SnapshotDisk) :
    Except (Fault NodeError) (TransportNode Peer × SnapshotDisk) :=
  match loadPersistedState libp2p json config instantLimit {} loadedAt disk with
  | (.error .panicked, _, _) => .error .panicked
  | (.error (.returned err), node, disk) =>
    finishStart libp2p json iterate config
      { node with persistenceWarnings := node.persistenceWarnings ++ [err] } now disk
  | (.ok (), node, disk) => finishStart libp2p json iterate config node now disk

end Starting

section Times
variable {instantLimit : ℕ} {now : Moment} {reputation : PersistedPeerReputation}

/-- A second that is past, or can be turned into an instant of the clock. -/
def Representable (instantLimit : ℕ) (now : Moment) (seconds : ℕ) : Prop :=
  seconds ≤ now.unixSeconds ∨
    now.instant + (seconds - now.unixSeconds) * second < instantLimit

theorem unixSecondsToInstant_ne_none {seconds : ℕ} :
    unixSecondsToInstant instantLimit now seconds ≠ none ↔
      Representable instantLimit now seconds := by
  unfold unixSecondsToInstant Representable instantAdd
  split_ifs with hpast hfits
  · simp [hpast]
  · simp [hfits]
  · simp [hpast, hfits]

theorem mapM_ne_none {convert : ℕ → Option ℕ} {timer : Option ℕ} :
    timer.mapM convert ≠ none ↔ ∀ time, timer = some time → convert time ≠ none := by
  cases timer with
  | none => simp
  | some time => simp

theorem loadPeerScore_ne_none :
    loadPeerScore instantLimit now reputation ≠ none ↔
      ∀ seconds, reputation.probationUntilUnixSeconds = some seconds ∨
        reputation.bannedUntilUnixSeconds = some seconds →
          Representable instantLimit now seconds := by
  simp only [or_imp, forall_and, ← unixSecondsToInstant_ne_none, ← mapM_ne_none]
  unfold loadPeerScore
  cases reputation.probationUntilUnixSeconds.mapM (unixSecondsToInstant instantLimit now) with
  | none => simp
  | some probationUntil =>
    cases reputation.bannedUntilUnixSeconds.mapM (unixSecondsToInstant instantLimit now) with
    | none => simp
    | some bannedUntil => simp

/-- Instants of timers are instants of the clock. -/
def PeerScore.OnClock (instantLimit : ℕ) (state : PeerScore) : Prop :=
  ∀ time, state.probationUntil = some time ∨ state.bannedUntil = some time → time < instantLimit

theorem lt_of_unixSecondsToInstant {seconds instant : ℕ} (hnow : now.instant < instantLimit)
    (h : unixSecondsToInstant instantLimit now seconds = some instant) :
    instant < instantLimit := by
  unfold unixSecondsToInstant instantAdd at h
  split_ifs at h with hpast hfits
  · rwa [← Option.some.inj h]
  · rwa [← Option.some.inj h]

theorem lt_of_mapM {timer : Option ℕ} {instant : ℕ} (hnow : now.instant < instantLimit)
    (h : timer.mapM (unixSecondsToInstant instantLimit now) = some (some instant)) :
    instant < instantLimit := by
  cases timer with
  | none => simp at h
  | some seconds =>
    obtain ⟨time, htime, heq⟩ := Option.map_eq_some_iff.mp h
    obtain rfl := Option.some.inj heq
    exact lt_of_unixSecondsToInstant hnow htime

theorem onClock_load {state : PeerScore} (hnow : now.instant < instantLimit)
    (h : loadPeerScore instantLimit now reputation = some state) : state.OnClock instantLimit := by
  obtain ⟨probationUntil, hprobation, h⟩ := Option.bind_eq_some_iff.mp h
  obtain ⟨bannedUntil, hban, h⟩ := Option.bind_eq_some_iff.mp h
  obtain rfl := Option.some.inj h
  rintro time (rfl | rfl)
  · exact lt_of_mapM hnow hprobation
  · exact lt_of_mapM hnow hban

theorem persistPeerScore_ne_none {peerId : String} {state : PeerScore}
    (hseconds : now.unixSeconds + wholeSeconds instantLimit < 2 ^ 64)
    (h : state.OnClock instantLimit) : persistPeerScore peerId now state ≠ none := by
  have hstored : ∀ time, state.probationUntil = some time ∨ state.bannedUntil = some time →
      instantToUnixSeconds now time ≠ none := by
    intro time htime
    have hle : wholeSeconds (time - now.instant) ≤ wholeSeconds instantLimit :=
      Nat.div_le_div_right ((Nat.sub_le _ _).trans (h time htime).le)
    simp only [instantToUnixSeconds]
    rw [if_pos (by omega)]
    simp
  simp only [or_imp, forall_and, ← mapM_ne_none] at hstored
  obtain ⟨hprobation, hban⟩ := hstored
  unfold persistPeerScore
  cases hp : state.probationUntil.mapM (instantToUnixSeconds now) with
  | none => exact absurd hp hprobation
  | some probationUntil =>
    cases hb : state.bannedUntil.mapM (instantToUnixSeconds now) with
    | none => exact absurd hb hban
    | some bannedUntil => simp

end Times

section Connecting
variable {Peer : Type} [DecidableEq Peer] {libp2p : Libp2p Peer}
  {json : Codec PersistedBootstrapState} {iterate : List PersistedPeer → List PersistedPeer}
  {config : P2pNodeConfig Peer} {instantLimit : ℕ} {node node' : TransportNode Peer}
  {now : Moment} {disk : SnapshotDisk} {addrs : List (Multiaddr Peer)}

/-- An address that names a peer which is banned or can be dialled. -/
def Acceptable (libp2p : Libp2p Peer) (banned : Peer → Prop) (addr : Multiaddr Peer) : Prop :=
  ∃ peer base, splitPeerAddr addr = .ok (peer, base) ∧
    (banned peer ∨ libp2p.dial addr = .ok ())

theorem configurePeer_cases (libp2p : Libp2p Peer) (now : Moment) (node : TransportNode Peer)
    (addr : Multiaddr Peer) :
    let banned := fun peer => isPeerBanned (Table.get node.peerScores) peer now.instant = true
    (∃ node', configurePeer libp2p now node addr = .ok node' ∧
        node'.peerScores = node.peerScores ∧ Acceptable libp2p banned addr) ∨
      (∃ err, configurePeer libp2p now node addr = .error err) ∧
        ¬ Acceptable libp2p banned addr := by
  intro banned
  unfold configurePeer Acceptable
  cases hsplit : splitPeerAddr addr with
  | error err => simp
  | ok result =>
    obtain ⟨peer, base⟩ := result
    dsimp only
    by_cases hbanned : banned peer
    · rw [if_pos hbanned]
      exact .inl ⟨node, rfl, rfl, peer, base, rfl, .inl hbanned⟩
    · rw [if_neg hbanned]
      cases hdial : libp2p.dial addr with
      | error message =>
        refine .inr ⟨⟨_, rfl⟩, ?_⟩
        rintro ⟨peer', base', heq, hpeer | hdialled⟩
        · obtain ⟨rfl, -⟩ := Prod.mk.inj (Except.ok.inj heq)
          exact hbanned hpeer
        · simp at hdialled
      | ok _ => exact .inl ⟨_, rfl, rfl, peer, base, rfl, .inr rfl⟩

/-- The loop ends well if every address is acceptable, and leaves the scores alone. -/
theorem configureLoop_cases (libp2p : Libp2p Peer) (now : Moment) (node : TransportNode Peer)
    (addrs : List (Multiaddr Peer)) :
    let banned := fun peer => isPeerBanned (Table.get node.peerScores) peer now.instant = true
    (∃ node', addrs.foldlM (configurePeer libp2p now) node = .ok node' ∧
        node'.peerScores = node.peerScores ∧ ∀ addr ∈ addrs, Acceptable libp2p banned addr) ∨
      (∃ err, addrs.foldlM (configurePeer libp2p now) node = .error err) ∧
        ¬ ∀ addr ∈ addrs, Acceptable libp2p banned addr := by
  induction addrs generalizing node with
  | nil => exact .inl ⟨node, rfl, rfl, by simp⟩
  | cons addr addrs ih =>
    intro banned
    rw [List.foldlM_cons, List.forall_mem_cons]
    rcases configurePeer_cases libp2p now node addr with
      ⟨next, hnext, hscores, haccept⟩ | ⟨⟨err, herr⟩, hrefuse⟩
    · rw [hnext, ok_bind]
      have hrest := ih next
      rw [hscores] at hrest
      rcases hrest with ⟨node', hloop, hscores', hall⟩ | ⟨herr, hnone⟩
      · exact .inl ⟨node', hloop, hscores', haccept, hall⟩
      · exact .inr ⟨herr, fun hall => hnone hall.2⟩
    · rw [herr, error_bind]
      exact .inr ⟨⟨err, rfl⟩, fun hall => hrefuse hall.1⟩

/-- Every score can be stored at a moment. -/
def Storable (node : TransportNode Peer) (now : Moment) : Prop :=
  ∀ entry ∈ node.peerScores, ∀ peerId, persistPeerScore peerId now entry.2 ≠ none

omit [DecidableEq Peer] in
variable (libp2p) in
theorem Storable.mapM (h : Storable node now) :
    ∃ stored, node.peerScores.mapM (fun entry =>
      persistPeerScore (libp2p.peerText entry.1) now entry.2) = some stored := by
  unfold Storable at h
  generalize node.peerScores = scores at h
  induction scores with
  | nil => exact ⟨[], rfl⟩
  | cons entry entries ih =>
    obtain ⟨first, hfirst⟩ := Option.ne_none_iff_exists'.mp (h entry (by simp) _)
    obtain ⟨stored, hstored⟩ := ih fun other hother => h other (by simp [hother])
    exact ⟨first :: stored, by rw [List.mapM_cons, hfirst, hstored]; rfl⟩

omit [DecidableEq Peer] in
variable (libp2p json iterate disk) in
theorem persistState_cases {path : String} (hpath : config.persistencePath = some path)
    (hstore : Storable node now) :
    (∃ disk', persistState libp2p json iterate config node now disk = .ok disk' ∧
        disk'.writeError = none ∧ disk.writeError = none) ∨
      (∃ err, persistState libp2p json iterate config node now disk = .error (.returned err)) ∧
        disk.writeError ≠ none := by
  obtain ⟨stored, hstored⟩ := hstore.mapM libp2p
  unfold persistState writeBootstrapSnapshotAtomic
  rw [hpath]
  dsimp only
  rw [hstored]
  cases hwrite : disk.writeError with
  | none => exact .inl ⟨_, rfl, rfl, rfl⟩
  | some err => exact .inr ⟨⟨err, rfl⟩, by simp⟩

variable (libp2p json iterate disk) in
/-- After loading, the start succeeds if all addresses are acceptable and the snapshot
can be written. It does not panic. -/
theorem finishStart_cases {path : String} (hpath : config.persistencePath = some path)
    (hstore : Storable node now) :
    let banned := fun peer => isPeerBanned (Table.get node.peerScores) peer now.instant = true
    let succeeds := (∀ addr ∈ config.peers ++ config.bootstrapNodes ++
      persistedBootstrapAddrs libp2p iterate node, Acceptable libp2p banned addr) ∧
      disk.writeError = none
    (∃ result, finishStart libp2p json iterate config node now disk = .ok result) ∧ succeeds ∨
      (∃ err, finishStart libp2p json iterate config node now disk = .error (.returned err)) ∧
        ¬ succeeds := by
  intro banned succeeds
  unfold finishStart configurePeers
  dsimp only
  rcases configureLoop_cases libp2p now node (config.peers ++ config.bootstrapNodes ++
      persistedBootstrapAddrs libp2p iterate node) with
    ⟨next, hloop, hscores, hall⟩ | ⟨⟨err, hloop⟩, hrefuse⟩
  · have hnext : Storable next now := by
      unfold Storable
      rw [hscores]
      exact hstore
    rw [hloop]
    rcases persistState_cases libp2p json iterate disk hpath hnext with
      ⟨disk', hfirst, hwrite', hwrite⟩ | ⟨⟨err, herr⟩, hwrite⟩
    · rcases persistState_cases libp2p json iterate disk' hpath hnext with
        ⟨disk'', hagain, -, -⟩ | ⟨-, hfails⟩
      · refine .inl ⟨⟨(next, disk''), ?_⟩, hall, hwrite⟩
        simp [Except.mapError, hfirst, hagain]
      · exact absurd hwrite' hfails
    · refine .inr ⟨⟨err, ?_⟩, fun h => hwrite h.2⟩
      simp [Except.mapError, herr]
  · rw [hloop]
    exact .inr ⟨⟨err, rfl⟩, fun h => hrefuse h.1⟩

end Connecting

end Spex.P2p
