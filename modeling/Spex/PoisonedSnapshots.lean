import Spex.NodeStart

/-!
# Snapshots that keep a node from starting

A snapshot file that cannot be decoded never matters for the start of a node. One that
can be decoded keeps the node from starting exactly if one of its times is not an
instant of the clock, or one of the addresses of its peers names no peer or cannot be
dialled, unless the peer it names is banned.
-/
namespace Spex.P2p
open Fallible Timers

section Restoring
variable {Peer : Type} [DecidableEq Peer] {libp2p : Libp2p Peer}
  {iterate : List PersistedPeer → List PersistedPeer} {instantLimit : ℕ}
  {node restored : TransportNode Peer} {loadedAt now : Moment}
  {snapshot : PersistedBootstrapState}

/-- The last entry of a peer among those that the snapshot lists. -/
def LastKnown (libp2p : Libp2p Peer) (snapshot : PersistedBootstrapState) (peer : Peer)
    (entry : PersistedPeer) : Prop :=
  Table.Last (fun peer => libp2p.parsePeer peer.peerId) snapshot.knownPeers peer entry

def LastReputation (libp2p : Libp2p Peer) (snapshot : PersistedBootstrapState) (peer : Peer)
    (reputation : PersistedPeerReputation) : Prop :=
  Table.Last (fun reputation => libp2p.parsePeer reputation.peerId) snapshot.peerReputation peer
    reputation

/-- The snapshot bans a peer beyond the moment that it is connected at. -/
def BannedBy (libp2p : Libp2p Peer) (loadedAt now : Moment) (snapshot : PersistedBootstrapState)
    (peer : Peer) : Prop :=
  ∃ reputation seconds, LastReputation libp2p snapshot peer reputation ∧
    reputation.bannedUntilUnixSeconds = some seconds ∧ now.instant < loadedAt.ofUnix seconds

/-- Every time of a known peer's score is past or an instant of the clock. -/
def TimesRepresentable (libp2p : Libp2p Peer) (instantLimit : ℕ) (loadedAt : Moment)
    (snapshot : PersistedBootstrapState) : Prop :=
  ∀ reputation ∈ snapshot.peerReputation, libp2p.parsePeer reputation.peerId ≠ none →
    ∀ seconds, reputation.probationUntilUnixSeconds = some seconds ∨
      reputation.bannedUntilUnixSeconds = some seconds →
        Representable instantLimit loadedAt seconds

theorem restoreSnapshot_cases (libp2p : Libp2p Peer) (instantLimit : ℕ)
    (node : TransportNode Peer) (loadedAt : Moment) (snapshot : PersistedBootstrapState) :
    restoreSnapshot libp2p instantLimit node loadedAt snapshot = none ∧
        ¬ TimesRepresentable libp2p instantLimit loadedAt snapshot ∨
      ∃ restored, restoreSnapshot libp2p instantLimit node loadedAt snapshot = some restored ∧
        TimesRepresentable libp2p instantLimit loadedAt snapshot ∧
        Table.fill (fun peer => libp2p.parsePeer peer.peerId) some snapshot.knownPeers =
          some restored.peerStore ∧
        Table.fill (fun reputation => libp2p.parsePeer reputation.peerId)
          (loadPeerScore instantLimit loadedAt) snapshot.peerReputation =
          some restored.peerScores := by
  have hpeers : (Table.fill (fun peer => libp2p.parsePeer peer.peerId) some
      snapshot.knownPeers).isSome := by
    rw [Table.isSome_fill]
    simp
  obtain ⟨peerStore, hstore⟩ := Option.isSome_iff_exists.mp hpeers
  have htimes : TimesRepresentable libp2p instantLimit loadedAt snapshot ↔
      (Table.fill (fun reputation => libp2p.parsePeer reputation.peerId)
        (loadPeerScore instantLimit loadedAt) snapshot.peerReputation).isSome := by
    rw [Table.isSome_fill]
    simp only [loadPeerScore_ne_none]
    rfl
  unfold restoreSnapshot
  rw [hstore, htimes]
  cases hscores : Table.fill (fun reputation => libp2p.parsePeer reputation.peerId)
      (loadPeerScore instantLimit loadedAt) snapshot.peerReputation with
  | none => exact .inl ⟨rfl, by simp⟩
  | some peerScores => exact .inr ⟨_, rfl, rfl, rfl, rfl⟩

variable (hpeers : Table.fill (fun peer => libp2p.parsePeer peer.peerId) some
    snapshot.knownPeers = some restored.peerStore)
  (hscores : Table.fill (fun reputation => libp2p.parsePeer reputation.peerId)
    (loadPeerScore instantLimit loadedAt) snapshot.peerReputation = some restored.peerScores)

include hscores in
theorem isPeerBanned_restored (peer : Peer) :
    isPeerBanned (Table.get restored.peerScores) peer now.instant = true ↔
      BannedBy libp2p loadedAt now snapshot peer := by
  have hget : ∀ state, Table.get restored.peerScores peer = some state ↔
      ∃ reputation, LastReputation libp2p snapshot peer reputation ∧
        loadPeerScore instantLimit loadedAt reputation = some state := by
    intro state
    rw [Table.get_eq_some (Table.nodup_fill hscores), Table.mem_fill hscores]
    rfl
  rw [isPeerBanned, banEnd]
  constructor
  · intro hrunning
    cases hstate : Table.get restored.peerScores peer with
    | none => simp [hstate, running] at hrunning
    | some state =>
      obtain ⟨reputation, hlast, hload⟩ := (hget state).mp hstate
      rw [hstate, Option.bind_some, bannedUntil_load hload] at hrunning
      cases hban : reputation.bannedUntilUnixSeconds with
      | none => simp [hban, running] at hrunning
      | some seconds =>
        rw [hban, Option.map_some, running_some] at hrunning
        exact ⟨reputation, seconds, hlast, hban, hrunning⟩
  · rintro ⟨reputation, seconds, hlast, hban, hrunning⟩
    have hloads : loadPeerScore instantLimit loadedAt reputation ≠ none := by
      obtain ⟨earlier, later, hlist, hkey, -⟩ := hlast
      have hall := Table.isSome_fill.mp (Option.isSome_iff_exists.mpr ⟨_, hscores⟩)
      exact hall reputation (by rw [hlist]; simp) (Option.ne_none_iff_exists'.mpr ⟨peer, hkey⟩)
    obtain ⟨state, hload⟩ := Option.ne_none_iff_exists'.mp hloads
    rw [(hget state).mpr ⟨reputation, hlast, hload⟩, Option.bind_some, bannedUntil_load hload,
      hban, Option.map_some, running_some]
    exact hrunning

include hscores in
theorem storable_restored (hinstant : loadedAt.instant < instantLimit)
    (hseconds : now.unixSeconds + wholeSeconds instantLimit < 2 ^ 64) : Storable restored now := by
  rintro ⟨peer, state⟩ hentry peerId
  obtain ⟨reputation, -, hload⟩ := (Table.mem_fill hscores).mp hentry
  exact persistPeerScore_ne_none hseconds (onClock_load hinstant hload)

include hpeers in
theorem mem_persistedBootstrapAddrs (hiterate : ∀ peers, (iterate peers).Perm peers)
    (addr : Multiaddr Peer) : addr ∈ persistedBootstrapAddrs libp2p iterate restored ↔
      ∃ peer entry, LastKnown libp2p snapshot peer entry ∧
        ∃ text ∈ entry.addresses, libp2p.parseAddr text = some addr := by
  have hmem : ∀ peer entry, (peer, entry) ∈ restored.peerStore ↔
      LastKnown libp2p snapshot peer entry := by
    intro peer entry
    rw [Table.mem_fill hpeers]
    simp [LastKnown]
  simp only [persistedBootstrapAddrs, List.mem_flatMap, (hiterate _).mem_iff, List.mem_map,
    List.mem_filterMap, Prod.exists, exists_eq_right, hmem]
  constructor
  · rintro ⟨entry, ⟨peer, hlast⟩, haddr⟩
    exact ⟨peer, entry, hlast, haddr⟩
  · rintro ⟨peer, entry, hlast, haddr⟩
    exact ⟨entry, ⟨peer, hlast⟩, haddr⟩

end Restoring

section Snapshot
variable {Peer : Type} [DecidableEq Peer] {libp2p : Libp2p Peer}
  {json : Codec PersistedBootstrapState} {iterate : List PersistedPeer → List PersistedPeer}
  {config : P2pNodeConfig Peer} {instantLimit : ℕ} {loadedAt now : Moment} {disk : SnapshotDisk}
  {path : String} {content : Bytes} {snapshot : PersistedBootstrapState}

/-- The node starts without a snapshot: its own addresses are acceptable, and it can
write a snapshot. -/
def ConfigStarts (libp2p : Libp2p Peer) (config : P2pNodeConfig Peer) (disk : SnapshotDisk) :
    Prop :=
  (∀ addr ∈ config.peers ++ config.bootstrapNodes, Acceptable libp2p (fun _ => False) addr) ∧
    disk.writeError = none

variable (libp2p json disk) in
/-- Without restored peers the start is that of the configuration. -/
theorem finishStart_fresh (hiterate : ∀ peers, (iterate peers).Perm peers)
    (hpath : config.persistencePath = some path) (node : TransportNode Peer)
    (hpeers : node.peerStore = []) (hscores : node.peerScores = []) :
    (∃ result, finishStart libp2p json iterate config node now disk = .ok result) ∧
        ConfigStarts libp2p config disk ∨
      (∃ err, finishStart libp2p json iterate config node now disk = .error (.returned err)) ∧
        ¬ ConfigStarts libp2p config disk := by
  have hstore : Storable node now := by simp [Storable, hscores]
  have hnone : persistedBootstrapAddrs libp2p iterate node = [] := by
    simp [persistedBootstrapAddrs, hpeers, (hiterate []).eq_nil]
  have hfree : (fun peer => isPeerBanned (Table.get node.peerScores) peer now.instant = true) =
      fun _ => False := by
    funext peer
    simp [hscores, Table.get, isPeerBanned, banEnd, running]
  have hcases := finishStart_cases libp2p json iterate disk hpath hstore
  rwa [hnone, List.append_nil, hfree] at hcases

variable (json) in
omit [DecidableEq Peer] in
theorem recoverCorrupted_keeps (node : TransportNode Peer) (now : Moment) (disk : SnapshotDisk) :
    (recoverCorrupted json node now disk).2.1.peerStore = node.peerStore ∧
      (recoverCorrupted json node now disk).2.1.peerScores = node.peerScores ∧
      (recoverCorrupted json node now disk).2.2.writeError = disk.writeError := by
  unfold recoverCorrupted quarantineCorruptedSnapshot writeBootstrapSnapshotAtomic
  cases disk.renameError with
  | some err => simp
  | none =>
    cases hwrite : disk.writeError with
    | some err => simp
    | none => simp

/-- A file that cannot be decoded does not matter for the start. -/
theorem startNode_undecodable (hiterate : ∀ peers, (iterate peers).Perm peers)
    (hpath : config.persistencePath = some path) (hcontent : disk.active = some content)
    (hdecode : json.fromSlice content = none) :
    (∃ result, startNode libp2p json iterate config instantLimit loadedAt now disk = .ok result) ∧
        ConfigStarts libp2p config disk ∨
      (∃ err, startNode libp2p json iterate config instantLimit loadedAt now disk =
        .error (.returned err)) ∧ ¬ ConfigStarts libp2p config disk := by
  obtain ⟨hpeers, hscores, hwrite⟩ := recoverCorrupted_keeps json ({} : TransportNode Peer)
    loadedAt disk
  have hsame : ConfigStarts libp2p config (recoverCorrupted json ({} : TransportNode Peer)
      loadedAt disk).2.2 ↔ ConfigStarts libp2p config disk := by
    rw [ConfigStarts, hwrite]
    rfl
  rw [← hsame, startNode, loadPersistedState, hpath, hcontent]
  simp only [hdecode]
  exact finishStart_fresh libp2p json _ hiterate hpath _ hpeers hscores

theorem startNode_missing (hiterate : ∀ peers, (iterate peers).Perm peers)
    (hpath : config.persistencePath = some path) :
    (∃ result, startNode libp2p json iterate config instantLimit loadedAt now
      { disk with active := none } = .ok result) ↔ ConfigStarts libp2p config disk := by
  rw [startNode, loadPersistedState, hpath]
  dsimp only
  rcases finishStart_fresh libp2p json { disk with active := none } hiterate hpath
      { snapshotRecoveryStatus := { loadState := .missing } } rfl rfl with
    ⟨hok, hstarts⟩ | ⟨⟨err, herr⟩, hstarts⟩
  · exact iff_of_true hok hstarts
  · refine iff_of_false ?_ hstarts
    rw [herr]
    simp

/-- The addresses of the peers of a snapshot are acceptable: each names a peer, and the
peer is banned or the address can be dialled. -/
def AddressesAcceptable (libp2p : Libp2p Peer) (loadedAt now : Moment)
    (snapshot : PersistedBootstrapState) : Prop :=
  ∀ peer entry, LastKnown libp2p snapshot peer entry → ∀ text ∈ entry.addresses,
    ∀ addr, libp2p.parseAddr text = some addr →
      Acceptable libp2p (BannedBy libp2p loadedAt now snapshot) addr

omit [DecidableEq Peer] in
theorem Acceptable.mono {banned banned' : Peer → Prop} {addr : Multiaddr Peer}
    (hbanned : ∀ peer, banned peer → banned' peer) (h : Acceptable libp2p banned addr) :
    Acceptable libp2p banned' addr := by
  obtain ⟨peer, base, hsplit, hpeer | hdial⟩ := h
  · exact ⟨peer, base, hsplit, .inl (hbanned peer hpeer)⟩
  · exact ⟨peer, base, hsplit, .inr hdial⟩

/-- For a node that starts without the snapshot, the addresses of the snapshot decide. -/
theorem addresses_iff (hiterate : ∀ peers, (iterate peers).Perm peers)
    {restored : TransportNode Peer}
    (hpeers : Table.fill (fun peer => libp2p.parsePeer peer.peerId) some snapshot.knownPeers =
      some restored.peerStore) (hstarts : ConfigStarts libp2p config disk) :
    ((∀ addr ∈ config.peers ++ config.bootstrapNodes ++
        persistedBootstrapAddrs libp2p iterate restored,
          Acceptable libp2p (BannedBy libp2p loadedAt now snapshot) addr) ∧
        disk.writeError = none) ↔ AddressesAcceptable libp2p loadedAt now snapshot := by
  rw [List.forall_mem_append]
  simp only [mem_persistedBootstrapAddrs hpeers hiterate]
  constructor
  · rintro ⟨⟨-, hall⟩, -⟩ peer entry hlast text htext addr haddr
    exact hall addr ⟨peer, entry, hlast, text, htext, haddr⟩
  · intro hall
    refine ⟨⟨fun addr haddr => (hstarts.1 addr haddr).mono (by simp), ?_⟩, hstarts.2⟩
    rintro addr ⟨peer, entry, hlast, text, htext, haddr⟩
    exact hall peer entry hlast text htext addr haddr

/-- A snapshot that can be decoded makes the start panic, or adds its addresses. -/
theorem startNode_decodable (hiterate : ∀ peers, (iterate peers).Perm peers)
    (hpath : config.persistencePath = some path) (hinstant : loadedAt.instant < instantLimit)
    (hseconds : now.unixSeconds + wholeSeconds instantLimit < 2 ^ 64)
    (hcontent : disk.active = some content) (hdecode : json.fromSlice content = some snapshot) :
    startNode libp2p json iterate config instantLimit loadedAt now disk = .error .panicked ∧
        ¬ TimesRepresentable libp2p instantLimit loadedAt snapshot ∨
      startNode libp2p json iterate config instantLimit loadedAt now disk ≠ .error .panicked ∧
        TimesRepresentable libp2p instantLimit loadedAt snapshot ∧
        (ConfigStarts libp2p config disk →
          ((∃ result, startNode libp2p json iterate config instantLimit loadedAt now disk =
            .ok result) ↔ AddressesAcceptable libp2p loadedAt now snapshot)) := by
  rw [startNode, loadPersistedState, hpath, hcontent]
  simp only [hdecode]
  rcases restoreSnapshot_cases libp2p instantLimit {} loadedAt snapshot with
    ⟨hrestore, htimes⟩ | ⟨restored, hrestore, htimes, hpeers, hscores⟩
  · rw [hrestore]
    exact .inl ⟨rfl, htimes⟩
  · rw [hrestore]
    dsimp only
    have hbanned : (fun peer => isPeerBanned (Table.get restored.peerScores) peer now.instant =
        true) = BannedBy libp2p loadedAt now snapshot :=
      funext fun peer => propext (isPeerBanned_restored hscores peer)
    have hcases := finishStart_cases libp2p json iterate disk hpath
      (storable_restored hscores hinstant hseconds)
    rw [hbanned] at hcases
    refine .inr ⟨?_, htimes, fun hstarts => ?_⟩
    · rcases hcases with ⟨⟨result, hok⟩, -⟩ | ⟨⟨err, herr⟩, -⟩
      · simp [hok]
      · simp [herr]
    · rw [← addresses_iff hiterate hpeers hstarts]
      rcases hcases with ⟨hok, hsucc⟩ | ⟨⟨err, herr⟩, hsucc⟩
      · exact iff_of_true hok hsucc
      · refine iff_of_false ?_ hsucc
        rw [herr]
        simp

/-- A snapshot file does not keep a node from starting exactly if it cannot be decoded, or
if its times are instants of the clock and, for a node that starts without it, its
addresses are acceptable. -/
theorem snapshot_harmless_iff (libp2p : Libp2p Peer) (json : Codec PersistedBootstrapState)
    (iterate : List PersistedPeer → List PersistedPeer)
    (hiterate : ∀ peers, (iterate peers).Perm peers) (config : P2pNodeConfig Peer) (path : String)
    (hpath : config.persistencePath = some path) (instantLimit : ℕ) (loadedAt now : Moment)
    (hinstant : loadedAt.instant < instantLimit)
    (hseconds : now.unixSeconds + wholeSeconds instantLimit < 2 ^ 64) (disk : SnapshotDisk)
    (content : Bytes) (hcontent : disk.active = some content) :
    (startNode libp2p json iterate config instantLimit loadedAt now disk ≠ .error .panicked ∧
      ((∃ result, startNode libp2p json iterate config instantLimit loadedAt now
          { disk with active := none } = .ok result) →
        ∃ result, startNode libp2p json iterate config instantLimit loadedAt now disk =
          .ok result) ∧
      (json.fromSlice content = none → disk.renameError = none → disk.writeError = none →
        let loaded := loadPersistedState libp2p json config instantLimit {} loadedAt disk
        loaded.2.2.quarantined = some content ∧
          loaded.2.2.active = some (encodeBootstrapSnapshot json .empty))) ↔
    ∀ snapshot, json.fromSlice content = some snapshot →
      TimesRepresentable libp2p instantLimit loadedAt snapshot ∧
        (ConfigStarts libp2p config disk →
          AddressesAcceptable libp2p loadedAt now snapshot) := by
  rw [startNode_missing hiterate hpath]
  cases hdecode : json.fromSlice content with
  | none =>
    refine iff_of_true ⟨?_, ?_, ?_⟩ (by simp)
    · rcases startNode_undecodable hiterate hpath hcontent hdecode with
        ⟨⟨result, hok⟩, -⟩ | ⟨⟨err, herr⟩, -⟩
      · rw [hok]
        simp
      · rw [herr]
        simp
    · intro hstarts
      rcases startNode_undecodable hiterate hpath hcontent hdecode with ⟨hok, -⟩ | ⟨-, hfails⟩
      · exact hok
      · exact absurd hstarts hfails
    · intro _ hrename hwrite
      simp [loadPersistedState, hpath, hcontent, hdecode, recoverCorrupted,
        quarantineCorruptedSnapshot, writeBootstrapSnapshotAtomic, hrename, hwrite]
  | some snapshot =>
    simp only [Option.some.injEq, forall_eq', reduceCtorEq, false_imp_iff, and_true]
    rcases startNode_decodable hiterate hpath hinstant hseconds hcontent hdecode with
      ⟨hpanic, htimes⟩ | ⟨hruns, htimes, hiff⟩
    · exact iff_of_false (fun h => h.1 hpanic) fun h => htimes h.1
    · constructor
      · exact fun h => ⟨htimes, fun hstarts => (hiff hstarts).mp (h.2 hstarts)⟩
      · exact fun h => ⟨hruns, fun hstarts => (hiff hstarts).mpr (h.2 hstarts)⟩

end Snapshot

section Sample

deriving instance Countable for PersistedPeerReputation, PersistedPeer, PersistedBootstrapState

/-- Some JSON of snapshots. -/
noncomputable def sampleJson : Codec PersistedBootstrapState := Codec.nonempty.some

/-- A library that knows one peer, an address that names it and one that does not, and
that dials every address. -/
def sampleLibp2p : Libp2p ℕ where
  parsePeer text := if text = "peer" then some 1 else none
  peerText _ := "peer"
  parseAddr text :=
    if text = "/ip4/10.0.0.1/p2p/peer" then some [.ip4 "10.0.0.1", .p2p 1]
    else if text = "/ip4/10.0.0.1" then some [.ip4 "10.0.0.1"]
    else none
  addrText addr := if addr.length = 2 then "/ip4/10.0.0.1/p2p/peer" else "/ip4/10.0.0.1"
  dial _ := .ok ()

def sampleConfig : P2pNodeConfig ℕ := { persistencePath := some "state/snapshot.json" }

/-- A thousand seconds after the epoch, five after the clock was started. -/
def sampleMoment : Moment := ⟨5 * second, 1000 * second⟩

/-- A snapshot of the peer with an address and the end of a ban. -/
def sampleSnapshot (address : String) (bannedUntil : ℕ) : PersistedBootstrapState where
  knownPeers := [⟨"peer", [address], 900, "ip4"⟩]
  bootstrapAddrs := []
  manifests := []
  indexKeys := []
  peerReputation := [⟨"peer", -80, 0, 2, 0, none, some bannedUntil⟩]

noncomputable def sampleDisk (snapshot : PersistedBootstrapState) : SnapshotDisk :=
  { active := some (sampleJson.toVec snapshot) }

noncomputable def sampleStart (disk : SnapshotDisk) :
    Except (Fault NodeError) (TransportNode ℕ × SnapshotDisk) :=
  startNode sampleLibp2p sampleJson id sampleConfig (2 ^ 63 * second) sampleMoment sampleMoment disk

theorem sampleStarts (disk : SnapshotDisk) (hdisk : disk.writeError = none) :
    ConfigStarts sampleLibp2p sampleConfig disk := ⟨by simp [sampleConfig], hdisk⟩

theorem last_sampleSnapshot {address : String} {bannedUntil peer : ℕ} {entry : PersistedPeer}
    (h : LastKnown sampleLibp2p (sampleSnapshot address bannedUntil) peer entry) :
    entry = ⟨"peer", [address], 900, "ip4"⟩ := by
  obtain ⟨earlier, later, hlist, -⟩ := h
  have hmem : entry ∈ (sampleSnapshot address bannedUntil).knownPeers := by simp [hlist]
  simpa [sampleSnapshot] using hmem

theorem sampleMoment_instant : sampleMoment.instant < 2 ^ 63 * second := by
  norm_num [sampleMoment, second]

theorem sampleMoment_seconds :
    sampleMoment.unixSeconds + wholeSeconds (2 ^ 63 * second) < 2 ^ 64 := by
  norm_num [sampleMoment, Moment.unixSeconds, wholeSeconds, second]

theorem sampleStart_cases (snapshot : PersistedBootstrapState) :
    sampleStart (sampleDisk snapshot) = .error .panicked ∧
        ¬ TimesRepresentable sampleLibp2p (2 ^ 63 * second) sampleMoment snapshot ∨
      sampleStart (sampleDisk snapshot) ≠ .error .panicked ∧
        TimesRepresentable sampleLibp2p (2 ^ 63 * second) sampleMoment snapshot ∧
        (ConfigStarts sampleLibp2p sampleConfig (sampleDisk snapshot) →
          ((∃ result, sampleStart (sampleDisk snapshot) = .ok result) ↔
            AddressesAcceptable sampleLibp2p sampleMoment sampleMoment snapshot)) :=
  startNode_decodable (fun _ => .refl _) rfl sampleMoment_instant sampleMoment_seconds rfl
    (sampleJson.fromSlice_toVec _)

theorem lastKnown_sample (address : String) (bannedUntil : ℕ) :
    LastKnown sampleLibp2p (sampleSnapshot address bannedUntil) 1
      ⟨"peer", [address], 900, "ip4"⟩ := ⟨[], [], rfl, rfl, by simp⟩

/-- A ban until the last second of a `u64` panics, and an address without a peer keeps
the node from starting, although the node starts without the snapshot. -/
theorem poisoned_snapshots_stop_start :
    sampleStart (sampleDisk (sampleSnapshot "/ip4/10.0.0.1/p2p/peer" (2 ^ 64 - 1))) =
        .error .panicked ∧
      (∃ result, sampleStart { active := none } = .ok result) ∧
      ¬ ∃ result, sampleStart (sampleDisk (sampleSnapshot "/ip4/10.0.0.1" 0)) = .ok result := by
  refine ⟨?_, ?_, ?_⟩
  · rcases sampleStart_cases (sampleSnapshot "/ip4/10.0.0.1/p2p/peer" (2 ^ 64 - 1)) with
      ⟨hpanic, -⟩ | ⟨-, htimes, -⟩
    · exact hpanic
    · have hlate := htimes _ (List.mem_singleton_self _) (by simp [sampleLibp2p]) _ (.inr rfl)
      norm_num [Representable, sampleMoment, Moment.unixSeconds, wholeSeconds, second] at hlate
  · exact (startNode_missing (fun _ => .refl _) rfl).mpr (sampleStarts { active := none } rfl)
  · rcases sampleStart_cases (sampleSnapshot "/ip4/10.0.0.1" 0) with
      ⟨hpanic, -⟩ | ⟨-, -, hiff⟩
    · rintro ⟨result, hok⟩
      exact absurd (hpanic.symm.trans hok) (by simp)
    · refine (hiff (sampleStarts _ rfl)).not.mpr fun hall => ?_
      obtain ⟨peer, base, hsplit, -⟩ := hall 1 _ (lastKnown_sample _ _) _
        (List.mem_singleton_self _) [.ip4 "10.0.0.1"] (by simp [sampleLibp2p])
      simp [splitPeerAddr, Except.map] at hsplit

/-- A snapshot with a ban for some seconds and an address that names its peer. -/
theorem sampleSnapshot_starts :
    sampleStart (sampleDisk (sampleSnapshot "/ip4/10.0.0.1/p2p/peer" 1030)) ≠ .error .panicked ∧
      ((∃ result, sampleStart { active := none } = .ok result) →
        ∃ result, sampleStart (sampleDisk (sampleSnapshot "/ip4/10.0.0.1/p2p/peer" 1030)) =
          .ok result) := by
  have hstart := (snapshot_harmless_iff sampleLibp2p sampleJson id (fun _ => .refl _) sampleConfig
    "state/snapshot.json" rfl (2 ^ 63 * second) sampleMoment sampleMoment sampleMoment_instant
    sampleMoment_seconds (sampleDisk (sampleSnapshot "/ip4/10.0.0.1/p2p/peer" 1030)) _ rfl).mpr ?_
  · exact ⟨hstart.1, hstart.2.1⟩
  · intro snapshot hsnapshot
    rw [sampleJson.fromSlice_toVec] at hsnapshot
    obtain rfl := Option.some.inj hsnapshot
    constructor
    · intro reputation hreputation _ seconds hseconds
      obtain rfl := List.mem_singleton.mp hreputation
      obtain rfl : 1030 = seconds := by simpa using hseconds
      norm_num [Representable, sampleMoment, Moment.unixSeconds, wholeSeconds, second]
    · intro _ peer entry hlast text htext addr haddr
      obtain rfl := last_sampleSnapshot hlast
      obtain rfl := List.mem_singleton.mp htext
      obtain rfl : [Protocol.ip4 "10.0.0.1", .p2p 1] = addr := by simpa [sampleLibp2p] using haddr
      exact ⟨1, [.ip4 "10.0.0.1"], rfl, .inr rfl⟩

end Sample

end Spex.P2p
