import Spex.ClientState

/-!
# Staging for local delivery

The client files what it has for the other members of a thread in caches of its
own state, under an address that it derives from the bytes of the member's id.
A member is told from the sender by the text of the id, and its address comes from
the bytes, so a member that is listed in two spellings is served twice.
-/
namespace Spex
open Fallible

section Caches

def deriveInboxScanKey (sha256 : Bytes → Bytes) (hashId : HashId) (inboxScanKey : Bytes) : Bytes :=
  hashBytes sha256 hashId inboxScanKey

/-- The key of an inbox in the caches. -/
def inboxAddress (sha256 : Bytes → Bytes) (inboxScanKey : Bytes) : String :=
  Hex.encode (deriveInboxScanKey sha256 .sha256 inboxScanKey)

/-- `entry(key).or_default().push(item)`. -/
def pushAt (cache : StringMap (List String)) (key item : String) : StringMap (List String) :=
  Function.update cache key (some ((cache key).getD [] ++ [item]))

/-- `entry(key).or_insert(value)`. -/
def insertMissing (store : StringMap String) (key value : String) : StringMap String :=
  Function.update store key (some ((store key).getD value))

variable (sha256 : Bytes → Bytes)

/-- The loop over the members, which stops at an id that is not hexadecimal and
leaves what it has filed so far. -/
def stageForMembers (senderUserIdHex item : String) :
    List String → StringMap (List String) → ClientResult Unit × StringMap (List String)
  | [], cache => (.ok (), cache)
  | member :: members, cache =>
    if member = senderUserIdHex then stageForMembers senderUserIdHex item members cache
    else
      match hexDecode member with
      | .error fault => (.error fault, cache)
      | .ok memberBytes => stageForMembers senderUserIdHex item members
        (pushAt cache (inboxAddress sha256 memberBytes) item)

/-- The envelope is cached for every other member. -/
def stageP2pInboxDelivery (state : LocalState) (threadState : ThreadState)
    (senderUserIdHex : String) (envelope : Envelope) : ClientResult Unit × LocalState :=
  match toCtap2CanonicalBytes envelope with
  | .error err => (.error (coreFault err), state)
  | .ok payload =>
    let (result, p2pInbox) := stageForMembers sha256 senderUserIdHex (Base64.encode payload)
      threadState.members state.p2pInbox
    (result, { state with p2pInbox })

def stageTransportDeliveryForMembers (manifestJson : Codec ChunkManifest) (state : LocalState)
    (members : List String) (senderUserIdHex : String) (manifest : ChunkManifest)
    (chunks : List Chunk) : ClientResult Unit × LocalState :=
  let item := Base64.encode (manifestJson.toVec manifest)
  match stageForMembers sha256 senderUserIdHex item members state.transportGossip with
  | (.error fault, transportGossip) => (.error fault, { state with transportGossip })
  | (.ok (), transportGossip) =>
    let transportChunkStore := chunks.foldl (fun store chunk =>
      insertMissing store (Hex.encode chunk.hash) (Base64.encode chunk.data))
      state.transportChunkStore
    (.ok (), { state with transportGossip, transportChunkStore })

/-- The manifest is staged for the members of the thread. -/
def stageTransportDelivery (manifestJson : Codec ChunkManifest) (state : LocalState)
    (threadState : ThreadState) (senderUserIdHex : String) (manifest : ChunkManifest)
    (chunks : List Chunk) : ClientResult Unit × LocalState :=
  stageTransportDeliveryForMembers sha256 manifestJson state threadState.members senderUserIdHex
    manifest chunks

def transportInboxHasItems (state : LocalState) (inboxScanKey : Bytes) : Bool :=
  match state.transportGossip (inboxAddress sha256 inboxScanKey) with
  | some items => !items.isEmpty
  | none => false

end Caches

section Served
variable {sha256 : Bytes → Bytes} {sender item address member : String} {members : List String}
  {cache cache' : StringMap (List String)}

/-- A member other than the sender, by its text, that is filed at an address. -/
def ServedAt (sha256 : Bytes → Bytes) (sender address member : String) : Prop :=
  member ≠ sender ∧ (Hex.decode member).map (inboxAddress sha256) = some address

instance (member : String) : Decidable (ServedAt sha256 sender address member) :=
  inferInstanceAs (Decidable (_ ∧ _))

/-- How often an address is served. -/
def timesServed (sha256 : Bytes → Bytes) (sender address : String) (members : List String) : ℕ :=
  members.countP fun member => ServedAt sha256 sender address member

theorem timesServed_cons_of_served (h : ServedAt sha256 sender address member) :
    timesServed sha256 sender address (member :: members) =
      timesServed sha256 sender address members + 1 :=
  List.countP_cons_of_pos (by simpa using h)

theorem timesServed_cons_of_not (h : ¬ ServedAt sha256 sender address member) :
    timesServed sha256 sender address (member :: members) =
      timesServed sha256 sender address members :=
  List.countP_cons_of_neg (by simpa using h)

theorem getD_pushAt (cache : StringMap (List String)) (key item address : String) :
    (pushAt cache key item address).getD [] =
      (cache address).getD [] ++ if address = key then [item] else [] := by
  unfold pushAt
  by_cases hkey : address = key
  · rw [hkey, Function.update_self, if_pos rfl, Option.getD_some]
  · rw [Function.update_of_ne hkey, if_neg hkey, List.append_nil]

/-- After the loop every address has one more item for each member filed there. -/
theorem stageForMembers_ok
    (h : stageForMembers sha256 sender item members cache = (.ok (), cache')) (address : String) :
    (cache' address).getD [] = (cache address).getD [] ++
      List.replicate (timesServed sha256 sender address members) item := by
  induction members generalizing cache with
  | nil =>
    obtain rfl : cache = cache' := congrArg Prod.snd h
    exact (List.append_nil _).symm
  | cons member members ih =>
    rw [stageForMembers] at h
    split_ifs at h with hsender
    · have hskip : ¬ ServedAt sha256 sender address member := fun hserved => hserved.1 hsender
      rw [ih h, timesServed_cons_of_not hskip]
    · cases hdecode : hexDecode member with
      | error fault =>
        rw [hdecode] at h
        cases h
      | ok memberBytes =>
        rw [hdecode] at h
        have hserved : ServedAt sha256 sender address member ↔
            address = inboxAddress sha256 memberBytes := by
          rw [ServedAt, hexDecode_eq_ok.mp hdecode, Option.map_some, Option.some.injEq]
          exact ⟨fun h => h.2.symm, fun h => ⟨hsender, h.symm⟩⟩
        rw [ih h, getD_pushAt, List.append_assoc]
        split_ifs with haddress
        · rw [timesServed_cons_of_served (hserved.mpr haddress), List.replicate_succ,
            List.singleton_append]
        · rw [timesServed_cons_of_not (haddress ∘ hserved.mp), List.nil_append]

variable (sha256) in
theorem stageForMembers_of_decodes {sender : String}
    (h : ∀ member ∈ members, member ≠ sender → ∃ bytes, Hex.decode member = some bytes)
    (item : String) (cache : StringMap (List String)) :
    ∃ cache', stageForMembers sha256 sender item members cache = (.ok (), cache') := by
  induction members generalizing cache with
  | nil => exact ⟨cache, rfl⟩
  | cons member members ih =>
    obtain ⟨hfirst, hrest⟩ := List.forall_mem_cons.mp h
    rw [stageForMembers]
    split_ifs with hsender
    · exact ih hrest cache
    · obtain ⟨bytes, hdecode⟩ := hfirst hsender
      rw [hexDecode_eq_ok.mpr hdecode]
      exact ih hrest _

/-- A member who is served finds the item. -/
theorem mem_of_served (h : stageForMembers sha256 sender item members cache = (.ok (), cache'))
    (hmember : member ∈ members) (hserved : ServedAt sha256 sender address member) :
    ∃ items, cache' address = some items ∧ item ∈ items := by
  have htimes : 0 < timesServed sha256 sender address members :=
    List.countP_pos_iff.mpr ⟨member, hmember, by simpa using hserved⟩
  have hitem : item ∈ (cache' address).getD [] := by
    rw [stageForMembers_ok h, List.mem_append, List.mem_replicate]
    exact .inr ⟨htimes.ne', rfl⟩
  cases hentry : cache' address with
  | none => simp [hentry] at hitem
  | some items => exact ⟨items, rfl, by simpa [hentry] using hitem⟩

theorem transportInboxHasItems_of_mem {state : LocalState} {inboxScanKey : Bytes}
    {items : List String}
    (hentry : state.transportGossip (inboxAddress sha256 inboxScanKey) = some items)
    (hitem : item ∈ items) : transportInboxHasItems sha256 state inboxScanKey = true := by
  rw [transportInboxHasItems, hentry]
  simpa using List.ne_nil_of_mem hitem

end Served

section ChunkStore
variable {sha256 : Bytes → Bytes} {store : StringMap String}

/-- Every entry is data under the address of its hash. -/
def StoresByHash (sha256 : Bytes → Bytes) (store : StringMap String) : Prop :=
  ∀ key text, store key = some text →
    ∃ data, Base64.decode text = some data ∧ Hex.encode (sha256 data) = key

theorem StoresByHash.insertMissing (h : StoresByHash sha256 store) (data : Bytes) :
    StoresByHash sha256
      (insertMissing store (Hex.encode (sha256 data)) (Base64.encode data)) := by
  intro key text hentry
  unfold Spex.insertMissing at hentry
  by_cases hkey : key = Hex.encode (sha256 data)
  · subst hkey
    rw [Function.update_self, Option.some.injEq] at hentry
    cases hold : store (Hex.encode (sha256 data)) with
    | some old =>
      rw [hold, Option.getD_some] at hentry
      exact h _ _ (hentry ▸ hold)
    | none =>
      rw [hold, Option.getD_none] at hentry
      exact ⟨data, hentry ▸ Base64.decode_encode data, rfl⟩
  · rw [Function.update_of_ne hkey] at hentry
    exact h key text hentry

/-- Without collisions an entry under the hash of some data holds that data. -/
theorem StoresByHash.data (h : StoresByHash sha256 store) (hinj : Function.Injective sha256)
    {data : Bytes} {text : String} (hentry : store (Hex.encode (sha256 data)) = some text) :
    Base64.decode text = some data := by
  obtain ⟨data', hdecode, hkey⟩ := h _ _ hentry
  rw [hdecode, hinj (Hex.encode_injective hkey)]

theorem isSome_insertMissing (key value : String) {other : String}
    (h : (store other).isSome ∨ other = key) : (insertMissing store key value other).isSome := by
  unfold insertMissing
  by_cases hkey : other = key
  · rw [hkey, Function.update_self]
    rfl
  · rw [Function.update_of_ne hkey]
    exact h.resolve_right hkey

variable {chunks : List Chunk} {store' : StringMap String} (h : StoresByHash sha256 store)
  (hchunks : ∀ chunk ∈ chunks, chunk.hash = sha256 chunk.data)
  (hstore : chunks.foldl (fun store chunk =>
    insertMissing store (Hex.encode chunk.hash) (Base64.encode chunk.data)) store = store')
include h hchunks hstore

/-- The chunks that are staged are in the store, with the data of their hashes. -/
theorem stored_chunks :
    StoresByHash sha256 store' ∧ (∀ key, (store key).isSome → (store' key).isSome) ∧
      ∀ chunk ∈ chunks, (store' (Hex.encode chunk.hash)).isSome := by
  induction chunks generalizing store with
  | nil =>
    obtain rfl : store = store' := hstore
    exact ⟨h, fun _ => id, by simp⟩
  | cons chunk chunks ih =>
    obtain ⟨hhash, hrest⟩ := List.forall_mem_cons.mp hchunks
    have hnext : StoresByHash sha256
        (insertMissing store (Hex.encode chunk.hash) (Base64.encode chunk.data)) := by
      rw [hhash]
      exact h.insertMissing chunk.data
    obtain ⟨hstored, hkept, hheld⟩ := ih hnext hrest hstore
    refine ⟨hstored, fun key hkey => hkept key (isSome_insertMissing _ _ (.inl hkey)), ?_⟩
    rw [List.forall_mem_cons]
    exact ⟨hkept _ (isSome_insertMissing _ _ (.inr rfl)), hheld⟩

/-- Without collisions the chunks that are staged are found again with their data. -/
theorem data_of_stored_chunks (hinj : Function.Injective sha256) :
    ∀ chunk ∈ chunks, ∃ text, store' (Hex.encode chunk.hash) = some text ∧
      Base64.decode text = some chunk.data := by
  obtain ⟨hbyHash, -, hheld⟩ := stored_chunks h hchunks hstore
  intro chunk hchunk
  obtain ⟨text, htext⟩ := Option.isSome_iff_exists.mp (hheld chunk hchunk)
  exact ⟨text, htext, hbyHash.data hinj (hchunks chunk hchunk ▸ htext)⟩

end ChunkStore
end Spex
