import Spex.InboxBatches
import Spex.Transcript

/-!
# Recording received messages

What has been received is appended to the messages of its thread, by two loops that
stop at the first message they cannot take and keep what they have appended until
then. Neither loop asks whether an envelope has been there before.
-/
namespace Spex
open Fallible Batch Transcript

structure MessageState where
  senderUserId : String
  text : String
  sentAt : UInt64
  deriving DecidableEq, Repr

structure InboxMessageReceipt where
  threadIdHex : String
  senderUserIdHex : String
  text : String
  deriving DecidableEq, Repr

/-- The client with the messages of its threads, under the ids of the threads. -/
structure MailState where
  client : LocalState
  messages : String → List MessageState := fun _ => []

section Recording

/-- `String::from_utf8`. -/
def messageText (plaintext : Bytes) : ClientResult String :=
  (String.fromUTF8? ⟨plaintext.toArray⟩).elim (.error (.returned .invalidMessageEncoding)) .ok

def readItem (item : DecryptedInboxItem) : ClientResult InboxMessageReceipt := do
  let text ← messageText item.plaintext
  return ⟨item.threadIdHex, item.senderUserIdHex, text⟩

/-- The text is kept in its thread. -/
def pushMessage (state : MailState) (sentAt : UInt64) (receipt : InboxMessageReceipt) :
    ClientResult MailState :=
  match state.client.threads receipt.threadIdHex with
  | none => .error (.returned .threadNotFound)
  | some _ =>
    let messages := state.messages receipt.threadIdHex ++
      [⟨receipt.senderUserIdHex, receipt.text, sentAt⟩]
    .ok { state with messages := Function.update state.messages receipt.threadIdHex messages }

/-- The loop that both ways of recording share, with the time of every message. -/
def recordEach {α : Type} (read : LocalState → α → ClientResult InboxMessageReceipt)
    (clock : ℕ → UInt64) : List InboxMessageReceipt → List α → MailState →
      ClientResult (List InboxMessageReceipt) × MailState
  | receipts, [], state => (.ok receipts, state)
  | receipts, item :: items, state =>
    match read state.client item with
    | .error fault => (.error fault, state)
    | .ok receipt =>
      match pushMessage state (clock receipts.length) receipt with
      | .error fault => (.error fault, state)
      | .ok state => recordEach read clock (receipts ++ [receipt]) items state

variable (crypto : MessageCrypto) (library : Ciborium) (manifestJson : Codec ChunkManifest)
  (sortUnstable : List Chunk → List Chunk)

/-- The part of a turn of `ingest_inbox_payloads` before the message is appended. -/
def readPayload (client : LocalState) (payload : Bytes) : ClientResult InboxMessageReceipt := do
  let item ← receivePayload crypto library client payload
  readItem item

def ingestInboxPayloads (clock : ℕ → UInt64) (state : MailState) (payloads : List Bytes) :
    ClientResult (List InboxMessageReceipt) × MailState :=
  recordEach (readPayload crypto library) clock [] payloads state

def recordInboxMessages (clock : ℕ → UInt64) (state : MailState)
    (items : List DecryptedInboxItem) : ClientResult (List InboxMessageReceipt) × MailState :=
  recordEach (fun _ item => readItem item) clock [] items state

/-- Recording what has been received, if it has been. -/
def recordReceived (clock : ℕ → UInt64) (state : MailState) :
    Option (ClientResult InboxDecryptionResponse) →
      Option (ClientResult (List InboxMessageReceipt)) × MailState
  | none => (none, state)
  | some (.error fault) => (some (.error fault), state)
  | some (.ok response) =>
    let recorded := recordInboxMessages clock state response.items
    (some recorded.1, recorded.2)

/-- The calls that take in messages. Between them anyone may stage what they like. -/
inductive MailCall where
  | deliver (p2pInbox transportGossip : StringMap (List String))
      (transportChunkStore : StringMap String)
  | ingest (payloads : List Bytes) (clock : ℕ → UInt64)
  | receiveInbox (inboxScanKey : Bytes) (bridge : Option Bridge.View) (clock : ℕ → UInt64)
  | receiveTransport (inboxScanKey : Bytes) (clock : ℕ → UInt64)

/-- What a call answers and what it leaves. -/
def takeIn (state : MailState) :
    MailCall → Option (ClientResult (List InboxMessageReceipt)) × MailState
  | .deliver p2pInbox transportGossip transportChunkStore =>
    (some (.ok []), { state with
      client := { state.client with p2pInbox, transportGossip, transportChunkStore } })
  | .ingest payloads clock =>
    let ingested := ingestInboxPayloads crypto library clock state payloads
    (some ingested.1, ingested.2)
  | .receiveInbox inboxScanKey bridge clock =>
    let received := receiveInboxMessages crypto library state.client inboxScanKey bridge
    recordReceived clock { state with client := received.2 } received.1
  | .receiveTransport inboxScanKey clock =>
    let received := receiveTransportMessages crypto library manifestJson sortUnstable state.client
      inboxScanKey
    recordReceived clock { state with client := received.2 } (some received.1)

/-- Recording leaves all but the messages alone. -/
theorem recordEach_client {α : Type} (read : LocalState → α → ClientResult InboxMessageReceipt)
    (clock : ℕ → UInt64) (receipts : List InboxMessageReceipt) (items : List α)
    (state : MailState) : (recordEach read clock receipts items state).2.client = state.client := by
  induction items generalizing receipts state with
  | nil => rfl
  | cons item items ih =>
    rw [recordEach]
    split
    · rfl
    · split
      · rfl
      · rename_i pushed hpush
        rw [ih]
        unfold pushMessage at hpush
        split at hpush
        · cases hpush
        · rw [← Except.ok.inj hpush]

end Recording

section Arrivals
variable (crypto : MessageCrypto) (library : Ciborium) (manifestJson : Codec ChunkManifest)
  (sortUnstable : List Chunk → List Chunk)

/-- An arriving envelope with what it decrypts to. -/
def openArrival (client : LocalState) (arrival : ClientResult Envelope) :
    ClientResult (Envelope × DecryptedInboxItem) := do
  let envelope ← arrival
  let item ← openEnvelope crypto client envelope
  return (envelope, item)

def readOpened (opened : Envelope × DecryptedInboxItem) :
    ClientResult (Envelope × InboxMessageReceipt) :=
  (readItem opened.2).map (opened.1, ·)

/-- An arriving envelope with the receipt it is due. -/
def acceptArrival (client : LocalState) (arrival : ClientResult Envelope) :
    ClientResult (Envelope × InboxMessageReceipt) :=
  openArrival crypto client arrival >>= readOpened

/-- The envelopes that a call gets to see, in order. -/
def arrivals (client : LocalState) : MailCall → List (ClientResult Envelope)
  | .deliver .. => []
  | .ingest payloads _ => payloads.map (parseEnvelopePayload library)
  | .receiveInbox inboxScanKey bridge _ =>
    match (resolveInboxFromState crypto.sha256 client inboxScanKey bridge).1 with
    | some (.ok response) => response.items.map (parseEnvelopePayload library)
    | _ => []
  | .receiveTransport inboxScanKey _ => (stagedManifests crypto client inboxScanKey).map
      (recoverEnvelope crypto library manifestJson sortUnstable client)

/-- The envelopes of a call that open to a text, with the receipts they are due. -/
def delivered (client : LocalState) (call : MailCall) : List (Envelope × InboxMessageReceipt) :=
  results (acceptArrival crypto client)
    (arrivals crypto library manifestJson sortUnstable client call)

/-- What is recorded of a batch that has been received, or given up. -/
def taken : ClientResult (List (Envelope × DecryptedInboxItem)) →
    List (Envelope × InboxMessageReceipt)
  | .ok opened => untilFailure readOpened opened
  | .error _ => []

/-- The envelopes of a call that reach the messages of their threads. -/
def recorded (client : LocalState) (call : MailCall) : List (Envelope × InboxMessageReceipt) :=
  let arrivals := arrivals crypto library manifestJson sortUnstable client call
  match call with
  | .ingest .. => untilFailure (acceptArrival crypto client) arrivals
  | _ => taken (arrivals.mapM (openArrival crypto client))

end Arrivals

section Ledger
variable {crypto : MessageCrypto} {library : Ciborium} {manifestJson : Codec ChunkManifest}
  {sortUnstable : List Chunk → List Chunk} {state : MailState} {client : LocalState}
  {receipt : InboxMessageReceipt} {α : Type}

theorem openArrival_map_snd (arrival : ClientResult Envelope) :
    (openArrival crypto client arrival).map Prod.snd = arrival >>= openEnvelope crypto client := by
  cases arrival with
  | error fault => rfl
  | ok envelope =>
    rw [openArrival, ok_bind, ok_bind]
    cases openEnvelope crypto client envelope <;> rfl

theorem receivePayload_eq (payload : Bytes) : receivePayload crypto library client payload =
    (openArrival crypto client (parseEnvelopePayload library payload)).map Prod.snd :=
  (openArrival_map_snd _).symm

theorem receiveManifest_eq (payloadBase64 : String) :
    receiveManifest crypto library manifestJson sortUnstable client payloadBase64 =
      (openArrival crypto client (recoverEnvelope crypto library manifestJson sortUnstable client
        payloadBase64)).map Prod.snd :=
  (openArrival_map_snd _).symm

/-- The thread of an envelope that opens is known. -/
theorem thread_of_openArrival {arrival : ClientResult Envelope}
    {opened : Envelope × DecryptedInboxItem} (h : openArrival crypto client arrival = .ok opened) :
    (client.threads opened.2.threadIdHex).isSome = true := by
  obtain ⟨envelope, -, h⟩ := bind_eq_ok.mp h
  obtain ⟨item, hitem, h⟩ := bind_eq_ok.mp h
  obtain rfl := pure_eq_ok.mp h
  obtain ⟨threadState, hthread, hitem⟩ := bind_eq_ok.mp hitem
  obtain ⟨plaintext, -, hitem⟩ := bind_eq_ok.mp hitem
  obtain rfl := pure_eq_ok.mp hitem
  cases hcase : client.threads (Hex.encode envelope.threadId) with
  | none =>
    rw [hcase] at hthread
    cases hthread
  | some known => rfl

theorem thread_of_readItem {item : DecryptedInboxItem} (h : readItem item = .ok receipt) :
    receipt.threadIdHex = item.threadIdHex := by
  obtain ⟨text, -, h⟩ := bind_eq_ok.mp h
  obtain rfl := pure_eq_ok.mp h
  rfl

/-- A message and a receipt without the time. -/
def MessageState.heading (self : MessageState) : String × String := (self.senderUserId, self.text)

def InboxMessageReceipt.heading (self : InboxMessageReceipt) : String × String :=
  (self.senderUserIdHex, self.text)

/-- The messages of every thread have grown by those of the receipts. -/
def Grown (before after : MailState) (receipts : List InboxMessageReceipt) : Prop :=
  ∀ thread, (after.messages thread).map MessageState.heading =
    (before.messages thread).map MessageState.heading ++
      (receipts.filter (·.threadIdHex = thread)).map InboxMessageReceipt.heading

theorem Grown.refl {after : MailState} (h : after.messages = state.messages) :
    Grown state after [] := by
  intro thread
  simp [h]

theorem Grown.trans {middle after : MailState} {receipts receipts' : List InboxMessageReceipt}
    (h : Grown state middle receipts) (h' : Grown middle after receipts') :
    Grown state after (receipts ++ receipts') := by
  intro thread
  rw [h' thread, h thread, List.filter_append, List.map_append, List.append_assoc]

theorem pushMessage_of_thread (sentAt : UInt64)
    (h : (state.client.threads receipt.threadIdHex).isSome = true) :
    ∃ after, pushMessage state sentAt receipt = .ok after ∧ after.client = state.client ∧
      Grown state after [receipt] := by
  obtain ⟨threadState, hthread⟩ := Option.isSome_iff_exists.mp h
  unfold pushMessage
  rw [hthread]
  refine ⟨_, rfl, rfl, fun thread => ?_⟩
  by_cases heq : receipt.threadIdHex = thread
  · subst heq
    simp [MessageState.heading, InboxMessageReceipt.heading]
  · simp [Function.update_of_ne (Ne.symm heq), heq]

/-- The loop appends the messages before the first failure. -/
theorem recordEach_spec (read : LocalState → α → ClientResult InboxMessageReceipt)
    (clock : ℕ → UInt64) (receipts : List InboxMessageReceipt) (items : List α) (state : MailState)
    (hthreads : ∀ item ∈ items, ∀ receipt, read state.client item = .ok receipt →
      (state.client.threads receipt.threadIdHex).isSome = true) :
    Grown state (recordEach read clock receipts items state).2
        (untilFailure (read state.client) items) ∧
      ((recordEach read clock receipts items state).1.isOk = true ↔
        ∀ item ∈ items, (read state.client item).isOk = true) := by
  induction items generalizing receipts state with
  | nil => exact ⟨.refl rfl, by simp [recordEach, Except.isOk, Except.toBool]⟩
  | cons item items ih =>
    rw [List.forall_mem_cons] at hthreads
    cases hread : read state.client item with
    | error fault =>
      rw [recordEach, hread, untilFailure_cons_of_error hread]
      refine ⟨.refl rfl, ?_⟩
      simp [hread, Except.isOk, Except.toBool]
    | ok receipt =>
      obtain ⟨after, hpush, hclient, hgrown⟩ :=
        pushMessage_of_thread (clock receipts.length) (hthreads.1 receipt hread)
      rw [← hclient] at hthreads
      obtain ⟨hrest, hok⟩ := ih (receipts ++ [receipt]) after hthreads.2
      rw [hclient] at hrest hok
      rw [recordEach, hread]
      dsimp only
      rw [hpush, untilFailure_cons_of_ok hread]
      refine ⟨hgrown.trans hrest, ?_⟩
      rw [List.forall_mem_cons, hread]
      simpa [Except.isOk, Except.toBool] using hok

theorem read_opened (opened : ClientResult (Envelope × DecryptedInboxItem)) :
    opened.map Prod.snd >>= readItem = (opened >>= readOpened).map Prod.snd := by
  cases opened with
  | error fault => rfl
  | ok opened =>
    change readItem opened.2 = ((readItem opened.2).map (opened.1, ·)).map Prod.snd
    cases readItem opened.2 <;> rfl

theorem isOk_map {β ε : Type} (f : α → β) (x : Except ε α) : (x.map f).isOk = x.isOk := by
  cases x <;> rfl

theorem readPayload_eq (payload : Bytes) : readPayload crypto library client payload =
    (acceptArrival crypto client (parseEnvelopePayload library payload)).map Prod.snd := by
  rw [readPayload, receivePayload_eq, read_opened, acceptArrival]

/-- Ingesting appends the messages before the first payload that is refused. -/
theorem ingest_spec (crypto : MessageCrypto) (library : Ciborium) (clock : ℕ → UInt64)
    (state : MailState) (payloads : List Bytes) :
    Grown state (ingestInboxPayloads crypto library clock state payloads).2
        (untilFailure (readPayload crypto library state.client) payloads) ∧
      ((ingestInboxPayloads crypto library clock state payloads).1.isOk = true ↔
        ∀ payload ∈ payloads, (readPayload crypto library state.client payload).isOk = true) := by
  refine recordEach_spec _ clock [] payloads state ?_
  intro payload _ receipt hreceipt
  obtain ⟨item, hitem, hreceipt⟩ := bind_eq_ok.mp hreceipt
  rw [receivePayload_eq, map_eq_ok] at hitem
  obtain ⟨opened, hopened, rfl⟩ := hitem
  rw [thread_of_readItem hreceipt]
  exact thread_of_openArrival hopened

theorem recordReceived_spec (clock : ℕ → UInt64) (state : MailState) (source : InboxSource)
    {result : ClientResult (List (Envelope × DecryptedInboxItem))}
    (hthreads : ∀ opened, result = .ok opened → ∀ pair ∈ opened,
      (state.client.threads pair.2.threadIdHex).isSome = true) :
    let outcome := recordReceived clock state
      (some (result.map fun opened => ⟨opened.map Prod.snd, source⟩))
    Grown state outcome.2 ((taken result).map Prod.snd) ∧
      ∀ receipts, outcome.1 = some (.ok receipts) → ∃ opened, result = .ok opened ∧
        taken result = results readOpened opened := by
  cases result with
  | error fault =>
    refine ⟨.refl rfl, fun receipts h => ?_⟩
    simp [recordReceived, Except.map] at h
  | ok opened =>
    have hitems : ∀ item ∈ opened.map Prod.snd, ∀ receipt, readItem item = .ok receipt →
        (state.client.threads receipt.threadIdHex).isSome = true := by
      intro item hitem receipt hreceipt
      obtain ⟨pair, hpair, rfl⟩ := List.mem_map.mp hitem
      rw [thread_of_readItem hreceipt]
      exact hthreads opened rfl pair hpair
    obtain ⟨hgrown, hok⟩ := recordEach_spec (fun _ item => readItem item) clock []
      (opened.map Prod.snd) state hitems
    have hread : ∀ pair : Envelope × DecryptedInboxItem,
        readItem pair.2 = (readOpened pair).map Prod.snd := fun pair => read_opened (.ok pair)
    rw [untilFailure_comp] at hgrown
    simp only [hread, untilFailure_map] at hgrown
    refine ⟨hgrown, fun receipts h => ⟨opened, rfl, untilFailure_of_forall fun pair hpair => ?_⟩⟩
    have hrecorded := hok.mp (isOk_iff.mpr ⟨receipts, Option.some.inj h⟩) pair.2
      (List.mem_map_of_mem hpair)
    rwa [hread, isOk_map] at hrecorded

/-- A call records some of the envelopes that are delivered to it, and all of them if
it succeeds. -/
structure Accounts (state : MailState)
    (outcome : Option (ClientResult (List InboxMessageReceipt)) × MailState)
    (recorded delivered : List (Envelope × InboxMessageReceipt)) : Prop where
  grown : Grown state outcome.2 (recorded.map Prod.snd)
  complete : ∀ receipts, outcome.1 = some (.ok receipts) → recorded = delivered

/-- The arrivals of a call that receives are all opened before the first is recorded. -/
theorem recordReceived_accounts (crypto : MessageCrypto) (clock : ℕ → UInt64) (state : MailState)
    (received : LocalState) (hthreads : received.threads = state.client.threads)
    (source : InboxSource) (batch : List (ClientResult Envelope)) :
    Accounts state
      (recordReceived clock { state with client := received }
        (some ((batch.mapM (openArrival crypto state.client)).map
          fun opened => ⟨opened.map Prod.snd, source⟩)))
      (taken (batch.mapM (openArrival crypto state.client)))
      (results (acceptArrival crypto state.client) batch) := by
  have hknown : ∀ opened, batch.mapM (openArrival crypto state.client) = .ok opened →
      ∀ pair ∈ opened, (received.threads pair.2.threadIdHex).isSome = true := by
    intro opened hopened pair hpair
    obtain ⟨arrival, -, harrival⟩ := of_mem_mapM hopened pair hpair
    rw [hthreads]
    exact thread_of_openArrival harrival
  obtain ⟨hgrown, hall⟩ := recordReceived_spec clock { state with client := received } source hknown
  refine ⟨hgrown, fun receipts h => ?_⟩
  obtain ⟨opened, hopened, htaken⟩ := hall receipts h
  rw [htaken, results_of_mapM hopened]
  rfl

theorem mapM_receivePayload (payloads : List Bytes) :
    payloads.mapM (receivePayload crypto library client) =
      ((payloads.map (parseEnvelopePayload library)).mapM (openArrival crypto client)).map
        (List.map Prod.snd) := by
  rw [mapM_comp, ← mapM_map]
  exact congrArg payloads.mapM (funext receivePayload_eq)

theorem mapM_receiveManifest (manifests : List String) :
    manifests.mapM (receiveManifest crypto library manifestJson sortUnstable client) =
      ((manifests.map (recoverEnvelope crypto library manifestJson sortUnstable client)).mapM
        (openArrival crypto client)).map (List.map Prod.snd) := by
  rw [mapM_comp, ← mapM_map]
  exact congrArg manifests.mapM (funext receiveManifest_eq)

theorem except_map_map {β γ ε : Type} (f : α → β) (g : β → γ) (x : Except ε α) :
    (x.map f).map g = x.map fun a => g (f a) := by
  cases x <;> rfl

/-- Resolving an inbox changes nothing but the cache of payloads. -/
theorem resolveInboxFromState_snd (sha256 : Bytes → Bytes) (client : LocalState)
    (inboxScanKey : Bytes) (bridge : Option Bridge.View) :
    ∃ p2pInbox, (resolveInboxFromState sha256 client inboxScanKey bridge).2 =
      { client with p2pInbox } := by
  unfold resolveInboxFromState
  dsimp only
  split
  · exact ⟨_, rfl⟩
  · split <;> exact ⟨client.p2pInbox, rfl⟩

theorem ingest_accounts (state : MailState) (payloads : List Bytes) (clock : ℕ → UInt64) :
    Accounts state
      (takeIn crypto library manifestJson sortUnstable state (.ingest payloads clock))
      (untilFailure (acceptArrival crypto state.client)
        (payloads.map (parseEnvelopePayload library)))
      (results (acceptArrival crypto state.client)
        (payloads.map (parseEnvelopePayload library))) := by
  obtain ⟨hgrown, hok⟩ := ingest_spec crypto library clock state payloads
  rw [funext (@readPayload_eq crypto library state.client)] at hgrown hok
  simp only [untilFailure_map, isOk_map] at hgrown hok
  rw [← untilFailure_comp (parseEnvelopePayload library) (acceptArrival crypto state.client)]
    at hgrown
  refine ⟨hgrown, fun receipts h => untilFailure_of_forall fun arrival harrival => ?_⟩
  obtain ⟨payload, hpayload, rfl⟩ := List.mem_map.mp harrival
  exact hok.mp (isOk_iff.mpr ⟨receipts, Option.some.inj h⟩) payload hpayload

/-- Receiving from an inbox opens the payloads that the inbox is resolved to. -/
theorem receiveInboxMessages_fst (inboxScanKey : Bytes) (bridge : Option Bridge.View) :
    (receiveInboxMessages crypto library client inboxScanKey bridge).1 =
      (resolveInboxFromState crypto.sha256 client inboxScanKey bridge).1.map fun resolved =>
        resolved >>= fun response => ((response.items.map (parseEnvelopePayload library)).mapM
          (openArrival crypto client)).map fun opened =>
            ⟨opened.map Prod.snd, response.source⟩ := by
  obtain ⟨p2pInbox, hclient⟩ :=
    resolveInboxFromState_snd crypto.sha256 client inboxScanKey bridge
  unfold receiveInboxMessages
  dsimp only
  rw [hclient, receivePayload_p2pInbox]
  refine congrArg (Option.map · _) (funext fun resolved => congrArg (resolved >>= ·) ?_)
  ext response
  rw [mapM_receivePayload]
  cases (response.items.map (parseEnvelopePayload library)).mapM (openArrival crypto client) <;> rfl

theorem receiveInbox_accounts (state : MailState) (inboxScanKey : Bytes)
    (bridge : Option Bridge.View) (clock : ℕ → UInt64) :
    let call := MailCall.receiveInbox inboxScanKey bridge clock
    Accounts state (takeIn crypto library manifestJson sortUnstable state call)
      (recorded crypto library manifestJson sortUnstable state.client call)
      (delivered crypto library manifestJson sortUnstable state.client call) := by
  obtain ⟨p2pInbox, hclient⟩ :=
    resolveInboxFromState_snd crypto.sha256 state.client inboxScanKey bridge
  have hreceived : (receiveInboxMessages crypto library state.client inboxScanKey bridge).2 =
      { state.client with p2pInbox } := hclient
  unfold recorded delivered arrivals takeIn
  dsimp only
  rw [hreceived, receiveInboxMessages_fst]
  cases (resolveInboxFromState crypto.sha256 state.client inboxScanKey bridge).1 with
  | none => exact ⟨.refl rfl, fun _ _ => rfl⟩
  | some resolved =>
    cases resolved with
    | error fault => exact ⟨.refl rfl, fun _ _ => rfl⟩
    | ok response =>
      exact recordReceived_accounts crypto clock state { state.client with p2pInbox } rfl
        response.source _

theorem receiveTransport_accounts (state : MailState) (inboxScanKey : Bytes)
    (clock : ℕ → UInt64) :
    let batch := (stagedManifests crypto state.client inboxScanKey).map
      (recoverEnvelope crypto library manifestJson sortUnstable state.client)
    Accounts state
      (takeIn crypto library manifestJson sortUnstable state (.receiveTransport inboxScanKey clock))
      (taken (batch.mapM (openArrival crypto state.client)))
      (results (acceptArrival crypto state.client) batch) := by
  intro batch
  have hreceived : (receiveTransportMessages crypto library manifestJson sortUnstable state.client
      inboxScanKey).1 = (batch.mapM (openArrival crypto state.client)).map
        fun opened => ⟨opened.map Prod.snd, .kademlia⟩ := by
    change ((stagedManifests crypto state.client inboxScanKey).mapM
      (receiveManifest crypto library manifestJson sortUnstable state.client)).map
        (InboxDecryptionResponse.mk · .kademlia) = _
    rw [mapM_receiveManifest, except_map_map]
  have haccounts := recordReceived_accounts crypto clock state (receiveTransportMessages crypto
    library manifestJson sortUnstable state.client inboxScanKey).2 rfl .kademlia batch
  rw [← hreceived] at haccounts
  exact haccounts

/-- Every call appends what it records, and a call that succeeds records all that is
delivered to it. -/
theorem takeIn_accounts (state : MailState) (call : MailCall) :
    Accounts state (takeIn crypto library manifestJson sortUnstable state call)
      (recorded crypto library manifestJson sortUnstable state.client call)
      (delivered crypto library manifestJson sortUnstable state.client call) := by
  cases call with
  | deliver p2pInbox transportGossip transportChunkStore => exact ⟨.refl rfl, fun _ _ => rfl⟩
  | ingest payloads clock => exact ingest_accounts state payloads clock
  | receiveInbox inboxScanKey bridge clock =>
    exact receiveInbox_accounts state inboxScanKey bridge clock
  | receiveTransport inboxScanKey clock => exact receiveTransport_accounts state inboxScanKey clock

theorem taken_sublist (batch : List (ClientResult Envelope)) :
    (taken (batch.mapM (openArrival crypto client))).Sublist
      (results (acceptArrival crypto client) batch) := by
  cases hbatch : batch.mapM (openArrival crypto client) with
  | error fault => exact List.nil_sublist _
  | ok opened =>
    have hresults := results_of_mapM hbatch readOpened
    exact (untilFailure_sublist readOpened opened).trans (hresults ▸ List.Sublist.refl _)

theorem recorded_sublist (client : LocalState) (call : MailCall) :
    (recorded crypto library manifestJson sortUnstable client call).Sublist
      (delivered crypto library manifestJson sortUnstable client call) := by
  cases call with
  | ingest payloads clock => exact untilFailure_sublist _ _
  | deliver p2pInbox transportGossip transportChunkStore => exact List.nil_sublist _
  | receiveInbox inboxScanKey bridge clock => exact taken_sublist _
  | receiveTransport inboxScanKey clock => exact taken_sublist _

/-- A failed ingestion leaves the messages alone exactly if all payloads are good or
the first one is not. -/
theorem ingest_unchanged_iff (crypto : MessageCrypto) (library : Ciborium) (clock : ℕ → UInt64)
    (state : MailState) (payloads : List Bytes) :
    let ingested := ingestInboxPayloads crypto library clock state payloads
    (ingested.1.isOk = false → ingested.2.messages = state.messages) ↔
      (∀ payload ∈ payloads, (readPayload crypto library state.client payload).isOk = true) ∨
        ∀ payload ∈ payloads.head?,
          (readPayload crypto library state.client payload).isOk = false := by
  intro ingested
  obtain ⟨hgrown, hok⟩ := ingest_spec crypto library clock state payloads
  constructor
  · intro hunchanged
    by_cases hall : ∀ payload ∈ payloads,
        (readPayload crypto library state.client payload).isOk = true
    · exact .inl hall
    · have hmessages := hunchanged (by rw [← Bool.not_eq_true]; exact hall ∘ hok.mp)
      refine .inr fun payload hpayload => ?_
      obtain ⟨rest, rfl⟩ := List.head?_eq_some_iff.mp hpayload
      cases hread : readPayload crypto library state.client payload with
      | error fault => rfl
      | ok receipt =>
        have hthread := hgrown receipt.threadIdHex
        rw [hmessages, untilFailure_cons_of_ok hread] at hthread
        simpa using congrArg List.length hthread
  · rintro (hall | hfirst) hfailed
    · rw [hok.mpr hall] at hfailed
      cases hfailed
    · cases payloads with
      | nil => rfl
      | cons payload rest =>
        have hfails := hfirst payload rfl
        cases hread : readPayload crypto library state.client payload with
        | ok receipt =>
          rw [hread] at hfails
          cases hfails
        | error fault =>
          change (recordEach _ clock [] (payload :: rest) state).2.messages = state.messages
          rw [recordEach, hread]

end Ledger

section Runs
variable (crypto : MessageCrypto) (library : Ciborium) (manifestJson : Codec ChunkManifest)
  (sortUnstable : List Chunk → List Chunk)

/-- What identifies an envelope. -/
def Envelope.place (self : Envelope) : Bytes × Bytes × UInt32 × UInt64 :=
  (self.threadId, self.senderUserId, self.epoch, self.seq)

/-- What the calls of a run record. -/
def recordedIn (state : MailState) (calls : List MailCall) :
    List (Envelope × InboxMessageReceipt) :=
  (transcript (takeIn crypto library manifestJson sortUnstable) state calls).flatMap fun turn =>
    recorded crypto library manifestJson sortUnstable turn.before.client turn.input

/-- What is delivered to the calls of a run. -/
def deliveredIn (state : MailState) (calls : List MailCall) :
    List (Envelope × InboxMessageReceipt) :=
  (transcript (takeIn crypto library manifestJson sortUnstable) state calls).flatMap fun turn =>
    delivered crypto library manifestJson sortUnstable turn.before.client turn.input

variable {crypto library manifestJson sortUnstable} {state : MailState} {calls : List MailCall}

variable (crypto library manifestJson sortUnstable) in
/-- The messages of a run are those that its calls record. -/
theorem grown_run (state : MailState) (calls : List MailCall) :
    Grown state (final (takeIn crypto library manifestJson sortUnstable) state calls)
      ((recordedIn crypto library manifestJson sortUnstable state calls).map Prod.snd) := by
  induction calls generalizing state with
  | nil => exact .refl rfl
  | cons call calls ih =>
    rw [recordedIn, transcript_cons, List.flatMap_cons, List.map_append, final_cons]
    exact (takeIn_accounts state call).grown.trans (ih _)

theorem recordedIn_sublist :
    (recordedIn crypto library manifestJson sortUnstable state calls).Sublist
      (deliveredIn crypto library manifestJson sortUnstable state calls) :=
  List.Sublist.flatMap_right _ fun turn _ => recorded_sublist turn.before.client turn.input

theorem recordedIn_eq
    (hok : ∀ turn ∈ transcript (takeIn crypto library manifestJson sortUnstable) state calls,
      ∃ receipts, turn.outcome = some (.ok receipts)) :
    recordedIn crypto library manifestJson sortUnstable state calls =
      deliveredIn crypto library manifestJson sortUnstable state calls := by
  refine List.flatMap_congr fun turn hturn => ?_
  obtain ⟨receipts, hreceipts⟩ := hok turn hturn
  rw [outcome_eq hturn] at hreceipts
  exact (takeIn_accounts turn.before turn.input).complete receipts hreceipts

/-- The messages grow by what the calls record. If no envelope is delivered twice,
none is recorded twice; and where no call fails, only then. A failed ingestion leaves
the messages alone if and only if its first payload is refused. -/
theorem recorded_once (state : MailState) (calls : List MailCall)
    (hfresh : ((deliveredIn crypto library manifestJson sortUnstable state calls).map
      fun pair => pair.1.place).Nodup) :
    Grown state (final (takeIn crypto library manifestJson sortUnstable) state calls)
        ((recordedIn crypto library manifestJson sortUnstable state calls).map Prod.snd) ∧
      ((recordedIn crypto library manifestJson sortUnstable state calls).map
        fun pair => pair.1.place).Nodup ∧
      (∀ state calls, (∀ turn ∈ transcript (takeIn crypto library manifestJson sortUnstable)
          state calls, ∃ receipts, turn.outcome = some (.ok receipts)) →
        recordedIn crypto library manifestJson sortUnstable state calls =
          deliveredIn crypto library manifestJson sortUnstable state calls) ∧
      ∀ clock state payloads,
        let ingested := ingestInboxPayloads crypto library clock state payloads
        (ingested.1.isOk = false → ingested.2.messages = state.messages) ↔
          (∀ payload ∈ payloads, (readPayload crypto library state.client payload).isOk = true) ∨
            ∀ payload ∈ payloads.head?,
              (readPayload crypto library state.client payload).isOk = false :=
  ⟨grown_run crypto library manifestJson sortUnstable state calls,
    hfresh.sublist (recordedIn_sublist.map _), fun _ _ => recordedIn_eq,
    ingest_unchanged_iff crypto library⟩

end Runs

section Sample

theorem messageText_utf8 (text : String) : messageText (Value.utf8 text) = .ok text := by
  have hbytes : (⟨(Value.utf8 text).toArray⟩ : ByteArray) = text.toByteArray := by
    simp [Value.utf8]
  rw [messageText, hbytes, String.fromUTF8?, dif_pos text.isValidUTF8]
  rfl

def mailRecipient : MailState where
  client := deliveryRecipient "aa"

def greetingReceipt : InboxMessageReceipt := ⟨Hex.encode sampleThreadId, Hex.encode [0xaa], "hi"⟩

theorem accept_sampleMessage {message : SampleMessage}
    (hmessage : message ∈ [deliveredMessage, nextMessage]) :
    acceptArrival deliveryCrypto mailRecipient.client
      (parseEnvelopePayload rfcLibrary message.payload) =
        .ok (message.envelope, greetingReceipt) := by
  obtain ⟨hparse, hopened⟩ := open_sampleMessage hmessage
  have hopen : openArrival deliveryCrypto mailRecipient.client
      (parseEnvelopePayload rfcLibrary message.payload) = .ok (message.envelope, deliveredItem) :=
    bind_eq_ok.mpr ⟨_, hparse, bind_eq_ok.mpr ⟨_, hopened, rfl⟩⟩
  have hread : readItem deliveredItem = .ok greetingReceipt :=
    bind_eq_ok.mpr ⟨"hi", messageText_utf8 "hi", rfl⟩
  refine bind_eq_ok.mpr ⟨_, hopen, ?_⟩
  rw [readOpened, hread]
  rfl

/-- The call that ingests messages of the sample. -/
def ingestion (messages : List SampleMessage) : MailCall :=
  .ingest (messages.map SampleMessage.payload) fun _ => 0

theorem ledger_ingestions (calls : List (List SampleMessage))
    (hcalls : ∀ messages ∈ calls, messages ⊆ [deliveredMessage, nextMessage]) {state : MailState}
    (hstate : state.client = mailRecipient.client) :
    deliveredIn deliveryCrypto rfcLibrary deliveryJson sortByIndex state (calls.map ingestion) =
        calls.flatten.map (fun m => (m.envelope, greetingReceipt)) ∧
      recordedIn deliveryCrypto rfcLibrary deliveryJson sortByIndex state (calls.map ingestion) =
        calls.flatten.map (fun m => (m.envelope, greetingReceipt)) := by
  induction calls generalizing state with
  | nil => exact ⟨rfl, rfl⟩
  | cons messages calls ih =>
    rw [List.forall_mem_cons] at hcalls
    have hall : ∀ message ∈ messages, acceptArrival deliveryCrypto state.client
        (parseEnvelopePayload rfcLibrary message.payload) =
          .ok (message.envelope, greetingReceipt) := by
      rw [hstate]
      exact fun message hmessage => accept_sampleMessage (hcalls.1 hmessage)
    have hdelivered : delivered deliveryCrypto rfcLibrary deliveryJson sortByIndex state.client
        (ingestion messages) = messages.map fun m => (m.envelope, greetingReceipt) := by
      rw [delivered, ingestion, arrivals, List.map_map, results, List.filterMap_map]
      exact List.filterMap_eq_map_iff_forall_eq_some.mpr fun message hmessage =>
        toOption_eq_some.mpr (hall message hmessage)
    have hrecorded : recorded deliveryCrypto rfcLibrary deliveryJson sortByIndex state.client
        (ingestion messages) = messages.map fun m => (m.envelope, greetingReceipt) := by
      rw [← hdelivered]
      refine untilFailure_of_forall fun arrival harrival => ?_
      obtain ⟨payload, hpayload, rfl⟩ := List.mem_map.mp harrival
      obtain ⟨message, hmessage, rfl⟩ := List.mem_map.mp hpayload
      rw [hall message hmessage]
      rfl
    obtain ⟨hdelivered', hrecorded'⟩ := ih hcalls.2
      ((recordEach_client (readPayload deliveryCrypto rfcLibrary) (fun _ => 0) []
        (messages.map SampleMessage.payload) state).trans hstate)
    rw [deliveredIn, recordedIn, List.map_cons, transcript_cons, List.flatMap_cons,
      List.flatMap_cons, List.flatten_cons, List.map_append, hdelivered, hrecorded]
    exact ⟨congrArg _ hdelivered', congrArg _ hrecorded'⟩

/-- Two messages that are ingested one after the other are recorded once each. -/
theorem greetings_recorded_once :
    let calls := [ingestion [deliveredMessage], ingestion [nextMessage]]
    Grown mailRecipient (final (takeIn deliveryCrypto rfcLibrary deliveryJson sortByIndex)
        mailRecipient calls) [greetingReceipt, greetingReceipt] ∧
      (recordedIn deliveryCrypto rfcLibrary deliveryJson sortByIndex mailRecipient calls).map
        (fun pair => pair.1) = [deliveredMessage.envelope, nextMessage.envelope] ∧
      [deliveredMessage.envelope.place, nextMessage.envelope.place].Nodup := by
  intro calls
  obtain ⟨hdelivered, hrecorded⟩ := ledger_ingestions [[deliveredMessage], [nextMessage]] (by simp)
    (show mailRecipient.client = _ from rfl)
  have hfresh : ((deliveredIn deliveryCrypto rfcLibrary deliveryJson sortByIndex mailRecipient
      calls).map fun pair => pair.1.place).Nodup := by
    refine (congrArg (fun pairs => (pairs.map fun pair => pair.1.place).Nodup) hdelivered).mpr ?_
    decide
  obtain ⟨hgrown, hnodup, -⟩ := recorded_once mailRecipient calls hfresh
  change recordedIn _ _ _ _ _ calls = _ at hrecorded
  rw [hrecorded] at hgrown hnodup ⊢
  exact ⟨hgrown, rfl, hnodup⟩

/-- A payload that arrives twice is recorded twice. -/
theorem greeting_recorded_twice :
    let calls := [ingestion [deliveredMessage, deliveredMessage]]
    ¬ ((recordedIn deliveryCrypto rfcLibrary deliveryJson sortByIndex mailRecipient calls).map
        fun pair => pair.1.place).Nodup ∧
      Grown mailRecipient (final (takeIn deliveryCrypto rfcLibrary deliveryJson sortByIndex)
        mailRecipient calls) [greetingReceipt, greetingReceipt] := by
  intro calls
  have hrecorded := (ledger_ingestions [[deliveredMessage, deliveredMessage]] (by simp)
    (show mailRecipient.client = _ from rfl)).2
  have hgrown := grown_run deliveryCrypto rfcLibrary deliveryJson sortByIndex mailRecipient calls
  change recordedIn _ _ _ _ _ calls = _ at hrecorded
  rw [hrecorded] at hgrown ⊢
  exact ⟨by decide, hgrown⟩

end Sample

end Spex
