import Spex.CommandRuns
import Spex.ThreadPositions

/-!
# Positions of the envelopes that processes let out

A send hands its envelope to the bridge and to the peers before the state is saved. If
it fails on the way, the counter of the thread is taken back with the rest of the
state, and the next envelope that leaves for the thread is at the same position.
-/
namespace Spex.Cli
open Fallible StateFile Transcript

section Sending
variable {env : CliEnv} {state next : CliState} {thread text : String} {threadState : ThreadState}
  {envelope : Envelope} {manifestJson : Codec ChunkManifest} {members : List String}

/-- The envelopes that have left a process. -/
def Effects.exposed (effects : Effects) : List Envelope :=
  effects.handed.map Prod.snd ++ effects.announced.map (·.envelope)

theorem publishEach_snd (answers : ℕ → ClientResult Unit) (envelope : Envelope) (n : ℕ)
    (recipients : List Bytes) :
    ∀ pair ∈ (publishEach answers envelope n recipients).2, pair.2 = envelope := by
  induction recipients generalizing n with
  | nil => simp [publishEach]
  | cons recipient recipients ih =>
    unfold publishEach
    cases answers n with
    | error fault => simp
    | ok _ => simpa using ih (n + 1)

theorem sendToBridge_exposed (bridgeUrl : Option String) (course : SendCourse)
    (dispatch : ThreadMessageDispatch) :
    (∀ pair ∈ (sendToBridge bridgeUrl course dispatch).2.handed, pair.2 = dispatch.envelope) ∧
      (sendToBridge bridgeUrl course dispatch).2.announced = [] := by
  unfold sendToBridge
  cases bridgeUrl with
  | none => simp
  | some url =>
    have hpairs := publishEach_snd course.bridge dispatch.envelope 0 dispatch.recipientInboxKeys
    dsimp only
    split
    · rename_i hpublish
      rw [hpublish] at hpairs
      exact ⟨hpairs, rfl⟩
    · rename_i hpublish
      rw [hpublish] at hpairs
      exact ⟨hpairs, rfl⟩

theorem sendToPeers_exposed (flags : PeerFlags) (course : SendCourse)
    (dispatch : ThreadMessageDispatch) :
    ∀ announced ∈ (sendToPeers flags course dispatch).2.announced, announced = dispatch := by
  unfold sendToPeers
  split_ifs
  · split <;> simp
  · simp

/-- Whatever a send lets out is the envelope that it has sealed. -/
theorem exposed_msgSend {bridgeUrl : Option String} {flags : PeerFlags} {course : SendCourse}
    (h : envelope ∈ (msgSend env state thread text bridgeUrl flags course).effects.exposed) :
    ∃ dispatch outgoing, sendThreadMessageForState env.toCrypto env.manifestJson state.outgoing
      thread text course.nonce.val course.publishedAt course.sentAt = (.ok dispatch, outgoing) ∧
        envelope = dispatch.envelope := by
  unfold msgSend at h
  cases hsend : sendThreadMessageForState env.toCrypto env.manifestJson state.outgoing thread text
      course.nonce.val course.publishedAt course.sentAt with
  | mk result outgoing =>
    rw [hsend] at h
    cases result with
    | error fault => simp [Effects.exposed] at h
    | ok dispatch =>
      refine ⟨dispatch, outgoing, rfl, ?_⟩
      have hbridge := sendToBridge_exposed bridgeUrl course dispatch
      have hpeers := sendToPeers_exposed flags course dispatch
      dsimp only at h
      generalize sendToBridge bridgeUrl course dispatch = bridge at h hbridge
      generalize sendToPeers flags course dispatch = peers at h hpeers
      obtain ⟨bridged, handed⟩ := bridge
      obtain ⟨peered, announced⟩ := peers
      obtain ⟨hpairs, hnone⟩ := hbridge
      dsimp only at hpairs hnone hpeers
      cases bridged with
      | error fault =>
        change envelope ∈ handed.exposed at h
        rw [Effects.exposed, hnone, List.map_nil, List.append_nil] at h
        obtain ⟨pair, hpair, rfl⟩ := List.mem_map.mp h
        exact hpairs pair hpair
      | ok _ =>
        have hmem : envelope ∈ handed.handed.map Prod.snd ++
            announced.announced.map (·.envelope) := by
          cases peered with
          | error fault => exact h
          | ok _ => exact h
        rcases List.mem_append.mp hmem with hhanded | hannounced
        · obtain ⟨pair, hpair, rfl⟩ := List.mem_map.mp hhanded
          exact hpairs pair hpair
        · obtain ⟨other, hother, rfl⟩ := List.mem_map.mp hannounced
          rw [hpeers other hother]

theorem stage_threads {sha256 : Bytes → Bytes} {client client' : LocalState} {sender : String}
    {manifest : ChunkManifest} {chunks : List Chunk} {result : ClientResult Unit}
    (h : stageTransportDeliveryForMembers sha256 manifestJson client members sender manifest
      chunks = (result, client')) : client'.threads = client.threads := by
  unfold stageTransportDeliveryForMembers at h
  dsimp only at h
  split at h
  · rw [← (Prod.mk.inj h).2]
  · rw [← (Prod.mk.inj h).2]

/-- A message that was sealed carries the counter of the thread and the number of its
members, and has moved the counter on. -/
theorem send_eq_ok {crypto : Crypto} {outgoing outgoing' : OutgoingState} {nonce : Bytes}
    {publishedAt sentAt : UInt64} {dispatch : ThreadMessageDispatch}
    (h : sendThreadMessageForState crypto manifestJson outgoing thread text nonce publishedAt
      sentAt = (.ok dispatch, outgoing')) :
    ∃ threadState, outgoing.client.threads thread = some threadState ∧
      dispatch.envelope.seq = threadState.nextSeq ∧
      dispatch.envelope.epoch.toNat = (memberCount threadState).toNat ∧
      outgoing'.client.threads =
        Function.update outgoing.client.threads thread (some threadState.advanced) ∧
      ∃ identity ∈ outgoing.client.identity, inboxKeysForThread threadState.advanced
        identity.userIdHex = .ok dispatch.recipientInboxKeys := by
  unfold sendThreadMessageForState at h
  cases hidentity : outgoing.client.identity with
  | none => simp [hidentity] at h
  | some identity =>
    cases hthread : outgoing.client.threads thread with
    | none => simp [hidentity, hthread] at h
    | some threadState =>
      simp only [hidentity, hthread, publishThreadMessageTransport] at h
      cases hresult : (encryptAndChunkMessage crypto identity.toIdentityState threadState
          (Value.utf8 text) nonce).1 with
      | error fault => simp [hresult, Except.map] at h
      | ok message =>
        obtain ⟨group, hrebuild, hsmall, hstate, hseal⟩ := encrypt_eq_ok hresult
        obtain ⟨seed, hstored⟩ := stored_of_rebuild hrebuild
        have hepoch : group.epoch = memberCount threadState :=
          (rebuild_replays hrebuild hstored).epoch
        obtain ⟨hcarried, hseq, -⟩ := seal_eq_ok hseal
        have hadvanced : threadState.counted group = threadState.advanced := by
          rw [ThreadState.counted, ThreadState.advanced, hepoch]
        rw [hresult, hstate, hadvanced] at h
        simp only [Except.map, dispatchMessage] at h
        split at h
        · cases (Prod.mk.inj h).1
        · rename_i hkeys
          split at h
          · cases (Prod.mk.inj h).1
          · rename_i hstage
            obtain ⟨hdispatch, rfl⟩ := Prod.mk.inj h
            obtain rfl := Except.ok.inj hdispatch
            refine ⟨threadState, rfl, hseq, ?_, stage_threads hstage, identity, rfl, hkeys⟩
            rw [← hepoch, hcarried, UInt64.toNat_toUInt32, Nat.mod_eq_of_lt hsmall]

/-- The process has sent a message in the thread and saved the state. -/
def savedSend (thread : String) (event : Invocation × CliOutcome) : Bool :=
  event.1.command.sendsIn thread && event.2.result.isOk

/-- The command opens a thread under the given key. -/
def Command.Opens (thread : String) : Command → Prop
  | .threadNew _ randomThreadId _ _ => Hex.encode randomThreadId = thread
  | _ => False

theorem state_of_open {randomThreadId randomSecret : Bytes} {now : UInt64} {threadId : String}
    (h : createThreadForState env state members randomThreadId randomSecret
      now = .ok (threadId, next)) : ∃ created, next = { state with
        threads := Function.update state.threads (Hex.encode randomThreadId) (some created)
        messages := Function.update state.messages (Hex.encode randomThreadId) [] } := by
  obtain ⟨identity, -, h⟩ := bind_eq_ok.mp h
  obtain ⟨created, hcreate, h⟩ := bind_eq_ok.mp h
  obtain ⟨cfgHash, -, hcreate⟩ := bind_eq_ok.mp hcreate
  obtain ⟨group, -, hcreate⟩ := bind_eq_ok.mp hcreate
  obtain rfl := pure_eq_ok.mp hcreate
  exact ⟨_, (Prod.mk.inj (pure_eq_ok.mp h)).2.symm⟩

/-- A command that succeeds and does not open the thread again moves its counter on if it
sends in it, and leaves it alone otherwise. -/
theorem thread_of_change {command : Command} (h : Change env state command next)
    (hthread : state.threads thread = some threadState) (hopens : ¬ command.Opens thread) :
    next.threads thread =
      some (if command.sendsIn thread then threadState.advanced else threadState) := by
  cases h with
  | same hquiet hsame => rw [hsame.threads, hthread, hquiet, if_neg (by simp)]
  | created => exact hthread
  | rotated hrotate => exact hthread
  | redeemed hredeem =>
    obtain ⟨card, -, hredeem⟩ := bind_eq_ok.mp hredeem
    obtain ⟨-, rfl⟩ := Prod.mk.inj (pure_eq_ok.mp hredeem)
    exact hthread
  | opened hopen =>
    obtain ⟨created, rfl⟩ := state_of_open hopen
    exact (Function.update_of_ne (fun heq => hopens heq.symm) _ _).trans hthread
  | @sent key _ _ _ _ dispatch outgoing hsend =>
    obtain ⟨sent, hsent, -, -, hthreads, -⟩ := send_eq_ok hsend
    change outgoing.client.threads thread = _
    rw [hthreads]
    by_cases hkey : key = thread
    · subst hkey
      obtain rfl := Option.some.inj (hthread.symm.trans hsent)
      rw [Function.update_self, Command.sendsIn, decide_eq_true rfl, if_pos rfl]
    · rw [Function.update_of_ne (Ne.symm hkey), Command.sendsIn, decide_eq_false hkey]
      exact hthread
  | logged hlog hsave =>
    cases hlog with
    | appends hquiet hload happend => rw [hquiet]; exact hthread
    | imports hread => exact hthread

theorem exposed_of_run {command : Command} (hsends : command.sendsIn thread = true)
    (h : envelope ∈ (command.run env state).effects.exposed)
    (hthread : state.threads thread = some threadState) :
    envelope.seq = threadState.nextSeq ∧
      envelope.epoch.toNat = (memberCount threadState).toNat := by
  cases command with
  | msgSend key text bridgeUrl flags course =>
    obtain rfl : key = thread := of_decide_eq_true hsends
    obtain ⟨dispatch, outgoing, hsend, rfl⟩ := exposed_msgSend h
    obtain ⟨sent, hsent, hseq, hepoch, -⟩ := send_eq_ok hsend
    obtain rfl := Option.some.inj (hthread.symm.trans hsent)
    exact ⟨hseq, hepoch⟩
  | _ => cases hsends

end Sending

section Positions
variable {env : CliEnv} {state : CliState} {thread : String} {threadState : ThreadState}
  {inputs : List (Invocation × Fate)}

variable (env) in
theorem thread_of_step (input : Invocation × Fate)
    (hthread : state.threads thread = some threadState) (hopens : ¬ input.1.command.Opens thread) :
    (sessionStep env state input).2.threads thread =
      some (if savedSend thread (input.1, (sessionStep env state input).1) then
        threadState.advanced else threadState) := by
  rcases sessionStep_cases env state input with ⟨hfails, hsame⟩ | ⟨hok, -, hrun⟩
  · rw [hsame, savedSend, hfails, Bool.and_false, if_neg (by simp)]
    exact hthread
  · rw [savedSend, hok, Bool.and_true]
    exact thread_of_change (change_of_run hrun) hthread hopens

/-- The position of an envelope is the number of members and the counter of the thread,
moved on by the sends before it that were saved. -/
theorem session_positions (hthread : state.threads thread = some threadState)
    (hopens : ∀ input ∈ inputs, ¬ input.1.command.Opens thread)
    (hroom : threadState.nextSeq.toNat + inputs.length < 2 ^ 64) {past rest : History}
    {event : Invocation × CliOutcome}
    (hhistory : sessionHistory env state inputs = past ++ event :: rest)
    (hsends : event.1.command.sendsIn thread = true) {envelope : Envelope}
    (hexposed : envelope ∈ event.2.effects.exposed) :
    envelope.seq.toNat = threadState.nextSeq.toNat + past.countP (savedSend thread) ∧
      envelope.epoch.toNat = (memberCount threadState).toNat := by
  induction inputs generalizing state threadState past with
  | nil => simp [sessionHistory, sessionRun, transcript] at hhistory
  | cons input inputs ih =>
    rw [List.forall_mem_cons] at hopens
    rw [sessionHistory_cons] at hhistory
    cases past with
    | nil =>
      obtain ⟨rfl, -⟩ := List.cons.inj hhistory
      dsimp only at hsends hexposed
      rcases sessionStep_effects env state input with hnone | heffects
      · simp [hnone, Effects.exposed] at hexposed
      · rw [heffects] at hexposed
        obtain ⟨hseq, hepoch⟩ := exposed_of_run hsends hexposed hthread
        exact ⟨by rw [hseq]; rfl, hepoch⟩
    | cons first past =>
      obtain ⟨rfl, hrest⟩ := List.cons.inj hhistory
      have hnext := thread_of_step env input hthread hopens.1
      rw [List.length_cons] at hroom
      rw [List.countP_cons]
      split_ifs at hnext ⊢ with hsaved
      · have hmax : threadState.nextSeq ≠ maxU64 := by
          intro hmax
          rw [hmax, toNat_maxU64] at hroom
          omega
        have hadvanced : threadState.advanced.nextSeq.toNat = threadState.nextSeq.toNat + 1 := by
          rw [ThreadState.advanced, saturatingSucc, if_neg hmax, toNat_add_one hmax]
        obtain ⟨hseq, hepoch⟩ := ih hnext hopens.2 (by omega) hrest
        exact ⟨by omega, hepoch⟩
      · exact ih hnext hopens.2 (by omega) hrest

variable {libraries : StateLibraries} {environment : Environment} {disk : Disk}
  {invocations : List Invocation}

variable (env) in
/-- The envelopes that processes let out for a thread are numbered by the sends before them
that were saved: one that leaves after a saved send is at a later position, and one that
leaves after sends that all failed is at the position of theirs. -/
theorem published_positions (hlibraries : libraries.toLibraries.Faithful)
    (hholds : disk.Holds libraries environment state)
    (hwhole : ∀ invocation ∈ invocations, invocation.Whole)
    (hthread : state.threads thread = some threadState)
    (hopens : ∀ invocation ∈ invocations, ¬ invocation.command.Opens thread)
    (hroom : threadState.nextSeq.toNat + invocations.length < 2 ^ 64) :
    (∀ past event rest,
      processHistory libraries environment env disk invocations = past ++ event :: rest →
      event.1.command.sendsIn thread = true → ∀ envelope ∈ event.2.effects.exposed,
        envelope.seq.toNat = threadState.nextSeq.toNat + past.countP (savedSend thread) ∧
          envelope.epoch.toNat = (memberCount threadState).toNat) ∧
    ∀ past event between event' rest,
      processHistory libraries environment env disk invocations =
        past ++ event :: (between ++ event' :: rest) →
      event.1.command.sendsIn thread = true → event'.1.command.sendsIn thread = true →
      ∀ envelope ∈ event.2.effects.exposed, ∀ envelope' ∈ event'.2.effects.exposed,
        (envelope.position < envelope'.position ↔
          0 < (event :: between).countP (savedSend thread)) ∧
        (envelope.position = envelope'.position ↔
          (event :: between).countP (savedSend thread) = 0) := by
  obtain ⟨fates, hlength, hhistory, -⟩ := history_of_processes env hlibraries hholds hwhole
  have hroom' : threadState.nextSeq.toNat + (invocations.zip fates).length < 2 ^ 64 := by
    rw [List.length_zip, hlength, min_self]
    exact hroom
  have hcount {past rest : History} {event : Invocation × CliOutcome} {envelope : Envelope}
      (h : processHistory libraries environment env disk invocations = past ++ event :: rest)
      (hsends : event.1.command.sendsIn thread = true)
      (hexposed : envelope ∈ event.2.effects.exposed) :=
    session_positions hthread (forall_mem_zip hopens) hroom' (hhistory.symm.trans h) hsends hexposed
  refine ⟨fun past event rest h hsends envelope hexposed => hcount h hsends hexposed, ?_⟩
  intro past event between event' rest h hsends hsends' envelope hexposed envelope' hexposed'
  obtain ⟨hseq, hepoch⟩ := hcount h hsends hexposed
  have h' : processHistory libraries environment env disk invocations =
      (past ++ event :: between) ++ event' :: rest := by rw [h, List.append_assoc]; rfl
  obtain ⟨hseq', hepoch'⟩ := hcount h' hsends' hexposed'
  rw [List.countP_append] at hseq'
  have hepochs : envelope.epoch = envelope'.epoch :=
    UInt32.toNat_inj.mp (hepoch.trans hepoch'.symm)
  constructor
  · rw [Envelope.position_lt_iff, hepochs]
    omega
  · rw [Envelope.position, Envelope.position, toLex_inj, Prod.mk.injEq, hepochs,
      ← UInt64.toNat_inj]
    simp only [true_and]
    omega

end Positions

section Sample

/-- The surroundings of the sample, with digests of 32 bytes. -/
noncomputable def plainEnv : CliEnv where
  toClientCrypto := { deliveryClient with sha256 := sendCrypto.sha256 }
  library := rfcLibrary
  logCodec := readerLibrary.codec
  manifestJson := deliveryJson
  requestJson := sampleRequestJson
  grantJson := grantText
  sortUnstable := sortByIndex

/-- The plain text of one state, and the encryption of another. -/
noncomputable def twoStates (first second : CliState) : StateLibraries where
  toLibraries := oneState second
  fromText text := if text = "plain" then .ok first else .error "unknown"

def plainDisk : Disk := ⟨some "plain", emptyKeyring⟩

theorem holds_plainDisk (first second : CliState) :
    plainDisk.Holds (twoStates first second) noPassphrase first := fun _ => rfl

/-- The disk after the other state was saved. -/
def savedDisk : Disk := ⟨some "wrapper", zeroKeyring⟩

theorem holds_savedDisk (first second : CliState) :
    savedDisk.Holds (twoStates first second) noPassphrase second :=
  holds_of_saved (faithful_oneState second) (encrypt_zeros second (.inl rfl))

theorem save_second (first second : CliState) {disk : Disk}
    (h : disk = plainDisk ∨ disk = savedDisk) :
    saveState (twoStates first second) noPassphrase zeros (.ok ()) .done second disk =
      (.ok (), savedDisk) := by
  have hkeyring : disk.keyring = emptyKeyring ∨ disk.keyring = zeroKeyring := by
    rcases h with rfl | rfl
    · exact .inl rfl
    · exact .inr rfl
  simp only [saveState, twoStates, encrypt_zeros second hkeyring, savedDisk]

def pairState : CliState where
  identity := some ⟨⟨sampleIdentity, ""⟩, "", ""⟩
  threads := fun id => if id = Hex.encode sampleThreadId then some sampleThread else none

theorem pairState_thread : pairState.threads (Hex.encode sampleThreadId) = some sampleThread := by
  simp [pairState]

/-- A message of the sample, for which the bridge has an answer. -/
def pairSend (byte : UInt8) (bridge : ClientResult Unit) : Invocation where
  command := .msgSend (Hex.encode sampleThreadId) "hi" (some "bridge") ⟨false, [], [], []⟩
    { nonce := ⟨List.replicate 12 byte, List.length_replicate⟩
      publishedAt := 1700000001
      sentAt := 1700000001
      bridge := fun _ => bridge
      transport := .ok ()
      publish := .ok () }
  loadRng := zeros
  saveRng := zeros
  answer := .done

def bridgeDown : ClientResult Unit := .error (.returned (.transport none))

theorem pairSend_fails :
    ((pairSend 0x33 bridgeDown).command.run plainEnv pairState).effects.handed.length = 1 ∧
      ((pairSend 0x33 bridgeDown).command.run plainEnv pairState).result.isOk = false := by
  decide +kernel

theorem pairSend_succeeds :
    ((pairSend 0x44 (.ok ())).command.run plainEnv pairState).effects.handed.length = 1 ∧
      ((pairSend 0x44 (.ok ())).command.run plainEnv pairState).result.isOk = true := by
  decide +kernel

section Calls
variable {env : CliEnv} {state next : CliState} {libraries : StateLibraries}
  {environment : Environment} {disk : Disk} {invocation : Invocation}

theorem runCli_of_error {fault : Fault CliError}
    (hload : loadState libraries environment invocation.loadRng invocation.unreadable disk =
      (.ok state, disk)) (hrun : (invocation.command.run env state).result = .error fault) :
    runCli libraries environment env disk invocation =
      (⟨.error fault, (invocation.command.run env state).effects⟩, disk) := by
  simp only [runCli, hload, hrun]

theorem runCli_of_ok {saved : CliResult Unit} {disk' : Disk}
    (hload : loadState libraries environment invocation.loadRng invocation.unreadable disk =
      (.ok state, disk)) (hrun : (invocation.command.run env state).result = .ok next)
    (hsave : saveState libraries environment invocation.saveRng invocation.directory
      invocation.answer next disk = (saved, disk')) :
    runCli libraries environment env disk invocation =
      (⟨saved, (invocation.command.run env state).effects⟩, disk') := by
  simp only [runCli, hload, hrun, hsave]

theorem processHistory_cons {invocations : List Invocation} :
    processHistory libraries environment env disk (invocation :: invocations) =
      (invocation, (runCli libraries environment env disk invocation).1) ::
        processHistory libraries environment env (runCli libraries environment env disk
          invocation).2 invocations := rfl

end Calls

theorem exposed_of_handed {effects : Effects} {key : Bytes} {envelope : Envelope}
    (h : effects.handed = [(key, envelope)]) : envelope ∈ effects.exposed := by
  rw [Effects.exposed, h]
  exact List.mem_append_left _ (List.mem_singleton_self _)

/-- The bridge fails after it was given an envelope. The next one is saved, at the same
position. -/
theorem failed_position_used_again : ∃ libraries outcome outcome' envelope envelope',
    processHistory libraries noPassphrase plainEnv plainDisk
      [pairSend 0x33 bridgeDown, pairSend 0x44 (.ok ())] =
        [(pairSend 0x33 bridgeDown, outcome), (pairSend 0x44 (.ok ()), outcome')] ∧
    outcome.result.isOk = false ∧ outcome'.result.isOk = true ∧
    envelope ∈ outcome.effects.exposed ∧ envelope' ∈ outcome'.effects.exposed ∧
    envelope.position = envelope'.position := by
  obtain ⟨hone, hfails⟩ := pairSend_fails
  obtain ⟨hone', hsucceeds⟩ := pairSend_succeeds
  obtain ⟨⟨key, envelope⟩, hhanded⟩ := List.length_eq_one_iff.mp hone
  obtain ⟨⟨key', envelope'⟩, hhanded'⟩ := List.length_eq_one_iff.mp hone'
  obtain ⟨next, hnext⟩ := isOk_iff.mp hsucceeds
  obtain ⟨fault, hfault⟩ : ∃ fault, ((pairSend 0x33 bridgeDown).command.run plainEnv
      pairState).result = .error fault := by
    cases hresult : ((pairSend 0x33 bridgeDown).command.run plainEnv pairState).result with
    | ok state => simp [hresult, Except.isOk, Except.toBool] at hfails
    | error fault => exact ⟨fault, rfl⟩
  set effects := ((pairSend 0x33 bridgeDown).command.run plainEnv pairState).effects
  set effects' := ((pairSend 0x44 (.ok ())).command.run plainEnv pairState).effects
  have hhistory : processHistory (twoStates pairState next) noPassphrase plainEnv plainDisk
      [pairSend 0x33 bridgeDown, pairSend 0x44 (.ok ())] =
        [(pairSend 0x33 bridgeDown, ⟨.error fault, effects⟩),
          (pairSend 0x44 (.ok ()), ⟨.ok (), effects'⟩)] := by
    rw [processHistory_cons, runCli_of_error (holds_plainDisk pairState next zeros) hfault,
      processHistory_cons, runCli_of_ok (holds_plainDisk pairState next zeros) hnext
        (save_second pairState next (.inl rfl))]
    rfl
  have hwhole : ∀ invocation ∈ [pairSend 0x33 bridgeDown, pairSend 0x44 (.ok ())],
      invocation.Whole := by
    simp [Invocation.Whole, pairSend]
  have hopens : ∀ invocation ∈ [pairSend 0x33 bridgeDown, pairSend 0x44 (.ok ())],
      ¬ invocation.command.Opens (Hex.encode sampleThreadId) := by
    simp [Command.Opens, pairSend]
  obtain ⟨-, hpositions⟩ := published_positions plainEnv (faithful_oneState next)
    (holds_plainDisk pairState next) hwhole pairState_thread hopens
    (show sampleThread.nextSeq.toNat + 2 < 2 ^ 64 by decide)
  have hexposed : envelope ∈ effects.exposed := exposed_of_handed hhanded
  have hexposed' : envelope' ∈ effects'.exposed := exposed_of_handed hhanded'
  clear_value effects effects'
  have hsame := (hpositions [] _ [] _ [] hhistory (by simp [pairSend, Command.sendsIn])
    (by simp [pairSend, Command.sendsIn]) envelope hexposed envelope' hexposed').2
  exact ⟨_, _, _, _, _, hhistory, rfl, rfl, hexposed, hexposed',
    hsame.mpr (by simp [savedSend, Except.isOk, Except.toBool])⟩

end Sample

end Spex.Cli
