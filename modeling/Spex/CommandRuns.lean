import Spex.Authenticity
import Spex.CommandLine

/-!
# Processes that share a state file

Processes that run one after the other act as one session that keeps its state in
memory and takes back what a failed command has done to it: the file that a process
has saved holds its state for the next one, and a process that fails leaves the file
with what it held. What each command can change is said once, for the invariants of
whole runs.
-/
namespace Spex.Cli
open Fallible StateFile Transcript

section Files
variable {libraries : StateLibraries} {environment : Environment} {state : CliState} {disk : Disk}
  {file : EncryptedStateFile} {keyring : Keyring} {State : Type}

/-- A generator that has no bytes to give. -/
def dryRng : SysRng := ⟨fun _ => .error "", fun _ => .error ""⟩

/-- A keyring is left as it is, or is given a key that it did not have. -/
theorem resolveKeychainKey_keyring (libraries : Libraries State) (rng : SysRng)
    (keyring : Keyring) : (resolveKeychainKey libraries rng keyring).2 = keyring ∨
      keyring.getPassword = .error .noEntry := by
  unfold resolveKeychainKey
  cases keyring.entryNew with
  | error message => exact .inl rfl
  | ok _ =>
    cases hpassword : keyring.getPassword with
    | ok password => exact .inl rfl
    | error err =>
      cases err with
      | other message => exact .inl rfl
      | noEntry => exact .inr rfl

theorem not_ok_of_noEntry (libraries : Libraries State) (h : keyring.getPassword = .error .noEntry)
    (bytes : Bytes) : (resolveKeychainKey libraries dryRng keyring).1 ≠ .ok bytes := by
  intro hok
  obtain ⟨-, ⟨password, hpassword, -⟩ | ⟨-, -, key, hdraw, -⟩⟩ :=
    (resolveKeychainKey_spec.1 _).mp hok
  · rw [h] at hpassword
    cases hpassword
  · cases hdraw

/-- A file that opens whatever is drawn asks for no key that would have to be drawn. -/
theorem fileKey_settled {libraries : Libraries State} {found : State}
    (h : ∀ rng, (decryptStateFile libraries environment rng file keyring).1 = .ok found) :
    file.kdf = "argon2id" ∨ file.kdf = "raw" ∧ keyring.getPassword ≠ .error .noEntry := by
  have hdry := h dryRng
  rw [decryptStateFile_fst] at hdry
  obtain ⟨parts, -, hdry⟩ := bind_eq_ok.mp hdry
  obtain ⟨key, hkey, -⟩ := bind_eq_ok.mp hdry
  by_cases hargon : file.kdf = "argon2id"
  · exact .inl hargon
  by_cases hraw : file.kdf = "raw"
  · refine .inr ⟨hraw, fun hnone => ?_⟩
    rw [fileKey_raw hraw] at hkey
    obtain ⟨bytes, hbytes, -⟩ := bind_eq_ok.mp hkey
    exact not_ok_of_noEntry libraries hnone bytes hbytes
  · obtain ⟨message, hunknown⟩ := fileKey_unknown libraries environment dryRng keyring hargon hraw
    rw [hunknown] at hkey
    cases hkey

theorem decrypt_settled {libraries : Libraries State} {found : State}
    (h : ∀ rng, (decryptStateFile libraries environment rng file keyring).1 = .ok found)
    (rng : SysRng) : decryptStateFile libraries environment rng file keyring =
      (.ok found, keyring) := by
  refine Prod.ext (h rng) ?_
  unfold decryptStateFile
  cases hparts : decodeParts libraries file with
  | error fault => rfl
  | ok parts =>
    dsimp only
    rcases fileKey_settled h with hargon | ⟨hraw, hentry⟩
    · rw [fileKey_argon2id hargon]
    · rw [fileKey_raw hraw]
      exact (resolveKeychainKey_keyring libraries rng keyring).resolve_right hentry

variable (libraries environment) in
/-- The state that every process loads from the disk. -/
def Disk.Holds (disk : Disk) (state : CliState) : Prop :=
  ∀ rng, loadState libraries environment rng none disk = (.ok state, disk)

theorem holds_of_decrypts {contents : String}
    (hparse : parseEncryptedStateFile libraries.toLibraries contents = some file)
    (h : ∀ rng, (decryptStateFile libraries.toLibraries environment rng file keyring).1 =
      .ok state) : (Disk.mk (some contents) keyring).Holds libraries environment state := by
  intro rng
  unfold loadState
  dsimp only
  rw [hparse]
  dsimp only
  rw [decrypt_settled h rng]
  rfl

theorem load_of_holds (h : disk.Holds libraries environment state) (rng : SysRng)
    (unreadable : Option String) :
    loadState libraries environment rng unreadable disk = (.ok state, disk) ∨
      ∃ fault, loadState libraries environment rng unreadable disk = (.error fault, disk) := by
  cases unreadable with
  | none => exact .inl (h rng)
  | some message =>
    have hload := h rng
    unfold loadState at hload ⊢
    cases hcontents : disk.contents with
    | none =>
      rw [hcontents] at hload
      exact .inl hload
    | some contents => exact .inr ⟨_, rfl⟩

theorem encryptStateFile_keyring (libraries : Libraries State) (environment : Environment)
    (rng : SysRng) (state : State) (keyring : Keyring) :
    (encryptStateFile libraries environment rng state keyring).2 = keyring ∨
      keyring.getPassword = .error .noEntry := by
  unfold encryptStateFile
  cases drawNonce libraries rng state with
  | error fault => exact .inl rfl
  | ok drawn =>
    dsimp only [resolveStateKeySource]
    split_ifs
    · exact .inl rfl
    · exact resolveKeychainKey_keyring libraries rng keyring

/-- Resolving a key for a write leaves readable what is readable. -/
theorem Disk.Holds.resolved (h : disk.Holds libraries environment state) (rng : SysRng)
    (next : CliState) :
    ({ disk with keyring := (encryptStateFile libraries.toLibraries environment rng next
      disk.keyring).2 } : Disk).Holds libraries environment state := by
  rcases encryptStateFile_keyring libraries.toLibraries environment rng next disk.keyring with
    hsame | hnone
  · rw [hsame]
    exact h
  · obtain ⟨contents, keyring⟩ := disk
    cases contents with
    | none =>
      intro later
      exact congrArg (·, _) (congrArg Prod.fst (h later))
    | some contents =>
      cases hparse : parseEncryptedStateFile libraries.toLibraries contents with
      | none =>
        intro later
        have hload := h later
        unfold loadState at hload ⊢
        dsimp only at hload ⊢
        rw [hparse] at hload ⊢
        exact congrArg (·, _) (congrArg Prod.fst hload)
      | some file =>
        have hopens (later : SysRng) : (decryptStateFile libraries.toLibraries environment later
            file keyring).1 = .ok state := by
          have hload := congrArg Prod.fst (h later)
          unfold loadState at hload
          dsimp only at hload
          rw [hparse] at hload
          exact mapError_eq_ok.mp hload
        have hargon : file.kdf = "argon2id" :=
          (fileKey_settled hopens).resolve_right fun hraw => hraw.2 hnone
        refine holds_of_decrypts hparse fun later => ?_
        have hlater := hopens later
        rw [decryptStateFile_fst, fileKey_argon2id hargon] at hlater ⊢
        exact hlater

/-- What a process has saved, the next one loads. -/
theorem holds_of_saved (hlibraries : libraries.toLibraries.Faithful) {rng : SysRng}
    {contents : String} {after : Keyring}
    (h : encryptStateFile libraries.toLibraries environment rng state keyring =
      (.ok contents, after)) :
    (Disk.mk (some contents) after).Holds libraries environment state := by
  obtain ⟨file, hparse, hopens⟩ := StateFile.decrypt_encrypt hlibraries h
  exact holds_of_decrypts hparse hopens

/-- The write of a process is done, or it leaves the file as it was. -/
def Invocation.Whole (invocation : Invocation) : Prop :=
  ∀ message left, invocation.answer ≠ .torn message left

theorem save_cases (hlibraries : libraries.toLibraries.Faithful)
    (h : disk.Holds libraries environment state) {invocation : Invocation}
    (hwhole : invocation.Whole) (next : CliState) :
    let saved := saveState libraries environment invocation.saveRng invocation.directory
      invocation.answer next disk
    saved.1 = .ok () ∧ saved.2.Holds libraries environment next ∨
      (∃ fault, saved.1 = .error fault) ∧ saved.2.Holds libraries environment state := by
  unfold saveState
  cases invocation.directory with
  | error message => exact .inr ⟨⟨_, rfl⟩, h⟩
  | ok _ =>
    have hresolved := h.resolved invocation.saveRng next
    cases hencrypt : encryptStateFile libraries.toLibraries environment invocation.saveRng next
        disk.keyring with
    | mk result after =>
      rw [hencrypt] at hresolved
      cases result with
      | error fault => exact .inr ⟨⟨_, rfl⟩, hresolved⟩
      | ok contents =>
        cases hanswer : invocation.answer with
        | done => exact .inl ⟨rfl, holds_of_saved hlibraries hencrypt⟩
        | refused message => exact .inr ⟨⟨_, rfl⟩, hresolved⟩
        | torn message left => exact absurd hanswer (hwhole message left)

end Files

section Sessions

/-- What becomes of a process apart from its command: it cannot read the file, it cannot
save, or it can do both. -/
inductive Fate where
  | saved
  | unread (fault : Fault CliError)
  | unsaved (fault : Fault CliError)

/-- One command in a session that keeps the state. -/
def sessionStep (env : CliEnv) (state : CliState) (input : Invocation × Fate) :
    CliOutcome × CliState :=
  let ran := input.1.command.run env state
  match input.2, ran.result with
  | .unread fault, _ => (⟨.error fault, {}⟩, state)
  | _, .error fault => (⟨.error fault, ran.effects⟩, state)
  | .unsaved fault, .ok _ => (⟨.error fault, ran.effects⟩, state)
  | .saved, .ok next => (⟨.ok (), ran.effects⟩, next)

def sessionRun (env : CliEnv) (state : CliState) (inputs : List (Invocation × Fate)) :
    List (Turn CliState (Invocation × Fate) CliOutcome) :=
  transcript (sessionStep env) state inputs

/-- What can be seen of a run: the calls and what came of them. -/
abbrev History := List (Invocation × CliOutcome)

def processHistory (libraries : StateLibraries) (environment : Environment) (env : CliEnv)
    (disk : Disk) (invocations : List Invocation) : History :=
  (cliRun libraries environment env disk invocations).map fun turn => (turn.input, turn.outcome)

def sessionHistory (env : CliEnv) (state : CliState) (inputs : List (Invocation × Fate)) :
    History :=
  (sessionRun env state inputs).map fun turn => (turn.input.1, turn.outcome)

variable {libraries : StateLibraries} {environment : Environment} {env : CliEnv}
  {state : CliState} {disk : Disk} {invocations : List Invocation}

theorem runCli_refines (hlibraries : libraries.toLibraries.Faithful)
    (h : disk.Holds libraries environment state) {invocation : Invocation}
    (hwhole : invocation.Whole) :
    ∃ fate, (sessionStep env state (invocation, fate)).1 =
        (runCli libraries environment env disk invocation).1 ∧
      (runCli libraries environment env disk invocation).2.Holds libraries environment
        (sessionStep env state (invocation, fate)).2 := by
  unfold runCli
  rcases load_of_holds h invocation.loadRng invocation.unreadable with hload | ⟨fault, hload⟩
  · rw [hload]
    dsimp only
    cases hran : (invocation.command.run env state).result with
    | error fault =>
      refine ⟨.saved, ?_⟩
      simp only [sessionStep, hran]
      exact ⟨trivial, h⟩
    | ok next =>
      dsimp only
      rcases save_cases hlibraries h hwhole next with ⟨hsaved, hholds⟩ | ⟨⟨fault, hsaved⟩, hholds⟩
      · refine ⟨.saved, ?_⟩
        simp only [sessionStep, hran, hsaved]
        exact ⟨trivial, hholds⟩
      · refine ⟨.unsaved fault, ?_⟩
        simp only [sessionStep, hran, hsaved]
        exact ⟨trivial, hholds⟩
  · rw [hload]
    exact ⟨.unread fault, rfl, h⟩

variable (env) in
/-- Processes that write the state file whole show what one session shows that keeps the
state in memory and drops what a failed command has done to it. -/
theorem history_of_processes (hlibraries : libraries.toLibraries.Faithful)
    (h : disk.Holds libraries environment state)
    (hwhole : ∀ invocation ∈ invocations, invocation.Whole) :
    ∃ fates : List Fate, fates.length = invocations.length ∧
      processHistory libraries environment env disk invocations =
        sessionHistory env state (invocations.zip fates) ∧
      (final (runCli libraries environment env) disk invocations).Holds libraries environment
        (final (sessionStep env) state (invocations.zip fates)) :=
  refinement (R := fun (disk : Disk) state => disk.Holds libraries environment state) h
    fun invocation hinvocation _ _ hholds =>
      runCli_refines hlibraries hholds (hwhole invocation hinvocation)

variable {inputs : List (Invocation × Fate)}

theorem sessionHistory_cons (input : Invocation × Fate) : sessionHistory env state
    (input :: inputs) = (input.1, (sessionStep env state input).1) ::
      sessionHistory env (sessionStep env state input).2 inputs := rfl

variable (env state) in
/-- What a process lets out is what its command does, unless the state is not read. -/
theorem sessionStep_effects (input : Invocation × Fate) :
    (sessionStep env state input).1.effects = {} ∨
      (sessionStep env state input).1.effects = (input.1.command.run env state).effects := by
  obtain ⟨invocation, fate⟩ := input
  unfold sessionStep
  dsimp only
  cases fate <;> cases (invocation.command.run env state).result <;> simp

variable (env state) in
/-- The state moves on exactly if the process succeeds. -/
theorem sessionStep_cases (input : Invocation × Fate) :
    (sessionStep env state input).1.result.isOk = false ∧
        (sessionStep env state input).2 = state ∨
      (sessionStep env state input).1.result.isOk = true ∧
        (sessionStep env state input).1.effects = (input.1.command.run env state).effects ∧
        (input.1.command.run env state).result = .ok (sessionStep env state input).2 := by
  obtain ⟨invocation, fate⟩ := input
  unfold sessionStep
  dsimp only
  cases fate <;> cases hran : (invocation.command.run env state).result <;>
    simp [Except.isOk, Except.toBool]

theorem forall_mem_zip {fates : List Fate} {p : Invocation → Prop}
    (h : ∀ invocation ∈ invocations, p invocation) :
    ∀ input ∈ invocations.zip fates, p input.1 :=
  fun input hinput => h input.1 (List.of_mem_zip hinput).1

end Sessions

section Changes
variable {env : CliEnv} {state next : CliState} {command : Command}
  {result : CliResult (CliState × Effects)}

/-- Nothing has changed of what decides how messages are sent and received. -/
structure Same (state next : CliState) : Prop where
  identity : next.identity = state.identity
  contacts : next.contacts = state.contacts
  threads : next.threads = state.threads
  logBase64 : next.logBase64 = state.logBase64

/-- The command sends a message in a thread. -/
def Command.sendsIn (thread : String) : Command → Bool
  | .msgSend key .. => key = thread
  | _ => false

/-- The log that a command saves: one with an entry more, or one that is imported. -/
inductive LogChange (env : CliEnv) (state : CliState) : Command → CheckpointLog → Prop
  | appends {command : Command} {log log' : CheckpointLog} {entry : CheckpointEntry}
    (hquiet : ∀ thread, command.sendsIn thread = false)
    (hload : loadCheckpointLog env.sha256 env.logCodec state.log = .ok log)
    (happend : appendEntry env.sha256 log entry = .ok log') : LogChange env state command log'
  | imports {contents : Except String String} {log : CheckpointLog}
    (hread : readLog env contents = .ok log) : LogChange env state (.logImport contents) log

/-- Everything a command that succeeds can do to the state. -/
inductive Change (env : CliEnv) (state : CliState) : Command → CliState → Prop
  | same {command : Command} {next : CliState} (hquiet : ∀ thread, command.sendsIn thread = false)
    (h : Same state next) : Change env state command next
  | created {seed userId deviceId deviceNonce : Bytes} :
    Change env state (.identityNew seed userId deviceId deviceNonce) { state with
      identity := some (createIdentity env seed userId deviceId deviceNonce) }
  | rotated {seed deviceNonce : Bytes} {rotatedAt revokedAt issuedAt : UInt64}
    {rotation : IdentityRotationOutcome} {log : LogState}
    (h : rotateIdentityInState env.sha256 env.logCodec env.verifyKey state.log seed deviceNonce
      rotatedAt revokedAt issuedAt = (.ok rotation, log)) :
    Change env state (.identityRotate seed deviceNonce rotatedAt revokedAt issuedAt)
      (state.putLog log)
  | redeemed {card : String} {now : UInt64} {outcome : ContactRedeemOutcome} {next : CliState}
    (h : redeemContactCardToState env state card now = .ok (outcome, next)) :
    Change env state (.cardRedeem card now) next
  | opened {members : List String} {randomThreadId randomSecret : Bytes} {now : UInt64}
    {threadId : String} {next : CliState}
    (h : createThreadForState env state members randomThreadId randomSecret now =
      .ok (threadId, next)) :
    Change env state (.threadNew members randomThreadId randomSecret now) next
  | sent {thread text : String} {bridgeUrl : Option String} {flags : PeerFlags}
    {course : SendCourse} {dispatch : ThreadMessageDispatch} {outgoing : OutgoingState}
    (h : sendThreadMessageForState env.toCrypto env.manifestJson state.outgoing thread text
      course.nonce.val course.publishedAt course.sentAt = (.ok dispatch, outgoing)) :
    Change env state (.msgSend thread text bridgeUrl flags course) (state.putOutgoing outgoing)
  | logged {command : Command} {log : CheckpointLog} {saved : LogState}
    (hlog : LogChange env state command log)
    (hsave : saveCheckpointLog env.logCodec state.log log = .ok saved) :
    Change env state command (state.putLog saved)

theorem Same.refl (state : CliState) : Same state state := ⟨rfl, rfl, rfl, rfl⟩

theorem ofResult_eq_ok :
    (Ran.ofResult result).result = .ok next ↔ ∃ effects, result = .ok (next, effects) := by
  rw [Ran.ofResult, map_eq_ok]
  constructor
  · rintro ⟨⟨_, effects⟩, h, rfl⟩
    exact ⟨effects, h⟩
  · rintro ⟨effects, h⟩
    exact ⟨_, h, rfl⟩

theorem fromClient_eq_ok {α : Type} {result : ClientResult α} {a : α} :
    fromClient result = .ok a ↔ result = .ok a := mapError_eq_ok

theorem effects_of_ok {effects : Effects} (h : result = .ok (next, effects)) :
    (Ran.ofResult result).effects = effects := by
  rw [h]
  rfl

/-- A command makes a change if every state that it returns is one. -/
theorem change_of_ensures (h : (Ran.ofResult result).result = .ok next)
    (hensures : Ensures (fun returned => Change env state command returned.1) result) :
    Change env state command next := by
  obtain ⟨effects, h⟩ := ofResult_eq_ok.mp h
  exact hensures _ h

theorem change_appendAndSave {entry : CheckpointEntry} (hquiet : ∀ thread,
    command.sendsIn thread = false) :
    Ensures (fun returned => Change env state command returned.2)
      (fromClient (appendAndSave env state entry)) := by
  rintro ⟨log, next⟩ h
  obtain ⟨loaded, hload, h⟩ := bind_eq_ok.mp (fromClient_eq_ok.mp h)
  obtain ⟨log', happend, h⟩ := bind_eq_ok.mp h
  obtain ⟨saved, hsave, h⟩ := bind_eq_ok.mp h
  obtain ⟨rfl, rfl⟩ := Prod.mk.inj (pure_eq_ok.mp h)
  exact .logged (.appends hquiet hload happend) hsave

theorem same_putClient {client : LocalState} (h : client.threads = state.threads) :
    Same state (state.putClient client) := ⟨rfl, rfl, h, rfl⟩

theorem same_putMail {mail : MailState} (h : mail.client.threads = state.threads) :
    Same state (state.putMail mail) := ⟨rfl, rfl, h, rfl⟩

theorem accept_threads {crypto : RequestCrypto} {requestJson : Codec RequestToken}
    {grantJson : SignedGrantToken → Bytes} {client client' : LocalState} {call : RequestCall}
    {result : ClientResult GrantAcceptanceOutcome}
    (h : acceptRequestForStateWithPolicy crypto requestJson grantJson client call =
      (result, client')) : client'.threads = client.threads := by
  have hafter := congrArg (fun accepted => accepted.2.threads) h
  dsimp only at hafter
  rw [← hafter, acceptRequestForStateWithPolicy]
  split
  · rfl
  · split
    · rfl
    · dsimp only
      split_ifs <;> rfl

theorem receiveInboxMessages_threads (crypto : MessageCrypto) (library : Ciborium)
    (client : LocalState) (inboxKey : Bytes) (bridge : Option Bridge.View) :
    (receiveInboxMessages crypto library client inboxKey bridge).2.threads = client.threads := by
  obtain ⟨p2pInbox, hresolved⟩ :=
    resolveInboxFromState_snd crypto.sha256 client inboxKey bridge
  change (resolveInboxFromState crypto.sha256 client inboxKey bridge).2.threads = client.threads
  rw [hresolved]

theorem same_recordedRan {source : InboxSource} {effects : Effects}
    {recorded : ClientResult (List InboxMessageReceipt) × MailState}
    (hclient : recorded.2.client.threads = state.threads)
    (h : recordedRan env state source recorded = .ok (next, effects)) : Same state next := by
  obtain ⟨result, mail⟩ := recorded
  cases result with
  | error fault => cases h
  | ok receipts =>
    obtain ⟨rfl, -⟩ := Prod.mk.inj (Except.ok.inj h)
    exact same_putMail hclient

theorem same_inboxPoll {inboxKey bridgeUrl : Option String} {flags : PeerFlags}
    {course : PollCourse}
    (h : (inboxPoll env state inboxKey bridgeUrl flags course).result = .ok next) :
    Same state next := by
  obtain ⟨effects, h⟩ := ofResult_eq_ok.mp h
  cases inboxKey with
  | none =>
    obtain ⟨rfl, -⟩ := Prod.mk.inj (Except.ok.inj h)
    exact ⟨rfl, rfl, rfl, rfl⟩
  | some inboxKey =>
    obtain ⟨key, -, h⟩ := bind_eq_ok.mp h
    dsimp only at h
    split_ifs at h
    · obtain ⟨_, -, h⟩ := bind_eq_ok.mp h
      obtain ⟨response, -, h⟩ := bind_eq_ok.mp h
      refine same_recordedRan ?_ h
      rw [ingestInboxPayloads, recordEach_client]
      rfl
    · obtain ⟨response, -, h⟩ := bind_eq_ok.mp h
      refine same_recordedRan ?_ h
      rw [recordInboxMessages, recordEach_client]
      dsimp only
      split_ifs
      · rfl
      · exact receiveInboxMessages_threads _ _ _ _ _

theorem change_msgSend {thread text : String} {bridgeUrl : Option String} {flags : PeerFlags}
    {course : SendCourse}
    (h : (msgSend env state thread text bridgeUrl flags course).result = .ok next) :
    Change env state (.msgSend thread text bridgeUrl flags course) next := by
  unfold msgSend at h
  cases hsend : sendThreadMessageForState env.toCrypto env.manifestJson state.outgoing thread text
      course.nonce.val course.publishedAt course.sentAt with
  | mk result outgoing =>
    rw [hsend] at h
    cases result with
    | error fault => cases h
    | ok dispatch =>
      dsimp only at h
      split at h
      · cases h
      · split at h
        · cases h
        · obtain rfl := Except.ok.inj h
          exact .sent hsend

theorem change_logRevokeKey {keyHex : String} {recoveryHex reason : Option String}
    {revokedAt now : UInt64}
    (h : (logRevokeKey env state keyHex recoveryHex reason revokedAt now).result = .ok next) :
    Change env state (.logRevokeKey keyHex recoveryHex reason revokedAt now) next := by
  obtain ⟨effects, h⟩ := ofResult_eq_ok.mp h
  obtain ⟨identity, -, h⟩ := bind_eq_ok.mp h
  obtain ⟨log, hload, h⟩ := bind_eq_ok.mp h
  obtain ⟨entry, -, h⟩ := bind_eq_ok.mp h
  obtain ⟨changed, hchanged, h⟩ := bind_eq_ok.mp h
  rw [fromClient_eq_ok] at hload hchanged
  cases changed with
  | false =>
    obtain ⟨rfl, -⟩ := Prod.mk.inj (pure_eq_ok.mp h)
    exact .same (fun _ => rfl) (.refl _)
  | true =>
    rw [if_pos rfl] at h
    obtain ⟨saved, hsave, h⟩ := bind_eq_ok.mp h
    obtain ⟨rfl, -⟩ := Prod.mk.inj (pure_eq_ok.mp h)
    rcases appendRevocationEntryChecked_cases env.sha256 log identity entry recoveryMaxAgeSeconds
      now with ⟨hfalse, -⟩ | ⟨-, hiff, hlog⟩
    · exact absurd hchanged hfalse
    · have happend : appendEntry env.sha256 log (.revocation entry) =
          .ok (log.append env.sha256 (.revocation entry)).2 := by
        rw [appendEntry, settled, hiff.mp hchanged]
        rfl
      rw [hlog] at hsave
      exact .logged (.appends (fun _ => rfl) hload happend) (fromClient_eq_ok.mp hsave)

/-- A command that succeeds makes one of the changes. -/
theorem change_of_run (h : (command.run env state).result = .ok next) :
    Change env state command next := by
  have hsame {command : Command} (hquiet : ∀ thread, command.sendsIn thread = false) :
      Change env state command state := .same hquiet (.refl state)
  cases command with
  | identityNew seed userId deviceId deviceNonce =>
    exact change_of_ensures h (.bind fun _ _ => .pure .created)
  | identityRotate seed deviceNonce rotatedAt revokedAt issuedAt =>
    change (identityRotate env state seed deviceNonce rotatedAt revokedAt issuedAt).result = _ at h
    unfold identityRotate at h
    cases hrotate : rotateIdentityInState env.sha256 env.logCodec env.verifyKey state.log seed
        deviceNonce rotatedAt revokedAt issuedAt with
    | mk result log =>
      rw [hrotate] at h
      cases result with
      | error fault => cases h
      | ok rotation =>
        dsimp only at h
        split at h
        · cases h
        · obtain rfl := Except.ok.inj h
          exact .rotated hrotate
  | cardCreate now =>
    exact change_of_ensures h (.bind fun _ _ => .bind fun _ _ => .pure (hsame fun _ => rfl))
  | cardRedeem card now =>
    exact change_of_ensures h (.bind fun _ hredeem =>
      .pure (.redeemed (fromClient_eq_ok.mp hredeem)))
  | requestSend toUserId role nonce now =>
    obtain ⟨effects, h⟩ := ofResult_eq_ok.mp h
    split at h
    · cases h
    · obtain ⟨rfl, -⟩ := Prod.mk.inj (Except.ok.inj h)
      exact .same (fun _ => rfl) ⟨rfl, rfl, rfl, rfl⟩
  | grantAccept request now clock =>
    obtain ⟨effects, h⟩ := ofResult_eq_ok.mp h
    split at h
    · cases h
    · rename_i outcome client haccept
      obtain ⟨rfl, -⟩ := Prod.mk.inj (Except.ok.inj h)
      exact .same (fun _ => rfl) (same_putClient (accept_threads haccept))
  | grantDeny request => exact change_of_ensures h (.bind fun _ _ => .pure (hsame fun _ => rfl))
  | threadNew members randomThreadId randomSecret now =>
    exact change_of_ensures h (.bind fun _ hopen => .pure (.opened (fromClient_eq_ok.mp hopen)))
  | msgSend thread text bridgeUrl flags course => exact change_msgSend h
  | inboxPoll inboxKey bridgeUrl flags course => exact .same (fun _ => rfl) (same_inboxPoll h)
  | logAppendCheckpoint now =>
    exact change_of_ensures h (.bind fun _ _ => .bind fun _ _ => .bind fun returned happend =>
      .pure (change_appendAndSave (fun _ => rfl) returned happend))
  | logCreateRecoveryKey recoveryKey now =>
    exact change_of_ensures h (.bind fun _ _ => .bind fun _ _ => .bind fun returned happend =>
      .pure (change_appendAndSave (fun _ => rfl) returned happend))
  | logRevokeKey keyHex recoveryHex reason revokedAt now => exact change_logRevokeKey h
  | logExport path written =>
    exact change_of_ensures h (.bind fun _ _ => .bind fun _ _ => .bind fun _ _ =>
      .pure (hsame fun _ => rfl))
  | logExportAbuse path records written =>
    exact change_of_ensures h (.bind fun _ _ => .bind fun _ _ => .pure (hsame fun _ => rfl))
  | logImport contents =>
    exact change_of_ensures h (.bind fun _ hread => .bind fun _ hsave =>
      .pure (.logged (.imports hread) (fromClient_eq_ok.mp hsave)))
  | logGossipVerify contents =>
    exact change_of_ensures h (.bind fun _ _ => .bind fun _ _ => .bind fun _ _ => .bind fun _ _ =>
      .pure (hsame fun _ => rfl))
  | logInfo =>
    exact change_of_ensures h (.bind fun _ _ => .bind fun _ _ => .pure (hsame fun _ => rfl))

end Changes
end Spex.Cli
