import Spex.CommandPositions

/-!
# The log and the contacts of a state file

Exports of the log can be compared with the log of the state file at any later time,
and a contact can be redeemed again with another key. Nothing but an import takes
entries out of the log, and nothing but a redeemed card changes the key of a contact,
which prints an alert.
-/
namespace Spex.Cli
open Fallible StateFile Transcript

section Logs
variable {env : CliEnv} {state next : CliState} {command : Command} {log : CheckpointLog}

/-- The text of a log is never empty. -/
def LogCodec.Visible (codec : LogCodec) : Prop :=
  ∀ entries, codec.encode entries ≠ .ok []

theorem LogCodec.Visible.nonempty {codec : LogCodec} (hvisible : LogCodec.Visible codec)
    (entries : List CheckpointEntry) (bytes : Bytes) (h : codec.encode entries = .ok bytes) :
    bytes ≠ [] := by
  rintro rfl
  exact hvisible entries h

theorem load_saved (hcodec : env.logCodec.RoundTrips) (hvisible : LogCodec.Visible env.logCodec)
    (hlog : log.Synced env.sha256) {before saved : LogState}
    (h : saveCheckpointLog env.logCodec before log = .ok saved) :
    loadCheckpointLog env.sha256 env.logCodec saved = .ok log := by
  obtain ⟨bytes, hbytes, rfl⟩ := saveCheckpointLog_eq_ok.mp h
  exact load_written before hcodec hvisible.nonempty hlog hbytes

/-- The log of a state, if it can be read, is the beginning of the log of another. -/
def Grows (env : CliEnv) (state next : CliState) : Prop :=
  ∀ log, loadCheckpointLog env.sha256 env.logCodec state.log = .ok log →
    ∃ log', loadCheckpointLog env.sha256 env.logCodec next.log = .ok log' ∧
      log.entries <+: log'.entries

theorem Grows.refl (state : CliState) : Grows env state state :=
  fun log hload => ⟨log, hload, List.prefix_refl _⟩

theorem Grows.trans {middle : CliState} (h : Grows env state middle) (h' : Grows env middle next) :
    Grows env state next := by
  intro log hload
  obtain ⟨log₁, hload₁, hgrown⟩ := h log hload
  obtain ⟨log₂, hload₂, hgrown'⟩ := h' log₁ hload₁
  exact ⟨log₂, hload₂, hgrown.trans hgrown'⟩

theorem grows_of_text (h : next.logBase64 = state.logBase64) : Grows env state next := by
  intro log hload
  refine ⟨log, ?_, List.prefix_refl _⟩
  have htext : next.log.logBase64 = state.log.logBase64 := h
  unfold loadCheckpointLog at hload ⊢
  rwa [htext]

theorem grows_of_rotated (hcodec : env.logCodec.RoundTrips)
    (hvisible : LogCodec.Visible env.logCodec) {seed deviceNonce : Bytes}
    {rotatedAt revokedAt issuedAt : UInt64} {rotation : IdentityRotationOutcome} {saved : LogState}
    (h : rotateIdentityInState env.sha256 env.logCodec env.verifyKey state.log seed deviceNonce
      rotatedAt revokedAt issuedAt = (.ok rotation, saved)) :
    Grows env state (state.putLog saved) := by
  unfold rotateIdentityInState at h
  split at h
  · cases (Prod.mk.inj h).1
  · dsimp only at h
    split at h
    · cases (Prod.mk.inj h).1
    · rename_i hrotate
      obtain ⟨-, rfl⟩ := Prod.mk.inj h
      obtain ⟨_, -, hrotate⟩ := bind_eq_ok.mp hrotate
      obtain ⟨_, -, hrotate⟩ := bind_eq_ok.mp hrotate
      obtain ⟨_, -, hrotate⟩ := bind_eq_ok.mp hrotate
      obtain ⟨_, -, hrotate⟩ := bind_eq_ok.mp hrotate
      obtain ⟨loaded, hload, hrotate⟩ := bind_eq_ok.mp hrotate
      obtain ⟨rotated, hrotated, hsave⟩ := bind_eq_ok.mp hrotate
      obtain ⟨hsynced, hentries⟩ := extend_eq_ok (synced_load hload) hrotated
      intro log hlog
      obtain rfl : loaded = log := Except.ok.inj (hload.symm.trans hlog)
      exact ⟨rotated, load_saved hcodec hvisible hsynced hsave, hentries ▸ List.prefix_append _ _⟩

/-- Only an import takes entries out of the log. -/
theorem grows_of_change (hcodec : env.logCodec.RoundTrips)
    (hvisible : LogCodec.Visible env.logCodec) (h : Change env state command next)
    (himport : ∀ contents, command ≠ .logImport contents) :
    Grows env state next := by
  cases h with
  | same hquiet hsame => exact grows_of_text hsame.logBase64
  | created => exact grows_of_text rfl
  | rotated hrotate => exact grows_of_rotated hcodec hvisible hrotate
  | redeemed hredeem =>
    obtain ⟨card, -, hredeem⟩ := bind_eq_ok.mp hredeem
    obtain ⟨-, rfl⟩ := Prod.mk.inj (pure_eq_ok.mp hredeem)
    exact grows_of_text rfl
  | opened hopen =>
    obtain ⟨created, rfl⟩ := state_of_open hopen
    exact grows_of_text rfl
  | sent hsend => exact grows_of_text rfl
  | logged hlog hsave =>
    cases hlog with
    | appends hquiet hload happend =>
      obtain ⟨hsynced, hentries⟩ := appendEntry_eq_ok (synced_load hload) happend
      intro log hlog
      obtain rfl := Except.ok.inj (hload.symm.trans hlog)
      exact ⟨_, load_saved hcodec hvisible hsynced hsave, hentries ▸ List.prefix_append _ _⟩
    | imports hread => exact absurd rfl (himport _)

theorem session_grows (hcodec : env.logCodec.RoundTrips) (hvisible : LogCodec.Visible env.logCodec)
    {inputs : List (Invocation × Fate)} (himports : ∀ event ∈ sessionHistory env state inputs,
      ∀ contents, event.1.command ≠ .logImport contents) :
    Grows env state (final (sessionStep env) state inputs) := by
  induction inputs generalizing state with
  | nil => exact .refl state
  | cons input inputs ih =>
    rw [sessionHistory_cons, List.forall_mem_cons] at himports
    have hstep : Grows env state (sessionStep env state input).2 := by
      rcases sessionStep_cases env state input with ⟨-, hsame⟩ | ⟨-, -, hrun⟩
      · rw [hsame]
        exact .refl state
      · exact grows_of_change hcodec hvisible (change_of_run hrun) himports.1
    exact hstep.trans (ih himports.2)

variable {libraries : StateLibraries} {environment : Environment} {disk : Disk}
  {invocations : List Invocation}

/-- The text is an export of the log of the state. -/
def Exports (env : CliEnv) (state : CliState) (text : String) : Prop :=
  ∃ log bytes, loadCheckpointLog env.sha256 env.logCodec state.log = .ok log ∧
    log.toCborBytes env.logCodec = .ok bytes ∧ text = Base64.encode bytes

theorem exported_of_run {path path' text : String} {written : Except String Unit}
    (h : (path', text) ∈ (logExport env state path written).effects.written) :
    Exports env state text := by
  unfold logExport at h
  cases hload : loadCheckpointLog env.sha256 env.logCodec state.log with
  | error fault =>
    rw [hload] at h
    cases h
  | ok log =>
    cases hbytes : log.toCborBytes env.logCodec with
    | error err =>
      simp only [hload, fromClient, Except.mapError, ok_bind, CheckpointLog.exportBase64, hbytes,
        error_bind] at h
      cases h
    | ok bytes =>
      refine ⟨log, bytes, hload, hbytes, ?_⟩
      simp only [hload, fromClient, Except.mapError, ok_bind, CheckpointLog.exportBase64, hbytes]
        at h
      cases written with
      | error message => cases h
      | ok _ =>
        obtain ⟨-, rfl⟩ := Prod.mk.inj (List.mem_singleton.mp h)
        rfl

/-- A comparison that is printed is one of the log of the state with the log of the file. -/
theorem verdict_of_run {contents : String}
    (h : (logGossipVerify env state (.ok contents)).result = .ok next) :
    ∃ remote kept, CheckpointLog.importBase64 env.sha256 env.logCodec (trim contents) = .ok remote ∧
      loadCheckpointLog env.sha256 env.logCodec state.log = .ok kept ∧
      (logGossipVerify env state (.ok contents)).effects.lines.getLast? =
        some ("consistency: " ++ consistencyName (kept.compareWith remote)) := by
  obtain ⟨effects, hresult⟩ := ofResult_eq_ok.mp h
  have heffects : (logGossipVerify env state (.ok contents)).effects = effects :=
    effects_of_ok hresult
  rw [heffects]
  obtain ⟨remote, hremote, hresult⟩ := bind_eq_ok.mp hresult
  obtain ⟨kept, hkept, hresult⟩ := bind_eq_ok.mp hresult
  obtain ⟨localRoot, -, hresult⟩ := bind_eq_ok.mp hresult
  obtain ⟨remoteRoot, -, hresult⟩ := bind_eq_ok.mp hresult
  obtain ⟨-, rfl⟩ := Prod.mk.inj (pure_eq_ok.mp hresult)
  obtain ⟨encoded, hencoded, hremote⟩ := bind_eq_ok.mp hremote
  obtain rfl : contents = encoded := Except.ok.inj hencoded
  refine ⟨remote, kept, mapError_eq_ok.mp (fromClient_eq_ok.mp hremote), fromClient_eq_ok.mp hkept,
    ?_⟩
  simp only [Effects.print, List.getLast?_cons_cons, List.getLast?_singleton]

/-- A log that a process has exported is never found ahead of the log of the state file, nor
in conflict with it, by a later process, as long as no process in between has imported a
log. -/
theorem exported_log_never_diverges (hlibraries : libraries.toLibraries.Faithful)
    (hcodec : env.logCodec.RoundTrips) (hvisible : LogCodec.Visible env.logCodec)
    (hholds : disk.Holds libraries environment state)
    (hwhole : ∀ invocation ∈ invocations, invocation.Whole)
    {past between rest : History} {exported verified : Invocation × CliOutcome}
    (hhistory : processHistory libraries environment env disk invocations =
      past ++ exported :: (between ++ verified :: rest))
    {path path' text contents : String} {written : Except String Unit}
    (hexport : exported.1.command = .logExport path written)
    (hwritten : (path', text) ∈ exported.2.effects.written)
    (himports : ∀ event ∈ between, ∀ contents, event.1.command ≠ .logImport contents)
    (hverify : verified.1.command = .logGossipVerify (.ok contents)) (htext : trim contents = text)
    (hok : verified.2.result = .ok ()) :
    verified.2.effects.lines.getLast? = some "consistency: identical" ∨
      verified.2.effects.lines.getLast? = some "consistency: local-ahead" := by
  obtain ⟨fates, -, hsession, -⟩ := history_of_processes env hlibraries hholds hwhole
  rw [hsession] at hhistory
  obtain ⟨before, input, after, -, -, rfl, hrest⟩ := split_of_map hhistory
  obtain ⟨middle, input', last, rfl, rfl, rfl, -⟩ := split_of_map hrest.symm
  set first := final (sessionStep env) state before
  dsimp only at hexport hwritten hverify hok ⊢
  have hexported : Exports env first text := by
    rcases sessionStep_effects env first input with hnone | heffects
    · rw [hnone] at hwritten
      cases hwritten
    · rw [heffects, hexport] at hwritten
      exact exported_of_run hwritten
  obtain ⟨log, bytes, hload, hbytes, rfl⟩ := hexported
  have hgrows : Grows env first
      (final (sessionStep env) (sessionStep env first input).2 middle) := by
    have hall : ∀ event ∈ sessionHistory env first (input :: middle), ∀ contents,
        event.1.command ≠ .logImport contents :=
      List.forall_mem_cons.mpr ⟨by simp [hexport], himports⟩
    exact session_grows hcodec hvisible hall
  generalize final (sessionStep env) (sessionStep env first input).2 middle = second at hgrows hok ⊢
  rcases sessionStep_cases env second input' with ⟨hfails, -⟩ | ⟨-, heffects, hrun⟩
  · rw [hok] at hfails
    cases hfails
  rw [heffects, hverify]
  rw [hverify] at hrun
  obtain ⟨remote, kept, hremote, hkept, hverdict⟩ := verdict_of_run hrun
  obtain ⟨_, hkept', hgrown⟩ := hgrows log hload
  obtain rfl := Except.ok.inj (hkept.symm.trans hkept')
  rw [htext, (synced_load hload).importBase64_eq hcodec hbytes] at hremote
  obtain rfl := Except.ok.inj hremote
  have hlast := hverdict
  by_cases hsame : log.entries = kept.entries
  · left
    rw [CheckpointLog.compareWith_identical_iff.mpr hsame.symm] at hlast
    exact hlast
  · right
    rw [CheckpointLog.compareWith_localAhead_iff.mpr ⟨hgrown, hsame⟩] at hlast
    exact hlast

/-- A state with an identity and an empty log. -/
def loneState : CliState := { identity := some ⟨⟨sampleIdentity, ""⟩, "", ""⟩ }

/-- A process with its command, and what comes of the directory of the state file. -/
def plainCall (command : Command) (directory : Except String Unit) : Invocation where
  command
  directory
  loadRng := zeros
  saveRng := zeros
  answer := .done

/-- The outcome of a command whose state is saved. -/
noncomputable def savedOutcome (state : CliState) (command : Command) : CliOutcome :=
  ⟨.ok (), (command.run plainEnv state).effects⟩

theorem runCli_plainCall {first second state : CliState} {disk : Disk} {command : Command}
    (hholds : disk.Holds (twoStates first second) noPassphrase state)
    (hdisk : disk = plainDisk ∨ disk = savedDisk)
    (hrun : (command.run plainEnv state).result = .ok second) :
    runCli (twoStates first second) noPassphrase plainEnv disk (plainCall command (.ok ())) =
      (savedOutcome state command, savedDisk) :=
  runCli_of_ok (hholds zeros) hrun (save_second first second hdisk)

/-- An export of a process that cannot save its state. -/
def exportCall : Invocation := plainCall (.logExport "log" (.ok ())) (.error "read-only")

/-- The text of the empty log, as bytes a map of no entries. -/
def emptyLogText : String := "oWdlbnRyaWVzgA=="

def exportOutcome : CliOutcome := ⟨.error (.returned (.file (.io "read-only"))),
  { lines := ["log exported"], written := [("log", emptyLogText)] }⟩

def recovery : Command := .logCreateRecoveryKey [5] 1700000000

def verification : Command := .logGossipVerify (.ok emptyLogText)

/-- The state with a recovery key in its log. -/
noncomputable def loggedState : CliState :=
  (recovery.run plainEnv loneState).result.toOption.getD loneState

theorem recovery_succeeds : (recovery.run plainEnv loneState).result = .ok loggedState := by
  have hok : (recovery.run plainEnv loneState).result.isOk = true := by decide +kernel
  obtain ⟨next, hnext⟩ := isOk_iff.mp hok
  rw [loggedState, hnext]
  rfl

theorem verification_finds_ahead : (verification.run plainEnv loggedState).result.isOk = true ∧
    (verification.run plainEnv loggedState).effects.lines.getLast? =
      some "consistency: local-ahead" := by
  decide +kernel

theorem verification_succeeds :
    (verification.run plainEnv loggedState).result = .ok loggedState := by
  obtain ⟨next, hnext⟩ := isOk_iff.mp verification_finds_ahead.1
  obtain ⟨effects, hresult⟩ := ofResult_eq_ok.mp hnext
  obtain ⟨_, -, hresult⟩ := bind_eq_ok.mp hresult
  obtain ⟨_, -, hresult⟩ := bind_eq_ok.mp hresult
  obtain ⟨_, -, hresult⟩ := bind_eq_ok.mp hresult
  obtain ⟨_, -, hresult⟩ := bind_eq_ok.mp hresult
  rw [hnext, (Prod.mk.inj (pure_eq_ok.mp hresult)).1]

/-- An export, a new recovery key and a comparison with the export. -/
def logCalls : List Invocation :=
  [exportCall, plainCall recovery (.ok ()), plainCall verification (.ok ())]

noncomputable def logHistory : History :=
  [(exportCall, exportOutcome), (plainCall recovery (.ok ()), savedOutcome loneState recovery),
    (plainCall verification (.ok ()), savedOutcome loggedState verification)]

theorem history_logCalls : processHistory (twoStates loneState loggedState) noPassphrase plainEnv
    plainDisk logCalls = logHistory := by
  have hexport : runCli (twoStates loneState loggedState) noPassphrase plainEnv plainDisk
      exportCall = (exportOutcome, plainDisk) := rfl
  rw [logCalls, processHistory_cons, hexport, processHistory_cons,
    runCli_plainCall (holds_plainDisk loneState loggedState) (.inl rfl) recovery_succeeds,
    processHistory_cons,
    runCli_plainCall (holds_savedDisk loneState loggedState) (.inr rfl) verification_succeeds]
  rfl

theorem visible_readerLibrary : LogCodec.Visible readerLibrary.codec :=
  fun entries h => nonempty_readerLibrary entries [] h rfl

/-- A recovery key that is added after an export puts the log ahead of it. -/
theorem log_ahead_of_export :
    processHistory (twoStates loneState loggedState) noPassphrase plainEnv plainDisk logCalls =
      logHistory ∧
    (savedOutcome loggedState verification).effects.lines.getLast? =
      some "consistency: local-ahead" := by
  have hwhole : ∀ invocation ∈ logCalls, invocation.Whole := by
    simp [Invocation.Whole, logCalls, exportCall, plainCall]
  have hwritten : ("log", emptyLogText) ∈ exportOutcome.effects.written :=
    List.mem_singleton_self _
  have himports : ∀ event ∈ [(plainCall recovery (.ok ()), savedOutcome loneState recovery)],
      ∀ contents, event.1.command ≠ .logImport contents := by
    simp [recovery, plainCall]
  have hcodec : plainEnv.logCodec.RoundTrips := roundTrips_readerLibrary
  have hverdict := exported_log_never_diverges (faithful_oneState loggedState) hcodec
    visible_readerLibrary (holds_plainDisk loneState loggedState) hwhole
    (history_logCalls.trans (List.nil_append _).symm) rfl hwritten himports rfl (by decide) rfl
  have hahead : (savedOutcome loggedState verification).effects.lines.getLast? =
      some "consistency: local-ahead" := verification_finds_ahead.2
  have hnot : (savedOutcome loggedState verification).effects.lines.getLast? ≠
      some "consistency: identical" := by
    rw [hahead]
    decide
  exact ⟨history_logCalls, hverdict.resolve_left hnot⟩

end Logs

section Contacts
variable {env : CliEnv} {state next : CliState} {command : Command} {user : String}
  {contact : KnownContact}

/-- Every contact is kept with the fingerprint of its key. -/
def Sound (env : CliEnv) (state : CliState) : Prop :=
  ∀ user contact, state.contacts user = some contact →
    ∃ key, contact.verifyingKeyHex = Hex.encode key ∧ contact.fingerprint = fingerprintHex env key

/-- A process has printed that the key with a fingerprint takes the place of another. -/
def Alerted (history : History) (fingerprint : String) : Prop :=
  ∃ event ∈ history, ∃ previous, previous ≠ fingerprint ∧
    alert keyChangedReason previous fingerprint ∈ event.2.effects.lines

theorem contacts_of_change (h : Change env state command next)
    (hredeem : ∀ card now, command ≠ .cardRedeem card now) : next.contacts = state.contacts := by
  cases h with
  | same hquiet hsame => exact hsame.contacts
  | created => rfl
  | rotated hrotate => rfl
  | redeemed hredeemed => exact absurd rfl (hredeem _ _)
  | opened hopen =>
    obtain ⟨created, rfl⟩ := state_of_open hopen
    rfl
  | sent hsend => rfl
  | logged hlog hsave => rfl

/-- What a card that is redeemed puts in the place of a contact, and what is printed. -/
theorem redeemed_of_run {card : String} {now : UInt64}
    (h : (cardRedeem env state card now).result = .ok next) :
    ∃ owner key kept, next.contacts = Function.update state.contacts owner (some kept) ∧
      kept.verifyingKeyHex = Hex.encode key ∧ kept.fingerprint = fingerprintHex env key ∧
      ∀ contact, state.contacts owner = some contact → contact.fingerprint ≠ kept.fingerprint →
        alert keyChangedReason contact.fingerprint kept.fingerprint ∈
          (cardRedeem env state card now).effects.lines := by
  obtain ⟨effects, hresult⟩ := ofResult_eq_ok.mp h
  have heffects : (cardRedeem env state card now).effects = effects := effects_of_ok hresult
  rw [heffects]
  obtain ⟨⟨outcome, redeemed⟩, hredeem, hresult⟩ := bind_eq_ok.mp hresult
  obtain ⟨rfl, rfl⟩ := Prod.mk.inj (pure_eq_ok.mp hresult)
  obtain ⟨parsed, -, hredeem⟩ := bind_eq_ok.mp (fromClient_eq_ok.mp hredeem)
  obtain ⟨rfl, rfl⟩ := Prod.mk.inj (pure_eq_ok.mp hredeem)
  refine ⟨_, parsed.verifyingKey, _, rfl, rfl, rfl, fun contact hcontact hchanged => ?_⟩
  simp [Effects.print, ContactRedeemOutcome.alerts, ContactRedeemOutcome.failureReason, hcontact,
    hchanged]

/-- The user is still a contact, with the same fingerprint or with one that was announced. -/
def Known (env : CliEnv) (user : String) (contact : KnownContact) (history : History)
    (next : CliState) : Prop :=
  Sound env next ∧ ∃ kept, next.contacts user = some kept ∧
    (kept.fingerprint = contact.fingerprint ∨ Alerted history kept.fingerprint)

theorem known_of_same (hsound : Sound env state) (hcontact : state.contacts user = some contact)
    (history : History) (h : next.contacts = state.contacts) :
    Known env user contact history next := by
  rw [Known, Sound, h]
  exact ⟨hsound, contact, hcontact, .inl rfl⟩

theorem contact_of_step (hsound : Sound env state) (input : Invocation × Fate)
    (hcontact : state.contacts user = some contact) :
    Known env user contact [(input.1, (sessionStep env state input).1)]
      (sessionStep env state input).2 := by
  rcases sessionStep_cases env state input with ⟨-, hstate⟩ | ⟨-, heffects, hrun⟩
  · exact known_of_same hsound hcontact _ (by rw [hstate])
  by_cases hredeem : ∃ card now, input.1.command = .cardRedeem card now
  · obtain ⟨card, now, hcommand⟩ := hredeem
    rw [hcommand] at heffects hrun
    obtain ⟨owner, key, kept, hcontacts, hkey, hfingerprint, halert⟩ := redeemed_of_run hrun
    rw [Known, Sound, hcontacts]
    constructor
    · intro other known hknown
      by_cases hother : other = owner
      · subst hother
        rw [Function.update_self] at hknown
        exact Option.some.inj hknown ▸ ⟨key, hkey, hfingerprint⟩
      · rw [Function.update_of_ne hother] at hknown
        exact hsound other known hknown
    · by_cases howner : user = owner
      · subst howner
        refine ⟨kept, Function.update_self .., ?_⟩
        by_cases hchanged : contact.fingerprint = kept.fingerprint
        · exact .inl hchanged.symm
        · refine .inr ⟨_, List.mem_singleton_self _, contact.fingerprint, hchanged, ?_⟩
          rw [heffects]
          exact halert contact hcontact hchanged
      · exact ⟨contact, (Function.update_of_ne howner _ _).trans hcontact, .inl rfl⟩
  · have hquiet : ∀ card now, input.1.command ≠ .cardRedeem card now :=
      fun card now hcommand => hredeem ⟨card, now, hcommand⟩
    exact known_of_same hsound hcontact _ (contacts_of_change (change_of_run hrun) hquiet)

theorem Alerted.mono {history history' : History} {fingerprint : String}
    (h : Alerted history fingerprint) (hsub : history ⊆ history') :
    Alerted history' fingerprint := by
  obtain ⟨event, hevent, hprinted⟩ := h
  exact ⟨event, hsub hevent, hprinted⟩

theorem session_contact (inputs : List (Invocation × Fate)) (hsound : Sound env state)
    (hcontact : state.contacts user = some contact) :
    Known env user contact (sessionHistory env state inputs)
      (final (sessionStep env) state inputs) := by
  induction inputs generalizing state contact with
  | nil => exact known_of_same hsound hcontact _ rfl
  | cons input inputs ih =>
    obtain ⟨hsound', middle, hmiddle, hstep⟩ := contact_of_step hsound input hcontact
    obtain ⟨hafter, kept, hkept, hrun⟩ := ih hsound' hmiddle
    refine ⟨hafter, kept, hkept, ?_⟩
    rw [sessionHistory_cons]
    rcases hrun with hfingerprint | halerted
    · rw [hfingerprint]
      exact hstep.imp_right fun h => h.mono (by simp)
    · exact .inr (halerted.mono (List.subset_cons_self _ _))

theorem contact_of_resolve {key : Bytes} (hsound : Sound env state)
    (hother : ∀ identity ∈ state.identity, identity.userIdHex ≠ user)
    (h : resolveSenderVerifyingKey state.client user = .ok key) :
    ∃ contact, state.contacts user = some contact ∧
      contact.fingerprint = fingerprintHex env key := by
  have hidentity : (state.client.identity.filter fun identity => identity.userIdHex = user) =
      none := by
    rw [Option.filter_eq_none_iff]
    intro identity hidentity
    obtain ⟨own, hown, rfl⟩ := Option.map_eq_some_iff.mp hidentity
    simpa using hother own hown
  rw [resolveSenderVerifyingKey, hidentity] at h
  cases hcontact : state.contacts user with
  | none => simp [CliState.client, hcontact] at h
  | some contact =>
    obtain ⟨kept, hhex, hfingerprint⟩ := hsound user contact hcontact
    simp only [CliState.client, hcontact, Option.map_some, hhex] at h
    obtain ⟨bytes, hbytes, h⟩ := bind_eq_ok.mp h
    obtain ⟨_, -, h⟩ := bind_eq_ok.mp h
    obtain rfl := pure_eq_ok.mp h
    rw [hexDecode, Hex.decode_encode] at hbytes
    obtain rfl := Except.ok.inj hbytes
    exact ⟨contact, rfl, hfingerprint⟩

variable {libraries : StateLibraries} {environment : Environment} {disk : Disk}
  {invocations : List Invocation}

/-- A contact is never lost. A message of it is checked with the key it was checked with
before, or a process in between has printed that the key is a new one, unless two keys have
one digest. -/
theorem key_change_announced (hlibraries : libraries.toLibraries.Faithful)
    (hholds : disk.Holds libraries environment state) (hsound : Sound env state)
    (hwhole : ∀ invocation ∈ invocations, invocation.Whole) {after : CliState}
    (hafter : (final (runCli libraries environment env) disk invocations).Holds libraries
      environment after)
    (hother : ∀ identity ∈ state.identity, identity.userIdHex ≠ user) {key : Bytes}
    (hkey : resolveSenderVerifyingKey state.client user = .ok key) :
    (∃ kept, after.contacts user = some kept) ∧
      ∀ key', (∀ identity ∈ after.identity, identity.userIdHex ≠ user) →
        resolveSenderVerifyingKey after.client user = .ok key' →
          key' = key ∨
            Alerted (processHistory libraries environment env disk invocations)
              (fingerprintHex env key') ∨
            key ≠ key' ∧ env.sha256 key = env.sha256 key' := by
  obtain ⟨fates, -, hhistory, hfinal⟩ := history_of_processes env hlibraries hholds hwhole
  have hstate : after = final (sessionStep env) state (invocations.zip fates) :=
    Except.ok.inj (Prod.mk.inj ((hafter dryRng).symm.trans (hfinal dryRng))).1
  obtain ⟨contact, hcontact, hfingerprint⟩ := contact_of_resolve hsound hother hkey
  obtain ⟨hsound', kept, hkept, hrun⟩ :=
    session_contact (invocations.zip fates) hsound hcontact
  rw [← hstate] at hsound' hkept
  refine ⟨⟨kept, hkept⟩, fun key' hother' hkey' => ?_⟩
  obtain ⟨kept', hkept', hfingerprint'⟩ := contact_of_resolve hsound' hother' hkey'
  obtain rfl := Option.some.inj (hkept.symm.trans hkept')
  rw [hfingerprint', hfingerprint] at hrun
  rcases hrun with hequal | halerted
  · by_cases hkeys : key' = key
    · exact .inl hkeys
    · exact .inr (.inr ⟨Ne.symm hkeys, (Hex.encode_injective hequal).symm⟩)
  · rw [hhistory]
    exact .inr (.inl halerted)

/-- A state that knows the user 0xbb with a first key. -/
noncomputable def trustingState : CliState where
  contacts user := if user = "bb" then
    some ⟨⟨"bb", Hex.encode oldKey⟩, fingerprintHex plainEnv oldKey, "04", 1700000000⟩ else none

theorem sound_trustingState : Sound plainEnv trustingState := by
  intro user contact hcontact
  simp only [trustingState] at hcontact
  split_ifs at hcontact
  obtain rfl := Option.some.inj hcontact
  exact ⟨_, rfl, rfl⟩

/-- The bytes of an unsigned card of the user 0xbb with a second key. -/
def newCard : Bytes :=
  [0xa5, 0x00, 0x41, 0xbb, 0x01, 0x58, 0x20] ++ newKey ++
    [0x02, 0x41, 0x04, 0x03, 0x41, 0x05, 0x04, 0x00]

def redeeming : Command := .cardRedeem (Base64.encode newCard) 1700000001

theorem redeeming_succeeds : ∃ next, (redeeming.run plainEnv trustingState).result = .ok next ∧
    next.identity = none ∧ resolveSenderVerifyingKey next.client "bb" = .ok newKey := by
  have hok : (redeeming.run plainEnv trustingState).result.isOk = true := by decide +kernel
  obtain ⟨next, hnext⟩ := isOk_iff.mp hok
  have hkey : (redeeming.run plainEnv trustingState).result.toOption.map (fun next =>
      (next.identity.isNone, resolveSenderVerifyingKey next.client "bb")) =
        some (true, .ok newKey) := by
    decide +kernel
  rw [hnext] at hkey
  obtain ⟨hidentity, hkey⟩ := Prod.mk.inj (Option.some.inj hkey)
  exact ⟨next, hnext, Option.isNone_iff_eq_none.mp hidentity, hkey⟩

/-- A card with another key is redeemed without a question, but not without an alert. -/
theorem changed_card_announced : ∃ next kept, next.contacts "bb" = some kept ∧
    Alerted (processHistory (twoStates trustingState next) noPassphrase plainEnv plainDisk
      [plainCall redeeming (.ok ())]) (fingerprintHex plainEnv newKey) := by
  obtain ⟨next, hrun, hidentity, hkey⟩ := redeeming_succeeds
  have hwhole : ∀ invocation ∈ [plainCall redeeming (.ok ())], invocation.Whole := by
    simp [Invocation.Whole, plainCall]
  have hafter : (final (runCli (twoStates trustingState next) noPassphrase plainEnv) plainDisk
      [plainCall redeeming (.ok ())]).Holds (twoStates trustingState next) noPassphrase next := by
    change (runCli (twoStates trustingState next) noPassphrase plainEnv plainDisk
      (plainCall redeeming (.ok ()))).2.Holds _ _ _
    rw [runCli_plainCall (holds_plainDisk trustingState next) (.inl rfl) hrun]
    exact holds_savedDisk trustingState next
  have hfirst : resolveSenderVerifyingKey trustingState.client "bb" = .ok oldKey := by
    decide +kernel
  obtain ⟨⟨kept, hkept⟩, hannounced⟩ := key_change_announced (faithful_oneState next)
    (holds_plainDisk trustingState next) sound_trustingState hwhole hafter (by simp [trustingState])
    hfirst
  rcases hannounced newKey (by simp [hidentity]) hkey with hsame | halerted | ⟨-, hdigest⟩
  · exact absurd hsame (by decide)
  · exact ⟨next, kept, hkept, halerted⟩
  · exact absurd hdigest (by decide +kernel)

end Contacts
end Spex.Cli
