import Mathlib.Data.List.DropRight
import Spex.Base64
import Spex.BigEndian
import Spex.CborValue
import Spex.Fallible

/-!
# The encrypted state file

The client keeps its state encrypted under a key from a passphrase or from the keyring of
the system. What it has written it reads back. A file that was edited can hold a nonce of
any length; once a key is found, any other length than twelve is a panic.
-/
namespace Spex.StateFile
open Fallible

/-- The file of the state, encrypted. -/
structure EncryptedStateFile where
  format : String
  version : UInt8
  kdf : String
  saltBase64 : String
  nonceBase64 : String
  ciphertextBase64 : String
  deriving DecidableEq, Repr

/-- The errors of the client that these functions return. -/
inductive StateFileError where
  | io (message : String)
  | json (message : String)
  | stateEncryption (message : String)
  deriving DecidableEq, Repr

abbrev StateResult (α : Type) := Except (Fault StateFileError) α

/-- Where the key of the file comes from. -/
inductive StateKeySource where
  | passphrase (passphrase : String)
  | keychain (keyBytes : Bytes)
  deriving DecidableEq, Repr

abbrev Key := {bytes : Bytes // bytes.length = 32}

abbrev Nonce := {bytes : Bytes // bytes.length = 12}

def stateEncryptionFormat : String := "spex_encrypted_state"
def stateEncryptionVersion : UInt8 := 1
def stateEncryptionAad : Bytes := Value.utf8 "spex-local-state"
def stateSaltBytes : ℕ := 16

section Surroundings

/-- What the libraries compute, with their errors already rendered: Argon2id of a password
and a salt, ChaCha20-Poly1305 under a key, a nonce and associated data, JSON of a state
and of the wrapper, and the errors of base64. The state is only ever serialized. -/
structure Libraries (State : Type) where
  hashPasswordInto : Bytes → Bytes → Except String Key
  encrypt : Key → Nonce → Bytes → Bytes → Except String Bytes
  decrypt : Key → Nonce → Bytes → Bytes → Except String Bytes
  toVec : State → Except String Bytes
  fromSlice : Bytes → Except String State
  toStringPretty : EncryptedStateFile → Except String String
  fromStr : String → Except String EncryptedStateFile
  base64Error : String → String

/-- Decryption undoes encryption, and what is serialized is read back. -/
structure Libraries.Faithful {State : Type} (libraries : Libraries State) : Prop where
  decrypts : ∀ {key nonce aad plaintext ciphertext},
    libraries.encrypt key nonce aad plaintext = .ok ciphertext →
      libraries.decrypt key nonce aad ciphertext = .ok plaintext
  readsState : ∀ {state bytes}, libraries.toVec state = .ok bytes →
    libraries.fromSlice bytes = .ok state
  readsFile : ∀ {file text}, libraries.toStringPretty file = .ok text →
    libraries.fromStr text = .ok file

/-- The variable that names the passphrase file, and the file system. -/
structure Environment where
  passphraseFile : Option String
  readToString : String → Except String String

/-- A missing entry is told apart from every other failure. -/
inductive KeyringError where
  | noEntry
  | other (message : String)
  deriving DecidableEq, Repr

/-- What the keyring answers about the one entry of the client, and why it refuses to
store a password, if it does. -/
structure Keyring where
  entryNew : Except String Unit
  getPassword : Except KeyringError String
  refusal : Option String

/-- A keyring may refuse to store. -/
def Keyring.setPassword (keyring : Keyring) (password : String) : Except String Unit × Keyring :=
  match keyring.refusal with
  | some message => (.error message, keyring)
  | none => (.ok (), { keyring with getPassword := .ok password })

/-- The random bytes and words that one call draws, or why they cannot be drawn. -/
structure SysRng where
  tryFillBytes : (count : ℕ) → Except String {bytes : Bytes // bytes.length = count}
  tryNextU32 : ℕ → Except String UInt32

end Surroundings

section Source
variable {State : Type} (libraries : Libraries State) (environment : Environment) (rng : SysRng)

def encryptionFault (message : String) : Fault StateFileError :=
  .returned (.stateEncryption message)

def jsonFault (message : String) : Fault StateFileError := .returned (.json message)

/-- The characters with the property White_Space. -/
def isWhitespace (c : Char) : Bool :=
  (0x9 ≤ c.toNat && c.toNat ≤ 0xd) || (0x2000 ≤ c.toNat && c.toNat ≤ 0x200a) ||
    c.toNat ∈ [0x20, 0x85, 0xa0, 0x1680, 0x2028, 0x2029, 0x202f, 0x205f, 0x3000]

/-- The white space at both ends is dropped. -/
def trim (text : String) : String :=
  String.ofList ((text.toList.dropWhile isWhitespace).rdropWhile isWhitespace)

def base64Decode (text : String) : StateResult Bytes :=
  match Base64.decode text with
  | some bytes => .ok bytes
  | none => .error (encryptionFault (libraries.base64Error text))

/-- The value of an `expect`. -/
def expectDrawn {α : Type} (drawn : Except String α) : StateResult α :=
  drawn.mapError fun _ => .panicked

/-- `Nonce::from_slice`, which asserts the length. -/
def nonceFromSlice (bytes : Bytes) : StateResult Nonce :=
  if h : bytes.length = 12 then .ok ⟨bytes, h⟩ else .error .panicked

/-- `ChaCha20Poly1305::new_from_slice`. -/
def newFromSlice (bytes : Bytes) : Except String Key :=
  if h : bytes.length = 32 then .ok ⟨bytes, h⟩ else .error "Invalid Length"

/-- What the keyring holds may have any length. -/
def parseKeychainKey (bytes : Bytes) : StateResult Key :=
  if h : bytes.length = 32 then .ok ⟨bytes, h⟩
  else .error (encryptionFault "keychain key must be 32 bytes")

/-- A file with white space only gives no passphrase. -/
def resolvePassphraseFromFile : StateResult String := do
  let path ← environment.passphraseFile.elim
    (.error (encryptionFault "missing passphrase file variable")) .ok
  let contents ← (environment.readToString path).mapError fun err => .returned (.io err)
  let passphrase := trim contents
  if passphrase.isEmpty then .error (encryptionFault "passphrase file is empty")
  else return passphrase

def deriveKeyFromPassphrase (passphrase : String) (salt : Bytes) : StateResult Key :=
  (libraries.hashPasswordInto (Value.utf8 passphrase) salt).mapError encryptionFault

/-- Each byte of the salt is drawn on its own. -/
def generateStateSalt : StateResult Bytes :=
  (List.range stateSaltBytes).mapM fun i =>
    ((rng.tryNextU32 i).map UInt32.toUInt8).mapError encryptionFault

/-- A missing entry is created, with a key that is drawn for it. -/
def resolveKeychainKey (keyring : Keyring) : StateResult Bytes × Keyring :=
  match keyring.entryNew, keyring.getPassword with
  | .error message, _ => (.error (encryptionFault message), keyring)
  | .ok (), .ok password => (base64Decode libraries password, keyring)
  | .ok (), .error (.other message) => (.error (encryptionFault message), keyring)
  | .ok (), .error .noEntry =>
    match expectDrawn (rng.tryFillBytes 32) with
    | .error fault => (.error fault, keyring)
    | .ok key =>
      match keyring.setPassword (Base64.encode key) with
      | (.error message, keyring) => (.error (encryptionFault message), keyring)
      | (.ok (), keyring) => (.ok key, keyring)

/-- A passphrase file is preferred to the keyring. -/
def resolveStateKeySource (keyring : Keyring) : StateResult StateKeySource × Keyring :=
  if environment.passphraseFile.isSome then
    ((resolvePassphraseFromFile environment).map .passphrase, keyring)
  else
    let resolved := resolveKeychainKey libraries rng keyring
    (resolved.1.map .keychain, resolved.2)

/-- Any other text is taken for a state in the clear. -/
def parseEncryptedStateFile (contents : String) : Option EncryptedStateFile := do
  let parsed ← (libraries.fromStr contents).toOption
  if parsed.format ≠ stateEncryptionFormat then none else some parsed

/-- The name of the key derivation, the salt and the key of a source. -/
def sourceKey : StateKeySource → StateResult (String × String × Key)
  | .passphrase passphrase => do
    let salt ← generateStateSalt rng
    let key ← deriveKeyFromPassphrase libraries passphrase salt
    return ("argon2id", Base64.encode salt, key)
  | .keychain keyBytes => do
    let key ← parseKeychainKey keyBytes
    return ("raw", "", key)

/-- `encrypt_state_file` after the key source is resolved. -/
def sealState (plaintext : Bytes) (nonce : Nonce) (source : StateKeySource) :
    StateResult String := do
  let (kdf, saltBase64, key) ← sourceKey libraries rng source
  let cipher ← (newFromSlice key).mapError encryptionFault
  let nonce ← nonceFromSlice nonce
  let ciphertext ← (libraries.encrypt cipher nonce stateEncryptionAad plaintext).mapError
    encryptionFault
  (libraries.toStringPretty
    { format := stateEncryptionFormat, version := stateEncryptionVersion, kdf, saltBase64,
      nonceBase64 := Base64.encode nonce,
      ciphertextBase64 := Base64.encode ciphertext }).mapError jsonFault

/-- `encrypt_state_file` before the key source is resolved. -/
def drawNonce (state : State) : StateResult (Bytes × Nonce) := do
  let plaintext ← (libraries.toVec state).mapError jsonFault
  let nonce ← expectDrawn (rng.tryFillBytes 12)
  return (plaintext, nonce)

/-- The nonce is drawn before the key is looked up. -/
def encryptStateFile (state : State) (keyring : Keyring) : StateResult String × Keyring :=
  match drawNonce libraries rng state with
  | .error fault => (.error fault, keyring)
  | .ok (plaintext, nonce) =>
    let resolved := resolveStateKeySource libraries environment rng keyring
    (resolved.1 >>= sealState libraries rng plaintext nonce, resolved.2)

/-- `decrypt_state_file` before the key is resolved: the nonce and the ciphertext. -/
def decodeParts (file : EncryptedStateFile) : StateResult (Bytes × Bytes) := do
  if file.version ≠ stateEncryptionVersion then
    .error (encryptionFault s!"unsupported state version {file.version}")
  let nonce ← base64Decode libraries file.nonceBase64
  let ciphertext ← base64Decode libraries file.ciphertextBase64
  return (nonce, ciphertext)

/-- The key that the wrapper asks for. -/
def fileKey (file : EncryptedStateFile) (keyring : Keyring) : StateResult Key × Keyring :=
  match file.kdf with
  | "argon2id" => (do
      let passphrase ← resolvePassphraseFromFile environment
      let salt ← base64Decode libraries file.saltBase64
      deriveKeyFromPassphrase libraries passphrase salt, keyring)
  | "raw" =>
    let resolved := resolveKeychainKey libraries rng keyring
    (resolved.1 >>= parseKeychainKey, resolved.2)
  | other => (.error (encryptionFault s!"unknown kdf {other}"), keyring)

/-- `decrypt_state_file` with the key. -/
def openState (parts : Bytes × Bytes) (key : Key) : StateResult State := do
  let cipher ← (newFromSlice key).mapError encryptionFault
  let nonce ← nonceFromSlice parts.1
  let plaintext ← (libraries.decrypt cipher nonce stateEncryptionAad parts.2).mapError
    encryptionFault
  (libraries.fromSlice plaintext).mapError jsonFault

/-- The parts of the file are decoded before the key is looked up. -/
def decryptStateFile (file : EncryptedStateFile) (keyring : Keyring) :
    StateResult State × Keyring :=
  match decodeParts libraries file with
  | .error fault => (.error fault, keyring)
  | .ok parts =>
    let resolved := fileKey libraries environment rng file keyring
    (resolved.1 >>= openState libraries parts, resolved.2)

end Source

section Conditions
variable {State : Type} (libraries : Libraries State) (environment : Environment) (rng : SysRng)
  (file : EncryptedStateFile) (keyring : Keyring)

/-- The passphrase file is there and not blank, and gives a key with the salt of the file. -/
def PassphraseGivesKey : Prop :=
  ∃ path contents salt key, environment.passphraseFile = some path ∧
    environment.readToString path = .ok contents ∧ trim contents ≠ "" ∧
      Base64.decode file.saltBase64 = some salt ∧
        libraries.hashPasswordInto (Value.utf8 (trim contents)) salt = .ok key

/-- The keyring holds a key of 32 bytes, or nothing and one can be drawn and stored. -/
def KeyringGivesKey : Prop :=
  keyring.entryNew = .ok () ∧
    ((∃ password bytes, keyring.getPassword = .ok password ∧
        Base64.decode password = some bytes ∧ bytes.length = 32) ∨
      keyring.getPassword = .error .noEntry ∧ keyring.refusal = none ∧
        ∃ key, rng.tryFillBytes 32 = .ok key)

/-- The key that the file asks for can be had. -/
def KeyAvailable : Prop :=
  file.kdf = "argon2id" ∧ PassphraseGivesKey libraries environment file ∨
    file.kdf = "raw" ∧ KeyringGivesKey rng keyring

/-- The file asks for a key that would have to be drawn, and none can be. -/
def DrawFails : Prop :=
  file.kdf = "raw" ∧ keyring.entryNew = .ok () ∧ keyring.getPassword = .error .noEntry ∧
    ∃ message, rng.tryFillBytes 32 = .error message

/-- If the version is the current one and both parts are base64, then the nonce has twelve
bytes or there is no key to use it with, and no key has to be drawn in vain. -/
def OpensSafely : Prop :=
  file.version = stateEncryptionVersion → ∀ nonce ciphertext,
    Base64.decode file.nonceBase64 = some nonce →
      Base64.decode file.ciphertextBase64 = some ciphertext →
        (KeyAvailable libraries environment rng file keyring → nonce.length = 12) ∧
          ¬ DrawFails rng file keyring

end Conditions

section Panics
variable {State : Type} {libraries : Libraries State} {environment : Environment} {rng : SysRng}
  {file : EncryptedStateFile} {keyring : Keyring} {bytes : Bytes} {parts : Bytes × Bytes}

@[simp] theorem encryptionFault_ne (message : String) : encryptionFault message ≠ .panicked := by
  simp [encryptionFault]

@[simp] theorem jsonFault_ne (message : String) : jsonFault message ≠ .panicked := by
  simp [jsonFault]

@[simp] theorem base64Decode_eq_ok {text : String} :
    base64Decode libraries text = .ok bytes ↔ Base64.decode text = some bytes := by
  unfold base64Decode
  cases Base64.decode text <;> simp

@[simp] theorem returns_base64Decode (text : String) : Returns (base64Decode libraries text) := by
  unfold base64Decode
  cases Base64.decode text <;> simp [Returns]

@[simp] theorem parseKeychainKey_eq_ok {key : Key} :
    parseKeychainKey bytes = .ok key ↔ bytes = key := by
  obtain ⟨keyBytes, hkey⟩ := key
  unfold parseKeychainKey
  split_ifs with h
  · simp
  · have hne : bytes ≠ keyBytes := fun heq => h (heq ▸ hkey)
    simp [hne]

@[simp] theorem returns_parseKeychainKey (bytes : Bytes) : Returns (parseKeychainKey bytes) := by
  unfold parseKeychainKey
  split_ifs <;> simp [Returns]

@[simp] theorem returns_nonceFromSlice : Returns (nonceFromSlice bytes) ↔ bytes.length = 12 := by
  unfold nonceFromSlice
  split_ifs with h <;> simp [Returns, h]

@[simp] theorem nonceFromSlice_nonce (nonce : Nonce) : nonceFromSlice nonce = .ok nonce := by
  simp [nonceFromSlice, nonce.2]

/-- A key of the right length is taken by the cipher. -/
@[simp] theorem newFromSlice_key (key : Key) :
    (newFromSlice key).mapError encryptionFault = .ok key := by
  simp [newFromSlice, key.2, Except.mapError]

theorem decryptStateFile_fst : (decryptStateFile libraries environment rng file keyring).1 =
    decodeParts libraries file >>= fun parts =>
      (fileKey libraries environment rng file keyring).1 >>= openState libraries parts := by
  unfold decryptStateFile
  cases decodeParts libraries file with
  | error fault => simp
  | ok parts => simp

theorem decodeParts_eq_ok : decodeParts libraries file = .ok parts ↔
    file.version = stateEncryptionVersion ∧ Base64.decode file.nonceBase64 = some parts.1 ∧
      Base64.decode file.ciphertextBase64 = some parts.2 := by
  obtain ⟨nonce, ciphertext⟩ := parts
  unfold decodeParts
  split_ifs with h
  · simp [h]
  · simp only [not_not.mp h, bind_eq_ok, base64Decode_eq_ok, pure_eq_ok, Prod.mk.injEq, true_and]
    constructor
    · rintro ⟨_, hnonce, _, hciphertext, rfl, rfl⟩
      exact ⟨hnonce, hciphertext⟩
    · intro ⟨hnonce, hciphertext⟩
      exact ⟨nonce, hnonce, ciphertext, hciphertext, rfl, rfl⟩

theorem returns_decodeParts : Returns (decodeParts libraries file) := by
  unfold decodeParts
  split_ifs with h
  · simp [Returns]
  · refine (returns_base64Decode _).bind fun _ => (returns_base64Decode _).bind fun _ => ?_
    simp [Returns, pure, Except.pure]

/-- With a key at hand, only the length of the nonce can make the call panic. -/
theorem returns_openState {key : Key} :
    Returns (openState libraries parts key) ↔ parts.1.length = 12 := by
  have hrest : ∀ nonce, Returns (do
      let plaintext ← (libraries.decrypt key nonce stateEncryptionAad parts.2).mapError
        encryptionFault
      (libraries.fromSlice plaintext).mapError jsonFault) := fun _ =>
    (returns_mapError encryptionFault_ne _).bind fun _ => returns_mapError jsonFault_ne _
  rw [openState, newFromSlice_key, ok_bind, returns_bind_iff, returns_nonceFromSlice]
  exact and_iff_left fun nonce _ => hrest nonce

theorem resolvePassphraseFromFile_eq_ok {passphrase : String} :
    resolvePassphraseFromFile environment = .ok passphrase ↔
      ∃ path contents, environment.passphraseFile = some path ∧
        environment.readToString path = .ok contents ∧ trim contents ≠ "" ∧
          trim contents = passphrase := by
  unfold resolvePassphraseFromFile
  cases environment.passphraseFile with
  | none => simp
  | some path =>
    cases hread : environment.readToString path with
    | error message => simp [hread, Except.mapError]
    | ok contents =>
      by_cases hempty : trim contents = ""
      · simp [hread, Except.mapError, hempty]
      · simp [hread, Except.mapError, hempty, pure, Except.pure]

theorem returns_resolvePassphraseFromFile :
    Returns (resolvePassphraseFromFile environment) := by
  have hpath : Returns (environment.passphraseFile.elim
      (.error (encryptionFault "missing passphrase file variable")) .ok) := by
    cases environment.passphraseFile <;> simp [Returns]
  refine hpath.bind fun path => (returns_mapError (by simp) _).bind fun contents => ?_
  dsimp only
  split_ifs <;> simp [Returns, pure, Except.pure]

/-- What the keyring gives, and when the call panics. -/
theorem resolveKeychainKey_spec :
    (∀ bytes, (resolveKeychainKey libraries rng keyring).1 = .ok bytes ↔
      keyring.entryNew = .ok () ∧
        ((∃ password, keyring.getPassword = .ok password ∧
            Base64.decode password = some bytes) ∨
          keyring.getPassword = .error .noEntry ∧ keyring.refusal = none ∧
            ∃ key, rng.tryFillBytes 32 = .ok key ∧ key = bytes)) ∧
    (Returns (resolveKeychainKey libraries rng keyring).1 ↔
      ¬ (keyring.entryNew = .ok () ∧ keyring.getPassword = .error .noEntry ∧
        ∃ message, rng.tryFillBytes 32 = .error message)) := by
  unfold resolveKeychainKey Keyring.setPassword
  cases keyring.entryNew with
  | error message => simp [Returns]
  | ok _ =>
    cases keyring.getPassword with
    | ok password => simp
    | error err =>
      cases err with
      | other message => simp [Returns]
      | noEntry =>
        cases hdraw : rng.tryFillBytes 32 with
        | error message => simp [expectDrawn, Except.mapError, Returns]
        | ok key => cases keyring.refusal <;> simp [expectDrawn, Except.mapError, Returns]

theorem fileKey_argon2id (h : file.kdf = "argon2id") :
    fileKey libraries environment rng file keyring = (do
      let passphrase ← resolvePassphraseFromFile environment
      let salt ← base64Decode libraries file.saltBase64
      deriveKeyFromPassphrase libraries passphrase salt, keyring) := by
  simp [fileKey, h]

theorem fileKey_raw (h : file.kdf = "raw") :
    fileKey libraries environment rng file keyring =
      ((resolveKeychainKey libraries rng keyring).1 >>= parseKeychainKey,
        (resolveKeychainKey libraries rng keyring).2) := by
  simp [fileKey, h]

variable (libraries environment rng keyring) in
theorem fileKey_unknown (hargon : file.kdf ≠ "argon2id") (hraw : file.kdf ≠ "raw") :
    ∃ message, fileKey libraries environment rng file keyring =
      (.error (encryptionFault message), keyring) := by
  unfold fileKey
  split
  · exact absurd ‹_› hargon
  · exact absurd ‹_› hraw
  · exact ⟨_, rfl⟩

theorem exists_passphraseKey (hargon : file.kdf = "argon2id") :
    (∃ key, (fileKey libraries environment rng file keyring).1 = .ok key) ↔
      PassphraseGivesKey libraries environment file := by
  rw [fileKey_argon2id hargon]
  simp only [PassphraseGivesKey, bind_eq_ok, resolvePassphraseFromFile_eq_ok, base64Decode_eq_ok,
    deriveKeyFromPassphrase, mapError_eq_ok]
  constructor
  · rintro ⟨key, _, ⟨path, contents, hpath, hread, hblank, rfl⟩, salt, hsalt, hkey⟩
    exact ⟨path, contents, salt, key, hpath, hread, hblank, hsalt, hkey⟩
  · intro ⟨path, contents, salt, key, hpath, hread, hblank, hsalt, hkey⟩
    exact ⟨key, _, ⟨path, contents, hpath, hread, hblank, rfl⟩, salt, hsalt, hkey⟩

theorem exists_keyringKey (hraw : file.kdf = "raw") :
    (∃ key, (fileKey libraries environment rng file keyring).1 = .ok key) ↔
      KeyringGivesKey rng keyring := by
  rw [fileKey_raw hraw]
  simp only [KeyringGivesKey, bind_eq_ok, resolveKeychainKey_spec.1, parseKeychainKey_eq_ok]
  constructor
  · rintro ⟨key, _, ⟨hentry, hgives⟩, rfl⟩
    obtain ⟨password, hpassword, hdecode⟩ | ⟨hnone, hstore, drawn, hdraw, -⟩ := hgives
    · exact ⟨hentry, .inl ⟨password, key, hpassword, hdecode, key.2⟩⟩
    · exact ⟨hentry, .inr ⟨hnone, hstore, drawn, hdraw⟩⟩
  · rintro ⟨hentry, ⟨password, bytes, hpassword, hdecode, hlength⟩ | ⟨hnone, hstore, key, hdraw⟩⟩
    · exact ⟨⟨bytes, hlength⟩, bytes, ⟨hentry, .inl ⟨password, hpassword, hdecode⟩⟩, rfl⟩
    · exact ⟨key, key, ⟨hentry, .inr ⟨hnone, hstore, key, hdraw, rfl⟩⟩, rfl⟩

/-- A key is found exactly if the passphrase or the keyring gives one. -/
theorem exists_fileKey : (∃ key, (fileKey libraries environment rng file keyring).1 = .ok key) ↔
    KeyAvailable libraries environment rng file keyring := by
  by_cases hargon : file.kdf = "argon2id"
  · rw [exists_passphraseKey hargon]
    simp [KeyAvailable, hargon]
  · by_cases hraw : file.kdf = "raw"
    · rw [exists_keyringKey hraw]
      simp [KeyAvailable, hraw]
    · obtain ⟨message, hkey⟩ := fileKey_unknown libraries environment rng keyring hargon hraw
      simp [hkey, KeyAvailable, hargon, hraw]

theorem returns_fileKey : Returns (fileKey libraries environment rng file keyring).1 ↔
    ¬ DrawFails rng file keyring := by
  by_cases hargon : file.kdf = "argon2id"
  · have hderive : ∀ passphrase salt,
        Returns (deriveKeyFromPassphrase libraries passphrase salt) := fun _ _ =>
      returns_mapError encryptionFault_ne _
    have hdraw : ¬ DrawFails rng file keyring := by simp [DrawFails, hargon]
    rw [fileKey_argon2id hargon, iff_true_right hdraw]
    exact returns_resolvePassphraseFromFile.bind fun passphrase =>
      (returns_base64Decode file.saltBase64).bind fun salt => hderive passphrase salt
  · by_cases hraw : file.kdf = "raw"
    · rw [fileKey_raw hraw, returns_bind_iff, resolveKeychainKey_spec.2]
      simp [DrawFails, hraw]
    · obtain ⟨message, hkey⟩ := fileKey_unknown libraries environment rng keyring hargon hraw
      simp [hkey, DrawFails, hraw, Returns]

/-- Decryption panics for no other reason than a nonce of the wrong length, or a key that
cannot be drawn. -/
theorem returns_decryptStateFile :
    Returns (decryptStateFile libraries environment rng file keyring).1 ↔
      OpensSafely libraries environment rng file keyring := by
  have hopens : ∀ parts : Bytes × Bytes,
      Returns ((fileKey libraries environment rng file keyring).1 >>= openState libraries parts) ↔
        (KeyAvailable libraries environment rng file keyring → parts.1.length = 12) ∧
          ¬ DrawFails rng file keyring := by
    intro parts
    rw [returns_bind_iff, returns_fileKey, ← exists_fileKey, and_comm]
    simp [returns_openState]
  rw [decryptStateFile_fst, returns_bind_iff, and_iff_right returns_decodeParts]
  simp only [decodeParts_eq_ok, hopens, OpensSafely, Prod.forall]
  constructor
  · intro h hversion nonce ciphertext hnonce hciphertext
    exact h nonce ciphertext ⟨hversion, hnonce, hciphertext⟩
  · intro h nonce ciphertext ⟨hversion, hnonce, hciphertext⟩
    exact h hversion nonce ciphertext hnonce hciphertext

end Panics

section RoundTrip
variable {State : Type} {libraries : Libraries State} {environment : Environment} {rng : SysRng}
  {file : EncryptedStateFile} {keyring after : Keyring} {source : StateKeySource}

/-- A key that the keyring has given is given again, by the keyring as it is then. -/
theorem resolveKeychainKey_again {bytes : Bytes}
    (h : resolveKeychainKey libraries rng keyring = (.ok bytes, after)) (later : SysRng) :
    (resolveKeychainKey libraries later after).1 = .ok bytes := by
  have hok := congrArg Prod.fst h
  obtain ⟨hentry, ⟨password, hpassword, hdecode⟩ | ⟨hnone, hstore, key, hdraw, rfl⟩⟩ :=
    (resolveKeychainKey_spec.1 _).mp hok
  · have hafter : after = keyring := by
      have hsnd := congrArg Prod.snd h
      simpa [resolveKeychainKey, hentry, hpassword] using hsnd.symm
    exact (resolveKeychainKey_spec.1 _).mpr
      ⟨hafter ▸ hentry, .inl ⟨password, hafter ▸ hpassword, hdecode⟩⟩
  · have hafter : after = { keyring with getPassword := .ok (Base64.encode key) } := by
      have hsnd := congrArg Prod.snd h
      simpa [resolveKeychainKey, Keyring.setPassword, hentry, hnone, hstore, hdraw, expectDrawn,
        Except.mapError] using hsnd.symm
    exact (resolveKeychainKey_spec.1 _).mpr
      ⟨hafter ▸ hentry, .inl ⟨_, by rw [hafter], Base64.decode_encode key⟩⟩

/-- The wrapper asks for the key that its source gave. -/
theorem fileKey_of_source {key : Key}
    (hsource : resolveStateKeySource libraries environment rng keyring = (.ok source, after))
    (hkey : sourceKey libraries rng source = .ok (file.kdf, file.saltBase64, key))
    (later : SysRng) : (fileKey libraries environment later file after).1 = .ok key := by
  unfold resolveStateKeySource at hsource
  split_ifs at hsource with hvariable
  · obtain ⟨hresult, rfl⟩ := Prod.mk.inj hsource
    obtain ⟨passphrase, hpassphrase, rfl⟩ := map_eq_ok.mp hresult
    obtain ⟨salt, -, hkey⟩ := bind_eq_ok.mp hkey
    obtain ⟨derived, hderived, hkey⟩ := bind_eq_ok.mp hkey
    obtain ⟨hkdf, hkey⟩ := Prod.mk.inj (pure_eq_ok.mp hkey)
    obtain ⟨hsalt, rfl⟩ := Prod.mk.inj hkey
    have hdecode : base64Decode libraries file.saltBase64 = .ok salt := by
      rw [← hsalt, base64Decode_eq_ok, Base64.decode_encode]
    rw [fileKey_argon2id hkdf.symm, hpassphrase, ok_bind, hdecode, ok_bind, hderived]
  · obtain ⟨hresult, hafter⟩ := Prod.mk.inj hsource
    obtain ⟨bytes, hbytes, rfl⟩ := map_eq_ok.mp hresult
    obtain ⟨parsed, hparsed, hkey⟩ := bind_eq_ok.mp hkey
    obtain ⟨hkdf, hkey⟩ := Prod.mk.inj (pure_eq_ok.mp hkey)
    obtain ⟨-, rfl⟩ := Prod.mk.inj hkey
    have hagain := resolveKeychainKey_again (Prod.ext hbytes hafter) later
    rw [fileKey_raw hkdf.symm, hagain, ok_bind, hparsed]

theorem sealState_eq_ok {plaintext : Bytes} {nonce : Nonce} {contents : String}
    (h : sealState libraries rng plaintext nonce source = .ok contents) :
    ∃ file key ciphertext, sourceKey libraries rng source =
        .ok (file.kdf, file.saltBase64, key) ∧
      libraries.encrypt key nonce stateEncryptionAad plaintext = .ok ciphertext ∧
      libraries.toStringPretty file = .ok contents ∧ file.format = stateEncryptionFormat ∧
      file.version = stateEncryptionVersion ∧ file.nonceBase64 = Base64.encode nonce ∧
      file.ciphertextBase64 = Base64.encode ciphertext := by
  obtain ⟨⟨kdf, saltBase64, key⟩, hkey, h⟩ := bind_eq_ok.mp h
  simp only [newFromSlice_key, nonceFromSlice_nonce, ok_bind] at h
  obtain ⟨ciphertext, hencrypt, h⟩ := bind_eq_ok.mp h
  exact ⟨_, key, ciphertext, hkey, mapError_eq_ok.mp hencrypt, mapError_eq_ok.mp h, rfl, rfl, rfl,
    rfl⟩

/-- What was encrypted is parsed and decrypted again, in the same environment and with the
keyring that the encryption left behind. -/
theorem decrypt_encrypt (hlibraries : libraries.Faithful) {state : State} {contents : String}
    (h : encryptStateFile libraries environment rng state keyring = (.ok contents, after)) :
    ∃ file, parseEncryptedStateFile libraries contents = some file ∧
      ∀ later, (decryptStateFile libraries environment later file after).1 = .ok state := by
  unfold encryptStateFile at h
  cases hdraw : drawNonce libraries rng state with
  | error fault => simp [hdraw] at h
  | ok drawn =>
    obtain ⟨plaintext, nonce⟩ := drawn
    rw [hdraw] at h
    obtain ⟨hresult, hafter⟩ := Prod.mk.inj h
    obtain ⟨source, hsource, hseal⟩ := bind_eq_ok.mp hresult
    obtain ⟨file, key, ciphertext, hkey, hencrypt, htext, hformat, hversion, hnonce, hciphertext⟩ :=
      sealState_eq_ok hseal
    obtain ⟨bytes, hbytes, hdrawn⟩ := bind_eq_ok.mp hdraw
    obtain ⟨drawn, -, hdrawn⟩ := bind_eq_ok.mp hdrawn
    obtain ⟨rfl, rfl⟩ := Prod.mk.inj (pure_eq_ok.mp hdrawn)
    have hparts : decodeParts libraries file = .ok (drawn.1, ciphertext) := by
      rw [decodeParts_eq_ok, hnonce, hciphertext, Base64.decode_encode, Base64.decode_encode]
      exact ⟨hversion, rfl, rfl⟩
    refine ⟨file, ?_, fun later => ?_⟩
    · simp [parseEncryptedStateFile, hlibraries.readsFile htext, Except.toOption, hformat]
    · have hfileKey := fileKey_of_source (Prod.ext hsource hafter) hkey later
      rw [decryptStateFile_fst, hparts, ok_bind, hfileKey, ok_bind]
      rw [openState, newFromSlice_key, ok_bind, nonceFromSlice_nonce, ok_bind,
        hlibraries.decrypts hencrypt]
      exact mapError_eq_ok.mpr (hlibraries.readsState (mapError_eq_ok.mp hbytes))

end RoundTrip

/-- Decryption returns exactly for the files that open safely, and what was encrypted is
read back. -/
theorem state_file_returns_iff {State : Type} {libraries : Libraries State}
    (hlibraries : libraries.Faithful) (environment : Environment) :
    (∀ rng file keyring, Returns (decryptStateFile libraries environment rng file keyring).1 ↔
      OpensSafely libraries environment rng file keyring) ∧
    ∀ rng state keyring contents after,
      encryptStateFile libraries environment rng state keyring = (.ok contents, after) →
        ∃ file, parseEncryptedStateFile libraries contents = some file ∧
          ∀ later, (decryptStateFile libraries environment later file after).1 = .ok state :=
  ⟨fun _ _ _ => returns_decryptStateFile, fun _ _ _ _ _ => decrypt_encrypt hlibraries⟩

section Sample

def zeroKey : Key := ⟨List.replicate 32 0, by simp⟩

def zeroNonce : Nonce := ⟨List.replicate 12 0, by simp⟩

/-- The text of an empty object, and what ChaCha20-Poly1305 makes of it under the key and
the nonce of zeros. -/
def stateText : Bytes := [0x7b, 0x7d]

def sealedText : Bytes := BigEndian.write 18 0xe47aabd27966c894169a62c2a578d22ed383

/-- The wrapper of the text. -/
def zeroFile : EncryptedStateFile where
  format := stateEncryptionFormat
  version := stateEncryptionVersion
  kdf := "raw"
  saltBase64 := ""
  nonceBase64 := Base64.encode zeroNonce
  ciphertextBase64 := Base64.encode sealedText

/-- The libraries where one state has the text above, on a machine without the memory that
Argon2 needs. -/
noncomputable def oneState {State : Type} (state : State) : Libraries State where
  hashPasswordInto _ _ := .error "out of memory"
  encrypt key nonce aad plaintext :=
    if key = zeroKey ∧ nonce = zeroNonce ∧ aad = stateEncryptionAad ∧ plaintext = stateText then
      .ok sealedText
    else .error "aead::Error"
  decrypt key nonce aad ciphertext :=
    if key = zeroKey ∧ nonce = zeroNonce ∧ aad = stateEncryptionAad ∧ ciphertext = sealedText then
      .ok stateText
    else .error "aead::Error"
  toVec other := @ite _ (other = state) (Classical.propDecidable _) (.ok stateText)
    (.error "unknown")
  fromSlice bytes := if bytes = stateText then .ok state else .error "unknown"
  toStringPretty file := if file = zeroFile then .ok "wrapper" else .error "unknown"
  fromStr text := if text = "wrapper" then .ok zeroFile else .error "unknown"
  base64Error _ := "Invalid padding"

theorem faithful_oneState {State : Type} (state : State) : (oneState state).Faithful where
  decrypts h := by
    simp only [oneState] at h ⊢
    split_ifs at h with hrow
    simp [hrow, ← Except.ok.inj h]
  readsState h := by
    simp only [oneState] at h ⊢
    split_ifs at h with hstate
    rw [← Except.ok.inj h, if_pos rfl, hstate]
  readsFile h := by
    simp only [oneState] at h ⊢
    split_ifs at h with hfile
    rw [← Except.ok.inj h, if_pos rfl, hfile]

def zeros : SysRng where
  tryFillBytes count := .ok ⟨List.replicate count 0, by simp⟩
  tryNextU32 _ := .ok 0

def noPassphrase : Environment := ⟨none, fun _ => .error "no such file"⟩

def emptyKeyring : Keyring := ⟨.ok (), .error .noEntry, none⟩

def zeroKeyring : Keyring := { emptyKeyring with getPassword := .ok (Base64.encode zeroKey) }

theorem encrypt_zeros {State : Type} (state : State) {keyring : Keyring}
    (h : keyring = emptyKeyring ∨ keyring = zeroKeyring) :
    encryptStateFile (oneState state) noPassphrase zeros state keyring =
      (.ok "wrapper", zeroKeyring) := by
  have hdraw : drawNonce (oneState state) zeros state = .ok (stateText, zeroNonce) := by
    simp only [drawNonce, oneState, if_true]
    rfl
  rw [encryptStateFile, hdraw]
  rcases h with rfl | rfl
  · rfl
  · rfl

theorem state_file_returns_sample :
    (Returns (decryptStateFile (oneState ()) noPassphrase zeros zeroFile zeroKeyring).1 ↔
      OpensSafely (oneState ()) noPassphrase zeros zeroFile zeroKeyring) ∧
    ∃ file, parseEncryptedStateFile (oneState ()) "wrapper" = some file ∧
      ∀ later, (decryptStateFile (oneState ()) noPassphrase later file zeroKeyring).1 =
        .ok () := by
  have h := state_file_returns_iff (faithful_oneState ()) noPassphrase
  exact ⟨h.1 _ _ _, h.2 _ _ _ _ _ (encrypt_zeros () (.inl rfl))⟩

/-- The wrapper with a nonce of three bytes. -/
theorem short_nonce_panics :
    (decryptStateFile (oneState ()) noPassphrase zeros { zeroFile with nonceBase64 := "AAAA" }
      zeroKeyring).1 = .error .panicked := by
  have hparts : decodeParts (oneState ()) { zeroFile with nonceBase64 := "AAAA" } =
      .ok ([0, 0, 0], sealedText) :=
    decodeParts_eq_ok.mpr ⟨rfl, by decide, Base64.decode_encode _⟩
  have hbytes : (resolveKeychainKey (oneState ()) zeros zeroKeyring).1 = .ok zeroKey.1 :=
    (resolveKeychainKey_spec.1 _).mpr ⟨rfl, .inl ⟨_, rfl, Base64.decode_encode _⟩⟩
  rw [decryptStateFile_fst, hparts, ok_bind, fileKey_raw rfl, hbytes]
  rfl

end Sample
end Spex.StateFile
