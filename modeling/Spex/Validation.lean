import Spex.Binding
import Spex.Tabulated

/-!
# Signed grants

Hashing and signature checking over canonical bytes, and the validation of a
signed grant. SHA-256 and Ed25519 are parameters. Expiry is read from the
structure while the signature covers the encoded map, so what a signature stands
for is exactly as definite as the encoding.
-/
namespace Spex
open Cbor Fallible Overlay

inductive HashId where
  | sha256
  deriving DecidableEq, Repr

/-- Why a grant or a puzzle is refused. -/
inductive GrantPowValidationError where
  | grantExpired
  | grantInvalid
  | powTooWeak
  | powInvalid
  | core (error : SpexError)
  deriving DecidableEq, Repr

/-- The `Display` text of an error. -/
def GrantPowValidationError.message : GrantPowValidationError → String
  | .grantExpired => "grant expired"
  | .grantInvalid => "grant signature invalid"
  | .powTooWeak => "pow parameters below minimum"
  | .powInvalid => "pow puzzle invalid"
  | .core err => s!"core validation error: {err.message}"

section Primitives
variable {VerifyingKey Signature : Type} (sha256 : Bytes → Bytes)
  (verifyStrict : VerifyingKey → Bytes → Signature → Bool)

def hashBytes (hashId : HashId) (data : Bytes) : Bytes :=
  match hashId with
  | .sha256 => sha256 data

/-- The digest of the canonical bytes. -/
def hashCtap2CborValue {α : Type} [Ctap2Cbor α] (hashId : HashId) (value : α) :
    Except SpexError Bytes := do
  let cbor ← toCtap2CanonicalBytes value
  return hashBytes sha256 hashId cbor

/-- Strict verification of a signature for a digest. -/
def ed25519VerifyHash (verify : VerifyingKey) (msgHash : Bytes) (sig : Signature) :
    Except SpexError Unit :=
  if verifyStrict verify msgHash sig then .ok () else .error .sigVerifyFailed

/-- The expiry is looked at first, then the signature. -/
def validateGrantToken (now : UInt64) (grant : GrantToken) (verifyingKey : VerifyingKey)
    (signature : Signature) : Except GrantPowValidationError Unit := do
  if let some expiresAt := grant.expiresAt then
    if expiresAt ≤ now then throw .grantExpired
  let hash ← (hashCtap2CborValue sha256 .sha256 grant).mapError .core
  (ed25519VerifyHash verifyStrict verifyingKey hash signature).mapError fun _ => .grantInvalid

theorem verified_iff (grant : GrantToken) (vk : VerifyingKey) (sig : Signature) :
    ((hashCtap2CborValue sha256 .sha256 grant).mapError GrantPowValidationError.core >>=
      fun hash => (ed25519VerifyHash verifyStrict vk hash sig).mapError
        fun _ => GrantPowValidationError.grantInvalid) = .ok () ↔
      ∃ b, toCtap2CanonicalBytes grant = .ok b ∧ verifyStrict vk (sha256 b) sig = true := by
  simp only [bind_eq_ok, mapError_eq_ok, hashCtap2CborValue, ed25519VerifyHash]
  constructor
  · rintro ⟨hash, ⟨b, hb, hhash⟩, hverify⟩
    have hdigest : sha256 b = hash := Except.ok.inj hhash
    refine ⟨b, hb, ?_⟩
    by_contra hne
    rw [hdigest] at hne
    simp [hne] at hverify
  · rintro ⟨b, hb, hverify⟩
    exact ⟨sha256 b, ⟨b, hb, rfl⟩, by simp [hverify]⟩

/-- A grant is accepted when it has not expired and the signature verifies for
the digest of its canonical bytes. -/
theorem validateGrantToken_eq_ok {now : UInt64} {grant : GrantToken} {vk : VerifyingKey}
    {sig : Signature} :
    validateGrantToken sha256 verifyStrict now grant vk sig = .ok () ↔
      (∀ e ∈ grant.expiresAt, now < e) ∧
        ∃ b, toCtap2CanonicalBytes grant = .ok b ∧ verifyStrict vk (sha256 b) sig = true := by
  rw [← verified_iff sha256 verifyStrict grant vk sig]
  cases he : grant.expiresAt with
  | none => simp [validateGrantToken, he]
  | some e =>
    by_cases hle : e ≤ now
    · have hlt : ¬ now < e := UInt64.not_lt.mpr hle
      simp only [validateGrantToken, he, hle, if_true, Option.mem_some_iff, forall_eq', hlt,
        false_and, iff_false]
      exact fun h => by cases h
    · simp [validateGrantToken, he, hle, UInt64.not_le.mp hle]

/-- What the model assumes of the primitives: no hash collisions, a signature
verifies for one digest only, and every digest can be signed. -/
structure IdealSigning : Prop where
  hash_injective : Function.Injective sha256
  one_digest : ∀ vk sig d d', verifyStrict vk d sig = true → verifyStrict vk d' sig = true → d = d'
  signable : ∀ d, ∃ vk sig, verifyStrict vk d sig = true

/-- One signature under one key is accepted for one set of named fields only. -/
def AcceptsOneGrant (allowed : GrantToken → Prop) : Prop :=
  ∀ vk sig now now' g g', allowed g → allowed g' →
    validateGrantToken sha256 verifyStrict now g vk sig = .ok () →
    validateGrantToken sha256 verifyStrict now' g' vk sig = .ok () →
    (g.userId, g.role, g.flags, g.expiresAt) = (g'.userId, g'.role, g'.flags, g'.expiresAt)

variable {sha256 verifyStrict}

lemma named_eq_iff {g g' : GrantToken} :
    g.named = g'.named ↔
      (g.userId, g.role, g.flags, g.expiresAt) = (g'.userId, g'.role, g'.flags, g'.expiresAt) := by
  simp [GrantToken.named]

theorem acceptsOneGrant_iff (h : IdealSigning sha256 verifyStrict) (S : Set UInt64) :
    AcceptsOneGrant sha256 verifyStrict (fun g => KeysIn S g.extensions) ↔ Clear 4 S := by
  constructor
  · intro hone
    by_contra hS
    obtain ⟨k, hk, hlt⟩ := exists_of_not_clear hS
    obtain ⟨g, g', hg, hnone, hmax⟩ := GrantToken.exists_clash hk hlt
    obtain ⟨bytes, hb, hb'⟩ := hg.exists_bytes
    obtain ⟨vk, sig, hsig⟩ := h.signable (sha256 bytes)
    refine hg.differ (named_eq_iff.mpr (hone vk sig 0 0 g g' hg.left hg.right ?_ ?_))
    · rw [validateGrantToken_eq_ok, hnone]
      exact ⟨by simp, _, hb, hsig⟩
    · rw [validateGrantToken_eq_ok]
      refine ⟨fun e he => ?_, _, hb', hsig⟩
      rw [hmax e he]
      decide
  · intro hS vk sig now now' g g' hg hg' hok hok'
    obtain ⟨-, b, hb, hsig⟩ := (validateGrantToken_eq_ok sha256 verifyStrict).mp hok
    obtain ⟨-, b', hb', hsig'⟩ := (validateGrantToken_eq_ok sha256 verifyStrict).mp hok'
    have hbytes : b = b' := h.hash_injective (h.one_digest vk sig _ _ hsig hsig')
    subst hbytes
    exact named_eq_iff.mp ((GrantToken.binds_iff S).mpr hS g g' b hg hg' hb hb')

/-- The canonical bytes of each structure bind its named fields, and a signed
grant is accepted with one meaning only, exactly when no extension may stand
under the identifier of a named field. -/
theorem signed_fields_bound_iff (h : IdealSigning sha256 verifyStrict) (S T : Set UInt64) :
    (Binds GrantToken.named (fun g => KeysIn S g.extensions) ↔ Clear 4 S) ∧
    (Binds InviteToken.named (fun t => KeysIn S t.extensions) ↔ Clear 3 S) ∧
    (Binds ContactCard.named (ContactCard.Within S T) ↔ Clear 7 S ∧ Clear 3 T) ∧
    (Binds ThreadConfig.named (ThreadConfig.Within S T) ↔ Clear 6 S ∧ Clear 4 T) ∧
    (Binds Envelope.named (fun e => KeysIn S e.extensions) ↔ Clear 6 S) ∧
    (AcceptsOneGrant sha256 verifyStrict (fun g => KeysIn S g.extensions) ↔ Clear 4 S) :=
  ⟨GrantToken.binds_iff S, InviteToken.binds_iff S, ContactCard.binds_iff S T,
    ThreadConfig.binds_iff S T, Envelope.binds_iff S, acceptsOneGrant_iff h S⟩

end Primitives

section Sample
open Tabulated

/-- A grant of role one to the user `010203`, its SHA-256 digest, and the Ed25519
signature of the digest under the key with seed `00..1f`. -/
def sampleGrant : GrantToken := ⟨[1, 2, 3], 1, none, none, ∅⟩

def sampleBytes : Bytes := [0xa2, 0x00, 0x43, 0x01, 0x02, 0x03, 0x01, 0x01]

def sampleDigest : Bytes :=
  [0x4a, 0x18, 0xd0, 0xbc, 0xc6, 0x9f, 0xc6, 0xa7, 0xea, 0x38, 0xff, 0x76, 0xb3, 0xdf,
    0xa0, 0x84, 0xbe, 0x92, 0x7c, 0x54, 0x6f, 0xb2, 0xeb, 0xca, 0x08, 0x62, 0x9b, 0x83,
    0xdf, 0xac, 0x68, 0x75]

def sampleKey : Bytes :=
  [0x03, 0xa1, 0x07, 0xbf, 0xf3, 0xce, 0x10, 0xbe, 0x1d, 0x70, 0xdd, 0x18, 0xe7, 0x4b,
    0xc0, 0x99, 0x67, 0xe4, 0xd6, 0x30, 0x9b, 0xa5, 0x0d, 0x5f, 0x1d, 0xdc, 0x86, 0x64,
    0x12, 0x55, 0x31, 0xb8]

def sampleSignature : Bytes :=
  [0x74, 0xce, 0xff, 0x9f, 0x06, 0x0b, 0x89, 0xac, 0x7d, 0xd3, 0x25, 0xd4, 0xb8, 0xaa,
    0xc1, 0xef, 0x8d, 0xb9, 0x56, 0x8d, 0x31, 0x7b, 0xf6, 0x54, 0x1f, 0xdc, 0x4f, 0x4c,
    0xb6, 0x5a, 0x1c, 0x96, 0xad, 0x98, 0x1e, 0x15, 0x08, 0xce, 0x9e, 0xd8, 0xdf, 0xff,
    0x3e, 0x3d, 0x0f, 0xda, 0x9a, 0x26, 0x2f, 0x56, 0xb4, 0x74, 0xe3, 0x8b, 0x61, 0x8e,
    0xcc, 0xea, 0xc7, 0xd8, 0x8d, 0xb0, 0xa3, 0x0d]

def sampleVerify (vk digest sig : Bytes) : Bool :=
  decide ((vk = sampleKey ∧ digest = sampleDigest ∧ sig = sampleSignature) ∨ sig = vk ++ digest)

theorem sampleSigning : IdealSigning (tabulated [(sampleBytes, sampleDigest)]) sampleVerify where
  hash_injective := tabulated_injective (by decide)
  one_digest := by
    have hcross : ∀ d, sampleSignature ≠ sampleKey ++ d := by
      intro d hd
      have htake := congrArg (List.take 32) hd
      rw [List.take_append_of_le_length (by decide)] at htake
      exact absurd htake (by decide)
    intro vk sig d d' h h'
    simp only [sampleVerify, decide_eq_true_eq] at h h'
    rcases h with ⟨rfl, rfl, rfl⟩ | h <;> rcases h' with ⟨hk, hd, hs⟩ | h'
    · exact hd.symm
    · exact absurd h' (hcross d')
    · subst hk hs
      exact absurd h (hcross d)
    · exact List.append_cancel_left (h.symm.trans h')
  signable := fun d => ⟨[], d, by simp [sampleVerify]⟩

theorem sampleGrant_bytes : toCtap2CanonicalBytes sampleGrant = .ok sampleBytes := by
  refine encodeValue_of_fits (fits_bare (by simp [GrantToken.fields]) ?_)
  simp [sampleGrant, GrantToken.fields, Value.fits_bytes, Value.fits_integer]

/-- The sample grant is accepted, and its signature for no grant with other
named fields, as long as extensions keep to identifiers from four on. -/
theorem signed_fields_bound_sample :
    validateGrantToken (tabulated [(sampleBytes, sampleDigest)]) sampleVerify 0 sampleGrant
        sampleKey sampleSignature = .ok () ∧
      AcceptsOneGrant (tabulated [(sampleBytes, sampleDigest)]) sampleVerify
        (fun g => KeysIn {k | 4 ≤ k.toNat} g.extensions) := by
  constructor
  · rw [validateGrantToken_eq_ok]
    exact ⟨by simp [sampleGrant], sampleBytes, sampleGrant_bytes, by decide⟩
  · exact (signed_fields_bound_iff sampleSigning {k | 4 ≤ k.toNat} ∅).2.2.2.2.2.mpr
      fun k hk => hk

/-- An extension under identifier three makes a grant that expires at 100 and one
that expires at 200 the same signed bytes. -/
theorem expiry_hidden_by_extension :
    toCtap2CanonicalBytes
        (⟨[1], 1, none, some 100, (∅ : FieldMap).insert 3 (.integer 100)⟩ : GrantToken) =
      .ok [0xa3, 0x00, 0x41, 0x01, 0x01, 0x01, 0x03, 0x18, 0x64] ∧
    toCtap2CanonicalBytes
        (⟨[1], 1, none, some 200, (∅ : FieldMap).insert 3 (.integer 100)⟩ : GrantToken) =
      .ok [0xa3, 0x00, 0x41, 0x01, 0x01, 0x01, 0x03, 0x18, 0x64] ∧
    (some 100 : Option UInt64) ≠ some 200 := by
  have hfits : ∀ e : UInt64, (toCborValue (⟨[1], 1, none, some e,
      (∅ : FieldMap).insert 3 (.integer 100)⟩ : GrantToken)).Fits := by
    intro e
    have he := e.toNat_lt
    refine fits_extended (by simp [GrantToken.fields]) ?_ (by decide)
      ((Value.fits_integer _).mpr (by norm_num))
    simp [GrantToken.fields, Value.fits_bytes, Value.fits_integer]
    omega
  exact ⟨encodeValue_of_fits (hfits 100), encodeValue_of_fits (hfits 200), by decide⟩

end Sample
end Spex
