import Spex.Binding

/-!
# Decoding envelopes

`EnvelopeVisitor::visit_map` consumes the entries of a CBOR map one by one. Keys
arrive as 128-bit integers; a key that names no field is narrowed to 64 bits and
stored as an extension. A key past the 64-bit range therefore comes back as a
small one, and may come to stand under a named field when the envelope is
encoded again to check its signature.
-/
namespace Spex
open Cbor Fallible Overlay

/-- The variables of `visit_map`. -/
structure EnvelopeVisitor where
  threadId : Option Bytes
  epoch : Option UInt32
  seq : Option UInt64
  senderUserId : Option Bytes
  ciphertext : Option Bytes
  signature : Option Bytes
  extensions : FieldMap

namespace EnvelopeVisitor
variable {self self' : EnvelopeVisitor} {key : ℤ} {value : Value} {entries : List (ℤ × Value)}
  {e : Envelope}

def new : EnvelopeVisitor := ⟨none, none, none, none, none, none, ∅⟩

def valueAsBytes (value : Value) (field : String) : Except String Bytes :=
  match value with
  | .bytes bytes => .ok bytes
  | _ => .error s!"invalid {field} field (expected bytes)"

def valueAsU64 (value : Value) (field : String) : Except String UInt64 :=
  match value with
  | .integer n =>
    if 0 ≤ n then
      if n < 2 ^ 64 then .ok (UInt64.ofNat n.toNat) else .error s!"invalid {field} field range"
    else .error s!"invalid {field} field (expected unsigned integer)"
  | _ => .error s!"invalid {field} field (expected unsigned integer)"

def valueAsU32 (value : Value) (field : String) : Except String UInt32 := do
  let raw ← valueAsU64 value field
  if raw.toNat < 2 ^ 32 then return raw.toUInt32 else throw s!"invalid {field} field range"

/-- `key as u64` of a key that is not negative. -/
def narrowKey (key : ℤ) : UInt64 := UInt64.ofNat key.toNat

/-- One turn of the loop. -/
def visitEntry (self : EnvelopeVisitor) (entry : ℤ × Value) : Except String EnvelopeVisitor :=
  let (key, value) := entry
  if key = 0 then do return { self with threadId := some (← valueAsBytes value "thread_id") }
  else if key = 1 then do return { self with epoch := some (← valueAsU32 value "epoch") }
  else if key = 2 then do return { self with seq := some (← valueAsU64 value "seq") }
  else if key = 3 then do
    return { self with senderUserId := some (← valueAsBytes value "sender_user_id") }
  else if key = 4 then do
    return { self with ciphertext := some (← valueAsBytes value "ciphertext") }
  else if key = 5 then do return { self with signature := some (← valueAsBytes value "signature") }
  else if 0 ≤ key then
    .ok { self with extensions := self.extensions.insert (narrowKey key) value }
  else .error "negative extension key"

def missingField (field : String) : String := s!"missing field `{field}`"

def require {α : Type} (value : Option α) (field : String) : Except String α :=
  match value with
  | some a => .ok a
  | none => .error (missingField field)

def finish (self : EnvelopeVisitor) : Except String Envelope := do
  return {
    threadId := ← require self.threadId "thread_id"
    epoch := ← require self.epoch "epoch"
    seq := ← require self.seq "seq"
    senderUserId := ← require self.senderUserId "sender_user_id"
    ciphertext := ← require self.ciphertext "ciphertext"
    signature := self.signature
    extensions := self.extensions }

def visitMap (entries : List (ℤ × Value)) : Except String Envelope := do
  let visitor ← entries.foldlM visitEntry new
  visitor.finish

/-- Storing a named field, whose key is at most 5, leaves the extensions alone. -/
lemma extensions_of_stored {α : Type} {x : Except String α} {f : α → EnvelopeVisitor}
    (h : (do return f (← x)) = Except.ok self') (hf : ∀ a, (f a).extensions = self.extensions)
    (hkey : 0 ≤ key ∧ key ≤ 5) :
    0 ≤ key ∧ self'.extensions =
      if 5 < key then self.extensions.insert (narrowKey key) value else self.extensions := by
  obtain ⟨a, _, ha⟩ := bind_eq_ok.mp h
  rw [← Except.ok.inj ha, hf a, if_neg (by omega)]
  exact ⟨hkey.1, rfl⟩

/-- One turn of the loop touches the extensions only for a key past the named
fields, and refuses negative keys. -/
theorem visitEntry_extensions (h : self.visitEntry (key, value) = .ok self') :
    0 ≤ key ∧ self'.extensions =
      if 5 < key then self.extensions.insert (narrowKey key) value else self.extensions := by
  simp only [visitEntry] at h
  split_ifs at h with h0 h1 h2 h3 h4 h5 hpos
  iterate 6 exact extensions_of_stored h (fun _ => rfl) (by omega)
  · rw [← Except.ok.inj h, if_pos (by omega)]
    exact ⟨hpos, rfl⟩

/-- After any number of turns, the identifiers in the extensions are those that
were there and the narrowed keys past the named fields. -/
theorem foldlM_visitEntry_extensions (h : entries.foldlM visitEntry self = .ok self') (j : UInt64) :
    self'.extensions[j]? ≠ none ↔
      self.extensions[j]? ≠ none ∨ ∃ e ∈ entries, 5 < e.1 ∧ narrowKey e.1 = j := by
  induction entries generalizing self with
  | nil =>
    rw [← Except.ok.inj h]
    simp
  | cons e entries ih =>
    rw [List.foldlM_cons] at h
    obtain ⟨next, hnext, hrest⟩ := bind_eq_ok.mp h
    obtain ⟨_, hext⟩ := visitEntry_extensions hnext
    have hstep : next.extensions[j]? ≠ none ↔
        self.extensions[j]? ≠ none ∨ 5 < e.1 ∧ narrowKey e.1 = j := by
      rw [hext]
      by_cases hkey : 5 < e.1
      · rw [if_pos hkey]
        by_cases hj : narrowKey e.1 = j
        · subst hj
          simp [hkey]
        · simp [getElem?_insert_ne hj, hj]
      · simp [hkey]
    rw [ih hrest, hstep, or_assoc, List.exists_mem_cons_iff]

theorem finish_extensions (h : self.finish = .ok e) : e.extensions = self.extensions := by
  simp only [finish, bind_eq_ok] at h
  obtain ⟨_, _, _, _, _, _, _, _, _, _, h⟩ := h
  rw [← Except.ok.inj h]

/-- The identifiers under which an accepted envelope has extensions. -/
theorem visitMap_extensions (h : visitMap entries = .ok e) (j : UInt64) :
    e.extensions[j]? ≠ none ↔ ∃ x ∈ entries, 5 < x.1 ∧ narrowKey x.1 = j := by
  obtain ⟨visitor, hfold, hfinish⟩ := bind_eq_ok.mp h
  rw [finish_extensions hfinish, foldlM_visitEntry_extensions hfold j]
  simp [new]

/-- A key past the 64-bit range that narrows to an identifier below `n`. -/
def Wraps (n : ℕ) (key : ℤ) : Prop := 2 ^ 64 ≤ key ∧ key % 2 ^ 64 < n

theorem toNat_narrowKey (h : 0 ≤ key) : ((narrowKey key).toNat : ℤ) = key % 2 ^ 64 := by
  rw [narrowKey, UInt64.toNat_ofNat']
  omega

/-- Extensions come to stand below `n` only through keys that wrap around. -/
theorem extension_below_iff (h : visitMap entries = .ok e) {n : ℕ} (hn : n ≤ 6) :
    (∃ j : UInt64, j.toNat < n ∧ e.extensions[j]? ≠ none) ↔ ∃ x ∈ entries, Wraps n x.1 := by
  constructor
  · rintro ⟨j, hj, hne⟩
    obtain ⟨x, hx, hkey, rfl⟩ := (visitMap_extensions h j).mp hne
    have hnarrow := toNat_narrowKey (by omega : 0 ≤ x.1)
    refine ⟨x, hx, ?_, ?_⟩
    · by_contra hlt
      rw [Int.emod_eq_of_lt (by omega) (by omega)] at hnarrow
      omega
    · omega
  · rintro ⟨x, hx, hbig, hwrap⟩
    have hnarrow := toNat_narrowKey (by omega : 0 ≤ x.1)
    refine ⟨narrowKey x.1, by omega, ?_⟩
    exact (visitMap_extensions h _).mpr ⟨x, hx, by omega, rfl⟩

theorem valueAsU64_natCast {n : ℕ} (h : n < 2 ^ 64) (field : String) :
    valueAsU64 (.integer n) field = .ok (UInt64.ofNat n) := by
  have hlt : (n : ℤ) < 2 ^ 64 := by exact_mod_cast h
  rw [valueAsU64, if_pos (by omega), if_pos hlt, Int.toNat_natCast]

theorem valueAsU64_toNat (n : UInt64) (field : String) :
    valueAsU64 (.integer n.toNat) field = .ok n := by
  rw [valueAsU64_natCast n.toNat_lt, UInt64.ofNat_toNat]

theorem valueAsU32_toNat (n : UInt32) (field : String) :
    valueAsU32 (.integer n.toNat) field = .ok n := by
  have hlt := n.toNat_lt
  have hsmall : (UInt64.ofNat n.toNat).toNat = n.toNat :=
    UInt64.toNat_ofNat_of_lt' (lt_trans hlt (by decide))
  have hback : (UInt64.ofNat n.toNat).toUInt32 = n := by
    rw [← UInt32.toNat_inj, UInt64.toNat_toUInt32, hsmall, Nat.mod_eq_of_lt hlt]
  rw [valueAsU32, valueAsU64_natCast (lt_trans hlt (by decide)), ok_bind, hsmall, if_pos hlt, hback]
  rfl

/-- The entries of an envelope's five signed fields, and one more. -/
def fieldEntries (e : Envelope) (key : ℤ) (value : Value) : List (ℤ × Value) :=
  [(0, .bytes e.threadId), (1, .integer e.epoch.toNat), (2, .integer e.seq.toNat),
    (3, .bytes e.senderUserId), (4, .bytes e.ciphertext), (key, value)]

theorem visitMap_fieldEntries (hkey : 5 < key) (hsig : e.signature = none)
    (hext : e.extensions = (∅ : FieldMap).insert (narrowKey key) value) :
    visitMap (fieldEntries e key value) = .ok e := by
  have hepoch := valueAsU32_toNat e.epoch "epoch"
  have hseq := valueAsU64_toNat e.seq "seq"
  have h0 : key ≠ 0 ∧ key ≠ 1 ∧ key ≠ 2 ∧ key ≠ 3 ∧ key ≠ 4 ∧ key ≠ 5 ∧ 0 ≤ key := by omega
  obtain ⟨t, ep, sq, sd, ct, sg, ext⟩ := e
  simp only at hsig hext hepoch hseq
  subst hsig hext
  simp [visitMap, fieldEntries, visitEntry, hepoch, hseq, valueAsBytes, h0, new, finish, require]

end EnvelopeVisitor

/-- The form whose canonical bytes are hashed to check the signature. -/
def Envelope.unsigned (self : Envelope) : Envelope := { self with signature := none }

/-- The fields a signature is meant to cover. -/
def Envelope.signedFields (self : Envelope) : Bytes × UInt32 × UInt64 × Bytes × Bytes :=
  (self.threadId, self.epoch, self.seq, self.senderUserId, self.ciphertext)

theorem Envelope.named_eq_of_signedFields {e e' : Envelope}
    (h : e.signedFields = e'.signedFields) (hs : e.signature = e'.signature) :
    e.named = e'.named := by
  simp only [signedFields, Prod.mk.injEq] at h
  simp only [named, h, hs]

/-- Envelopes with no extension under the five signed fields are bound by the
bytes of their unsigned forms. -/
theorem Envelope.signedFields_eq_of_equivalent {e e' : Envelope}
    (he : KeysIn {j | 5 ≤ j.toNat} e.extensions) (he' : KeysIn {j | 5 ≤ j.toNat} e'.extensions)
    (h : Equivalent (toCborValue e.unsigned) (toCborValue e'.unsigned)) :
    e.signedFields = e'.signedFields := by
  have hclear : Clear 5 {j | 5 ≤ j.toNat} := fun _ hj => hj
  have hrel := record_rel (e.fields.take 5) (e'.fields.take 5) [0, 1, 2, 3, 4] ⟨rfl, rfl⟩
    ⟨by decide, by simp⟩ hclear he he' h
  obtain - | ⟨hthread, - | ⟨hepoch, - | ⟨hseq, - | ⟨hsender, - | ⟨hcipher, -⟩⟩⟩⟩⟩ := hrel
  rw [signedFields, signedFields, bytes_inj _ _ (of_rel_some hthread),
    integer_inj u32_inj _ _ (of_rel_some hepoch), integer_inj u64_inj _ _ (of_rel_some hseq),
    bytes_inj _ _ (of_rel_some hsender), bytes_inj _ _ (of_rel_some hcipher)]

namespace EnvelopeVisitor

/-- Accepted entry sequences over the given keys whose unsigned envelopes have
the same canonical bytes agree on the signed fields. -/
def DecodedBound (K : Set ℤ) : Prop :=
  ∀ entries entries' e e' b, (∀ x ∈ entries, x.1 ∈ K) → (∀ x ∈ entries', x.1 ∈ K) →
    visitMap entries = .ok e → visitMap entries' = .ok e' →
    toCtap2CanonicalBytes e.unsigned = .ok b → toCtap2CanonicalBytes e'.unsigned = .ok b →
    e.signedFields = e'.signedFields

theorem keysIn_of_not_wraps {entries : List (ℤ × Value)} {e : Envelope}
    (h : visitMap entries = .ok e) (hK : ∀ x ∈ entries, ¬ Wraps 5 x.1) :
    KeysIn {j | 5 ≤ j.toNat} e.extensions := by
  intro j hj
  by_contra hlt
  obtain ⟨x, hx, hwraps⟩ := (extension_below_iff h (by norm_num : 5 ≤ 6)).mp
    ⟨j, not_le.mp hlt, hj⟩
  exact hK x hx hwraps

/-- One wrapping key is enough for two envelopes with different signed fields and
the same bytes. -/
theorem not_decodedBound {K : Set ℤ} (hK : {0, 1, 2, 3, 4} ⊆ K) {k : ℤ} (hk : k ∈ K)
    (hwraps : Wraps 5 k) : ¬ DecodedBound K := by
  intro hb
  obtain ⟨hbig, hlow⟩ := hwraps
  have hnarrow := toNat_narrowKey (by omega : 0 ≤ k)
  have hlt : (narrowKey k).toNat < 5 := by omega
  have hne : narrowKey k ≠ 5 := by
    intro h5
    rw [h5] at hlt
    exact absurd hlt (by decide)
  have hsig : (Envelope.changed (narrowKey k)).signature = none := if_neg hne
  have hclash := Envelope.clash (Set.mem_univ (narrowKey k)) (by omega)
  have hunsigned : (Envelope.changed (narrowKey k)).unsigned = Envelope.changed (narrowKey k) := by
    rw [Envelope.unsigned, ← hsig]
  have hkeys : ∀ e, ∀ x ∈ fieldEntries e k .null, x.1 ∈ K := by
    intro e
    simpa [fieldEntries, hk, Set.insert_subset_iff] using hK
  have hbytes := encodeValue_of_fits hclash.fits
  have heq := hb _ _ _ _ _ (hkeys (.plain (narrowKey k))) (hkeys (.changed (narrowKey k)))
    (visitMap_fieldEntries (by omega) rfl rfl) (visitMap_fieldEntries (by omega) hsig rfl) hbytes
    (by rw [hunsigned, toCtap2CanonicalBytes, ← hclash.same]; exact hbytes)
  exact hclash.differ (Envelope.named_eq_of_signedFields heq hsig.symm)

/-- A decoded envelope has no extension under the identifier of a named field
exactly when no key wraps around to one; and over any stock of keys that has the
five signed fields, signatures bind what was decoded exactly when no key wraps
around to one of the five. -/
theorem decoded_envelope_bound_iff {entries : List (ℤ × Value)} {e : Envelope}
    (h : visitMap entries = .ok e) {K : Set ℤ} (hK : {0, 1, 2, 3, 4} ⊆ K) :
    ((∀ j : UInt64, j.toNat ≤ 5 → e.extensions[j]? = none) ↔ ∀ x ∈ entries, ¬ Wraps 6 x.1) ∧
    (DecodedBound K ↔ ∀ k ∈ K, ¬ Wraps 5 k) := by
  constructor
  · have hiff := not_congr (extension_below_iff h (le_refl 6))
    push Not at hiff
    rw [← hiff]
    exact forall_congr' fun j => ⟨fun hj hlt => hj (by omega), fun hj hle => hj (by omega)⟩
  · constructor
    · exact fun hb k hk hwraps => not_decodedBound hK hk hwraps hb
    · intro hwraps entries entries' e e' b hkeys hkeys' hv hv' hb hb'
      exact Envelope.signedFields_eq_of_equivalent
        (keysIn_of_not_wraps hv fun x hx => hwraps _ (hkeys x hx))
        (keysIn_of_not_wraps hv' fun x hx => hwraps _ (hkeys' x hx)) (equiv_of_bytes_eq hb hb')

/-- An envelope with one extension, under six, and the keys of the 64-bit range. -/
theorem decoded_envelope_bound_u64 :
    (∀ j : UInt64, j.toNat ≤ 5 → ((∅ : FieldMap).insert (narrowKey 6) .null)[j]? = none) ∧
      DecodedBound {k | k < 2 ^ 64} := by
  have hvisit : visitMap (fieldEntries ⟨[1], 0, 0, [2], [3], none,
      (∅ : FieldMap).insert (narrowKey 6) .null⟩ 6 .null) = .ok ⟨[1], 0, 0, [2], [3], none,
      (∅ : FieldMap).insert (narrowKey 6) .null⟩ := visitMap_fieldEntries (by norm_num) rfl rfl
  have hK : ({0, 1, 2, 3, 4} : Set ℤ) ⊆ {k | k < 2 ^ 64} := by
    simp [Set.insert_subset_iff]
  obtain ⟨hext, hbound⟩ := decoded_envelope_bound_iff hvisit hK
  refine ⟨hext.mpr ?_, hbound.mpr ?_⟩
  · simp [fieldEntries, Wraps]
  · exact fun k hk hwraps => absurd hwraps.1 (not_le.mpr hk)

/-- The key two to the 64 is stored under zero and takes the place of the thread. -/
theorem wrapped_key_hides_thread :
    visitMap [(0, .bytes [1]), (1, .integer 0), (2, .integer 0), (3, .bytes []), (4, .bytes []),
        (2 ^ 64, .bytes [9])] =
      .ok ⟨[1], 0, 0, [], [], none, (∅ : FieldMap).insert 0 (.bytes [9])⟩ ∧
    visitMap [(0, .bytes [2]), (1, .integer 0), (2, .integer 0), (3, .bytes []), (4, .bytes []),
        (2 ^ 64, .bytes [9])] =
      .ok ⟨[2], 0, 0, [], [], none, (∅ : FieldMap).insert 0 (.bytes [9])⟩ ∧
    toCtap2CanonicalBytes
        (⟨[1], 0, 0, [], [], none, (∅ : FieldMap).insert 0 (.bytes [9])⟩ : Envelope).unsigned =
      .ok [0xa5, 0x00, 0x41, 0x09, 0x01, 0x00, 0x02, 0x00, 0x03, 0x40, 0x04, 0x40] ∧
    toCtap2CanonicalBytes
        (⟨[2], 0, 0, [], [], none, (∅ : FieldMap).insert 0 (.bytes [9])⟩ : Envelope).unsigned =
      .ok [0xa5, 0x00, 0x41, 0x09, 0x01, 0x00, 0x02, 0x00, 0x03, 0x40, 0x04, 0x40] := by
  have hfits : ∀ t : Bytes, t.length < 2 ^ 64 → (toCborValue (⟨t, 0, 0, [], [], none,
      (∅ : FieldMap).insert 0 (.bytes [9])⟩ : Envelope)).Fits := by
    intro t ht
    refine fits_extended (by simp [Envelope.fields]) ?_ (by decide)
      ((Value.fits_bytes _).mpr (by decide))
    simp [Envelope.fields, Value.fits_bytes, Value.fits_integer]
    exact ht
  have hzero : narrowKey (2 ^ 64) = 0 := by
    rw [← UInt64.toNat_inj, ← Int.natCast_inj, toNat_narrowKey (by norm_num)]
    norm_num
  have hvisit : ∀ t, visitMap (fieldEntries ⟨t, 0, 0, [], [], none,
      (∅ : FieldMap).insert 0 (.bytes [9])⟩ (2 ^ 64) (.bytes [9])) =
      .ok ⟨t, 0, 0, [], [], none, (∅ : FieldMap).insert 0 (.bytes [9])⟩ := fun t =>
    visitMap_fieldEntries (by norm_num) rfl (by rw [hzero])
  exact ⟨hvisit [1], hvisit [2], encodeValue_of_fits (hfits [1] (by decide)),
    encodeValue_of_fits (hfits [2] (by decide))⟩

end EnvelopeVisitor
end Spex
