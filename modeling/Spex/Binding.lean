import Spex.Types

/-!
# What canonical bytes bind

An extension under the identifier of a named field hides that field from the
encoding. The canonical bytes of a structure determine its named fields exactly
when extensions are kept away from the identifiers in use, at every level.
-/
namespace Spex
open Cbor Overlay
variable {S T : Set UInt64} {k : UInt64}

/-- The structure without its extensions. -/
def InviteToken.named (self : InviteToken) : InviteToken := { self with extensions := ∅ }

def GrantToken.named (self : GrantToken) : GrantToken := { self with extensions := ∅ }

def Envelope.named (self : Envelope) : Envelope := { self with extensions := ∅ }

/-- The card without extensions, neither its own nor the invite's. -/
def ContactCard.named (self : ContactCard) : ContactCard :=
  { self with invite := self.invite.map InviteToken.named, extensions := ∅ }

/-- The configuration without extensions, neither its own nor those of grants. -/
def ThreadConfig.named (self : ThreadConfig) : ThreadConfig :=
  { self with grants := self.grants.map GrantToken.named, extensions := ∅ }

/-- Every extension stands under one of the given identifiers. -/
def KeysIn (S : Set UInt64) (extensions : FieldMap) : Prop :=
  ∀ k : UInt64, extensions[k]? ≠ none → k ∈ S

/-- No identifier below `n`. -/
def Clear (n : ℕ) (S : Set UInt64) : Prop := ∀ k ∈ S, n ≤ k.toNat

/-- Among the structures allowed, the canonical bytes determine the named fields. -/
def Binds {α : Type} [Ctap2Cbor α] (named : α → α) (allowed : α → Prop) : Prop :=
  ∀ a a' b, allowed a → allowed a' → toCtap2CanonicalBytes a = .ok b →
    toCtap2CanonicalBytes a' = .ok b → named a = named a'

lemma KeysIn.getElem?_eq_none {X : FieldMap} (h : KeysIn S X) {n : ℕ} (hS : Clear n S)
    (hk : k.toNat < n) : X[k]? = none := by
  by_contra hne
  have := hS k (h k hne)
  omega

section Records
variable {α : Type}

/-- Two records with the same identifiers, none of them taken by an extension. -/
lemma record_rel (fields fields' : List (UInt64 × Option Value)) (ids : List UInt64) {n : ℕ}
    (hids : fields.map Prod.fst = ids ∧ fields'.map Prod.fst = ids)
    (hd : ids.Nodup ∧ ∀ k ∈ ids, k.toNat < n) {S : Set UInt64} (hS : Clear n S) {X X' : FieldMap}
    (hX : KeysIn S X) (hX' : KeysIn S X')
    (h : Equivalent (fieldsToValue fields X) (fieldsToValue fields' X')) :
    List.Forall₂ (Option.Rel Equivalent) (fields.map Prod.snd) (fields'.map Prod.snd) := by
  refine FieldMap.fields_rel (hids.1.trans hids.2.symm) (hids.1 ▸ hd.1) ?_ ?_ h
  · exact fun k hk => hX.getElem?_eq_none hS (hd.2 k (hids.1 ▸ hk))
  · exact fun k hk => hX'.getElem?_eq_none hS (hd.2 k (hids.1 ▸ hk))

lemma map_eq_of_rel {β : Type} {f : α → Value} {g : α → β} {o o' : Option α}
    (hf : ∀ a ∈ o, ∀ b ∈ o', Equivalent (f a) (f b) → g a = g b)
    (h : Option.Rel Equivalent (o.map f) (o'.map f)) : o.map g = o'.map g := by
  cases o <;> cases o' <;> cases h
  · rfl
  · exact congrArg some (hf _ rfl _ rfl ‹_›)

lemma eq_of_rel {f : α → Value} (hf : ∀ a b, Equivalent (f a) (f b) → a = b)
    {o o' : Option α} (h : Option.Rel Equivalent (o.map f) (o'.map f)) : o = o' := by
  have hid := map_eq_of_rel (g := id) (fun a _ b _ => hf a b) h
  rwa [Option.map_id, id_eq, id_eq] at hid

lemma of_rel_some {v w : Value} (h : Option.Rel Equivalent (some v) (some w)) :
    Equivalent v w := by
  cases h
  assumption

lemma bytes_inj (a b : Bytes) (h : Equivalent (.bytes a) (.bytes b)) : a = b :=
  equivalent_bytes_iff.mp h

lemma bool_inj (a b : Bool) (h : Equivalent (.bool a) (.bool b)) : a = b :=
  equivalent_bool_iff.mp h

/-- A machine integer is bound by its CBOR integer. -/
lemma integer_inj {toNat : α → ℕ} (hinj : Function.Injective toNat) (a b : α)
    (h : Equivalent (.integer (toNat a)) (.integer (toNat b))) : a = b :=
  hinj (by exact_mod_cast equivalent_integer_iff.mp h)

lemma u16_inj : Function.Injective UInt16.toNat := fun _ _ h => UInt16.toNat_inj.mp h
lemma u32_inj : Function.Injective UInt32.toNat := fun _ _ h => UInt32.toNat_inj.mp h
lemma u64_inj : Function.Injective UInt64.toNat := fun _ _ h => UInt64.toNat_inj.mp h
lemma u8_inj : Function.Injective UInt8.toNat := fun _ _ h => UInt8.toNat_inj.mp h

end Records

theorem InviteToken.named_eq_of_equivalent (hS : Clear 3 S) {t t' : InviteToken}
    (ht : KeysIn S t.extensions) (ht' : KeysIn S t'.extensions)
    (h : Equivalent (toCborValue t) (toCborValue t')) : t.named = t'.named := by
  have hrel := record_rel t.fields t'.fields [0, 1, 2] ⟨rfl, rfl⟩ ⟨by decide, by simp⟩ hS ht ht' h
  obtain - | ⟨hmajor, - | ⟨hminor, - | ⟨hpuzzle, -⟩⟩⟩ := hrel
  rw [named, named, integer_inj u16_inj _ _ (of_rel_some hmajor),
    integer_inj u16_inj _ _ (of_rel_some hminor), bool_inj _ _ (of_rel_some hpuzzle)]

theorem GrantToken.named_eq_of_equivalent (hS : Clear 4 S) {g g' : GrantToken}
    (hg : KeysIn S g.extensions) (hg' : KeysIn S g'.extensions)
    (h : Equivalent (toCborValue g) (toCborValue g')) : g.named = g'.named := by
  have hrel := record_rel g.fields g'.fields [0, 1, 2, 3] ⟨rfl, rfl⟩
    ⟨by decide, by simp⟩ hS hg hg' h
  obtain - | ⟨huser, - | ⟨hrole, - | ⟨hflags, - | ⟨hexpires, -⟩⟩⟩⟩ := hrel
  rw [named, named, bytes_inj _ _ (of_rel_some huser),
    integer_inj u64_inj _ _ (of_rel_some hrole), eq_of_rel (integer_inj u64_inj) hflags,
    eq_of_rel (integer_inj u64_inj) hexpires]

theorem Envelope.named_eq_of_equivalent (hS : Clear 6 S) {e e' : Envelope}
    (he : KeysIn S e.extensions) (he' : KeysIn S e'.extensions)
    (h : Equivalent (toCborValue e) (toCborValue e')) : e.named = e'.named := by
  have hrel := record_rel e.fields e'.fields [0, 1, 2, 3, 4, 5] ⟨rfl, rfl⟩
    ⟨by decide, by simp⟩ hS he he' h
  obtain - | ⟨hthread, - | ⟨hepoch, - | ⟨hseq, - | ⟨hsender, - | ⟨hcipher, - | ⟨hsig, -⟩⟩⟩⟩⟩⟩ :=
    hrel
  rw [named, named, bytes_inj _ _ (of_rel_some hthread),
    integer_inj u32_inj _ _ (of_rel_some hepoch), integer_inj u64_inj _ _ (of_rel_some hseq),
    bytes_inj _ _ (of_rel_some hsender), bytes_inj _ _ (of_rel_some hcipher),
    eq_of_rel bytes_inj hsig]

theorem ContactCard.named_eq_of_equivalent (hS : Clear 7 S) (hT : Clear 3 T) {c c' : ContactCard}
    (hc : KeysIn S c.extensions) (hc' : KeysIn S c'.extensions)
    (hi : ∀ i ∈ c.invite, KeysIn T i.extensions) (hi' : ∀ i ∈ c'.invite, KeysIn T i.extensions)
    (h : Equivalent (toCborValue c) (toCborValue c')) : c.named = c'.named := by
  have hrel := record_rel c.fields c'.fields [0, 1, 2, 3, 4, 5, 6] ⟨rfl, rfl⟩
    ⟨by decide, by simp⟩ hS hc hc' h
  obtain - | ⟨huser, - | ⟨hkey, - | ⟨hdevice, - | ⟨hnonce, - | ⟨hissued, - | ⟨hinvite, - |
    ⟨hsig, -⟩⟩⟩⟩⟩⟩⟩ := hrel
  have hnamed : c.invite.map InviteToken.named = c'.invite.map InviteToken.named :=
    map_eq_of_rel (fun i hic j hjc => InviteToken.named_eq_of_equivalent hT (hi i hic) (hi' j hjc))
      hinvite
  rw [named, named, bytes_inj _ _ (of_rel_some huser), bytes_inj _ _ (of_rel_some hkey),
    bytes_inj _ _ (of_rel_some hdevice), bytes_inj _ _ (of_rel_some hnonce),
    integer_inj u64_inj _ _ (of_rel_some hissued), hnamed, eq_of_rel bytes_inj hsig]

theorem ThreadConfig.named_eq_of_equivalent (hS : Clear 6 S) (hT : Clear 4 T) {c c' : ThreadConfig}
    (hc : KeysIn S c.extensions) (hc' : KeysIn S c'.extensions)
    (hg : ∀ g ∈ c.grants, KeysIn T g.extensions) (hg' : ∀ g ∈ c'.grants, KeysIn T g.extensions)
    (h : Equivalent (toCborValue c) (toCborValue c')) : c.named = c'.named := by
  have hrel := record_rel c.fields c'.fields [0, 1, 2, 3, 4, 5] ⟨rfl, rfl⟩
    ⟨by decide, by simp⟩ hS hc hc' h
  obtain - | ⟨hmajor, - | ⟨hminor, - | ⟨hsuite, - | ⟨hflags, - | ⟨hthread, - | ⟨hgrants, -⟩⟩⟩⟩⟩⟩ :=
    hrel
  have hitems := equivalent_array_iff.mp (of_rel_some hgrants)
  rw [List.forall₂_map_left_iff, List.forall₂_map_right_iff] at hitems
  have hnamed : c.grants.map GrantToken.named = c'.grants.map GrantToken.named :=
    map_eq_of_forall₂ hitems fun g hgc g' hgc' =>
      GrantToken.named_eq_of_equivalent hT (hg g hgc) (hg' g' hgc')
  rw [named, named, integer_inj u16_inj _ _ (of_rel_some hmajor),
    integer_inj u16_inj _ _ (of_rel_some hminor), integer_inj u16_inj _ _ (of_rel_some hsuite),
    integer_inj u8_inj _ _ (of_rel_some hflags), bytes_inj _ _ (of_rel_some hthread), hnamed]

section Clashes
variable {S : Set UInt64}

/-- An extension map with one entry. -/
def single (k : UInt64) : FieldMap := (∅ : FieldMap).insert k .null

theorem single_ne_none (k : UInt64) : (single k)[k]? ≠ none := by
  rw [single, Std.ExtTreeMap.getElem?_insert_self]
  exact Option.some_ne_none _

theorem keysIn_single {k : UInt64} (hk : k ∈ S) : KeysIn S (single k) := by
  intro j hj
  by_cases h : k = j
  · exact h ▸ hk
  · rw [single, getElem?_insert_ne h, Std.ExtTreeMap.getElem?_empty] at hj
    exact absurd rfl hj

theorem keysIn_empty (S : Set UInt64) : KeysIn S ∅ := by
  intro k hk
  rw [Std.ExtTreeMap.getElem?_empty] at hk
  exact absurd rfl hk

section Fits
variable {fields : List (UInt64 × Option Value)} (hkeys : 100 ∉ fields.map Prod.fst)
  (hfields : ∀ field ∈ fields, ∀ v ∈ field.2, v.Fits)
include hkeys hfields

/-- A record of fields that fit has an encoding if some identifier is free. -/
lemma fits_fieldsToValue {X : FieldMap} (hX : X.All Value.Fits)
    (hfree : X[(100 : UInt64)]? = none) : (fieldsToValue fields X).Fits := by
  apply FieldMap.fits_toValue (FieldMap.all_overlay (FieldMap.all_ofFields hfields) hX) (j := 100)
  rw [getElem?_overlay, hfree, FieldMap.getElem?_ofFields_of_notMem hkeys, Option.none_or]

lemma fits_bare : (fieldsToValue fields ∅).Fits :=
  fits_fieldsToValue hkeys hfields FieldMap.all_empty Std.ExtTreeMap.getElem?_empty

lemma fits_extended {k : UInt64} {v : Value} (hk : k.toNat < 100) (hv : v.Fits) :
    (fieldsToValue fields ((∅ : FieldMap).insert k v)).Fits := by
  refine fits_fieldsToValue hkeys hfields (FieldMap.all_insert FieldMap.all_empty hv) ?_
  rw [getElem?_insert_ne, Std.ExtTreeMap.getElem?_empty]
  rintro rfl
  exact absurd hk (by decide)

end Fits

lemma mem_of_toNat_lt {k : UInt64} {n : ℕ} (h : k.toNat < n) :
    k ∈ (List.range n).map UInt64.ofNat :=
  List.mem_map.mpr ⟨k.toNat, List.mem_range.mpr h, UInt64.ofNat_toNat⟩

variable {α : Type} [Ctap2Cbor α] {named : α → α} {allowed : α → Prop}

/-- Two allowed structures with one CBOR form and different named fields. -/
structure Clash (named : α → α) (allowed : α → Prop) (a a' : α) : Prop where
  left : allowed a
  right : allowed a'
  same : toCborValue a = toCborValue a'
  fits : (toCborValue a).Fits
  differ : named a ≠ named a'

/-- Clashing structures have the same canonical bytes. -/
theorem Clash.exists_bytes {a a' : α} (h : Clash named allowed a a') :
    ∃ bytes, toCtap2CanonicalBytes a = .ok bytes ∧ toCtap2CanonicalBytes a' = .ok bytes := by
  refine ⟨wire (toCborValue a), encodeValue_of_fits h.fits, ?_⟩
  rw [h.same]
  exact encodeValue_of_fits (h.same ▸ h.fits)

theorem Clash.not_binds {a a' : α} (h : Clash named allowed a a') : ¬ Binds named allowed := by
  intro hb
  obtain ⟨bytes, ha, ha'⟩ := h.exists_bytes
  exact h.differ (hb a a' bytes h.left h.right ha ha')

lemma exists_of_not_clear {n : ℕ} (h : ¬ Clear n S) : ∃ k ∈ S, k.toNat < n := by
  simpa [Clear] using h

/-- If the bytes determine the named fields, no identifier below `n` is allowed
that two clashing structures could share. -/
theorem Binds.clear (h : Binds named allowed) {n : ℕ}
    (hclash : ∀ k ∈ S, k.toNat < n → ∃ a a', Clash named allowed a a') : Clear n S := by
  by_contra hS
  obtain ⟨k, hk, hlt⟩ := exists_of_not_clear hS
  obtain ⟨a, a', ha⟩ := hclash k hk hlt
  exact ha.not_binds h

/-- Equal bytes come from equivalent values. -/
theorem binds_of_equivalent
    (h : ∀ a a' : α, allowed a → allowed a' → Equivalent (toCborValue a) (toCborValue a') →
      named a = named a') : Binds named allowed :=
  fun a a' _ ha ha' hb hb' => h a a' ha ha' (equiv_of_bytes_eq hb hb')

end Clashes

/-- Two grants that differ in the field under `k` only, with an extension there. -/
theorem GrantToken.exists_clash (hk : k ∈ S) (hlt : k.toNat < 4) :
    ∃ g g' : GrantToken, Clash GrantToken.named (fun g => KeysIn S g.extensions) g g' ∧
      g.expiresAt = none ∧ ∀ e ∈ g'.expiresAt, e = 0xffffffffffffffff := by
  have hmem := mem_of_toNat_lt hlt
  refine ⟨⟨[], 0, none, none, single k⟩,
    ⟨if k = 0 then [0] else [], if k = 1 then 1 else 0, if k = 2 then some 0 else none,
      if k = 3 then some 0xffffffffffffffff else none, single k⟩, ⟨?_, ?_, ?_, ?_, ?_⟩, rfl, ?_⟩
  · exact keysIn_single hk
  · exact keysIn_single hk
  · apply FieldMap.toValue_eq_of_clash (single_ne_none k)
    simp +contextual [GrantToken.fields, eq_comm]
  · exact fits_extended (by simp [GrantToken.fields])
      (by simp [GrantToken.fields, Value.fits_bytes, Value.fits_integer]) (by omega) Value.fits_null
  · intro h
    simp [GrantToken.named] at h
    simp [List.range_succ, h] at hmem
  · simp

theorem InviteToken.exists_clash (hk : k ∈ S) (hlt : k.toNat < 3) :
    ∃ t t' : InviteToken, Clash InviteToken.named (fun t => KeysIn S t.extensions) t t' := by
  have hmem := mem_of_toNat_lt hlt
  refine ⟨⟨0, 0, false, single k⟩,
    ⟨if k = 0 then 1 else 0, if k = 1 then 1 else 0, decide (k = 2), single k⟩, ?_, ?_, ?_, ?_, ?_⟩
  · exact keysIn_single hk
  · exact keysIn_single hk
  · apply FieldMap.toValue_eq_of_clash (single_ne_none k)
    simp +contextual [InviteToken.fields, eq_comm]
  · exact fits_extended (by simp [InviteToken.fields])
      (by simp [InviteToken.fields, Value.fits_integer]) (by omega) Value.fits_null
  · intro h
    simp [InviteToken.named] at h
    simp [List.range_succ, h] at hmem

/-- An envelope of empty fields with an extension under `k`, and one in which
the field under `k` is another. -/
def Envelope.plain (k : UInt64) : Envelope := ⟨[], 0, 0, [], [], none, single k⟩

def Envelope.changed (k : UInt64) : Envelope :=
  ⟨if k = 0 then [0] else [], if k = 1 then 1 else 0, if k = 2 then 1 else 0,
    if k = 3 then [0] else [], if k = 4 then [0] else [], if k = 5 then some [] else none, single k⟩

theorem Envelope.clash (hk : k ∈ S) (hlt : k.toNat < 6) :
    Clash Envelope.named (fun e => KeysIn S e.extensions) (plain k) (changed k) := by
  have hmem := mem_of_toNat_lt hlt
  refine ⟨?_, ?_, ?_, ?_, ?_⟩
  · exact keysIn_single hk
  · exact keysIn_single hk
  · apply FieldMap.toValue_eq_of_clash (single_ne_none k)
    simp +contextual [Envelope.fields, plain, changed, eq_comm]
  · exact fits_extended (by simp [Envelope.fields])
      (by simp [Envelope.fields, plain, Value.fits_bytes, Value.fits_integer]) (by omega)
      Value.fits_null
  · intro h
    simp [Envelope.named, plain, changed] at h
    simp [List.range_succ, h] at hmem

/-- Cards whose own extensions stay within `S` and those of the invite within `T`. -/
def ContactCard.Within (S T : Set UInt64) (c : ContactCard) : Prop :=
  KeysIn S c.extensions ∧ ∀ i ∈ c.invite, KeysIn T i.extensions

/-- Configurations whose own extensions stay within `S` and those of every grant
within `T`. -/
def ThreadConfig.Within (S T : Set UInt64) (c : ThreadConfig) : Prop :=
  KeysIn S c.extensions ∧ ∀ g ∈ c.grants, KeysIn T g.extensions

theorem ContactCard.exists_clash (hk : k ∈ S) (hlt : k.toNat < 7) :
    ∃ c c' : ContactCard, Clash ContactCard.named (ContactCard.Within S T) c c' := by
  have hmem := mem_of_toNat_lt hlt
  refine ⟨⟨[], [], [], [], 0, none, none, single k⟩,
    ⟨if k = 0 then [0] else [], if k = 1 then [0] else [], if k = 2 then [0] else [],
      if k = 3 then [0] else [], if k = 4 then 1 else 0,
      if k = 5 then some ⟨0, 0, false, ∅⟩ else none, if k = 6 then some [] else none,
      single k⟩, ?_, ?_, ?_, ?_, ?_⟩
  · exact ⟨keysIn_single hk, by simp⟩
  · exact ⟨keysIn_single hk, by simp [keysIn_empty]⟩
  · apply FieldMap.toValue_eq_of_clash (single_ne_none k)
    simp +contextual [ContactCard.fields, eq_comm]
  · exact fits_extended (by simp [ContactCard.fields])
      (by simp [ContactCard.fields, Value.fits_bytes, Value.fits_integer]) (by omega)
      Value.fits_null
  · intro h
    simp [ContactCard.named] at h
    simp [List.range_succ, h] at hmem

theorem ContactCard.exists_clash_invite (hk : k ∈ T) (hlt : k.toNat < 3) :
    ∃ c c' : ContactCard, Clash ContactCard.named (ContactCard.Within S T) c c' := by
  obtain ⟨t, t', ht⟩ := InviteToken.exists_clash hk hlt
  refine ⟨⟨[], [], [], [], 0, some t, none, ∅⟩, ⟨[], [], [], [], 0, some t', none, ∅⟩,
    ?_, ?_, ?_, ?_, ?_⟩
  · exact ⟨keysIn_empty S, by simpa using ht.left⟩
  · exact ⟨keysIn_empty S, by simpa using ht.right⟩
  · have hfields : ContactCard.fields ⟨[], [], [], [], 0, some t, none, ∅⟩ =
        ContactCard.fields ⟨[], [], [], [], 0, some t', none, ∅⟩ := by
      simp [ContactCard.fields, ht.same]
    exact congrArg (fieldsToValue · ∅) hfields
  · exact fits_bare (by simp [ContactCard.fields])
      (by simp [ContactCard.fields, Value.fits_bytes, Value.fits_integer, ht.fits])
  · intro h
    apply ht.differ
    simpa [ContactCard.named] using h

theorem ThreadConfig.exists_clash (hk : k ∈ S) (hlt : k.toNat < 6) :
    ∃ c c' : ThreadConfig, Clash ThreadConfig.named (ThreadConfig.Within S T) c c' := by
  have hmem := mem_of_toNat_lt hlt
  refine ⟨⟨0, 0, 0, 0, [], [], single k⟩,
    ⟨if k = 0 then 1 else 0, if k = 1 then 1 else 0, if k = 2 then 1 else 0,
      if k = 3 then 1 else 0, if k = 4 then [0] else [],
      if k = 5 then [⟨[], 0, none, none, ∅⟩] else [], single k⟩, ?_, ?_, ?_, ?_, ?_⟩
  · exact ⟨keysIn_single hk, by simp⟩
  · exact ⟨keysIn_single hk, by simp [keysIn_empty]⟩
  · apply FieldMap.toValue_eq_of_clash (single_ne_none k)
    simp +contextual [ThreadConfig.fields, eq_comm]
  · exact fits_extended (by simp [ThreadConfig.fields])
      (by simp [ThreadConfig.fields, Value.fits_bytes, Value.fits_integer, Value.fits_array])
      (by omega) Value.fits_null
  · intro h
    simp [ThreadConfig.named] at h
    simp [List.range_succ, h] at hmem

theorem ThreadConfig.exists_clash_grant (hk : k ∈ T) (hlt : k.toNat < 4) :
    ∃ c c' : ThreadConfig, Clash ThreadConfig.named (ThreadConfig.Within S T) c c' := by
  obtain ⟨g, g', hg, -, -⟩ := GrantToken.exists_clash hk hlt
  refine ⟨⟨0, 0, 0, 0, [], [g], ∅⟩, ⟨0, 0, 0, 0, [], [g'], ∅⟩, ?_, ?_, ?_, ?_, ?_⟩
  · exact ⟨keysIn_empty S, by simpa using hg.left⟩
  · exact ⟨keysIn_empty S, by simpa using hg.right⟩
  · have hfields : ThreadConfig.fields ⟨0, 0, 0, 0, [], [g], ∅⟩ =
        ThreadConfig.fields ⟨0, 0, 0, 0, [], [g'], ∅⟩ := by
      simp [ThreadConfig.fields, hg.same]
    exact congrArg (fieldsToValue · ∅) hfields
  · exact fits_bare (by simp [ThreadConfig.fields]) (by
      simp [ThreadConfig.fields, Value.fits_bytes, Value.fits_integer, Value.fits_array, hg.fits])
  · intro h
    apply hg.differ
    simpa [ThreadConfig.named] using h

theorem GrantToken.binds_iff (S : Set UInt64) :
    Binds GrantToken.named (fun g => KeysIn S g.extensions) ↔ Clear 4 S := by
  constructor
  · intro hb
    refine hb.clear fun k hk hlt => ?_
    obtain ⟨g, g', hg, -, -⟩ := GrantToken.exists_clash hk hlt
    exact ⟨g, g', hg⟩
  · intro hS
    exact binds_of_equivalent fun g g' hg hg' heq => named_eq_of_equivalent hS hg hg' heq

theorem InviteToken.binds_iff (S : Set UInt64) :
    Binds InviteToken.named (fun t => KeysIn S t.extensions) ↔ Clear 3 S := by
  constructor
  · intro hb
    exact hb.clear fun k hk hlt => InviteToken.exists_clash hk hlt
  · intro hS
    exact binds_of_equivalent fun t t' ht ht' heq => named_eq_of_equivalent hS ht ht' heq

theorem Envelope.binds_iff (S : Set UInt64) :
    Binds Envelope.named (fun e => KeysIn S e.extensions) ↔ Clear 6 S := by
  constructor
  · intro hb
    exact hb.clear fun k hk hlt => ⟨_, _, Envelope.clash hk hlt⟩
  · intro hS
    exact binds_of_equivalent fun e e' he he' heq => named_eq_of_equivalent hS he he' heq

theorem ContactCard.binds_iff (S T : Set UInt64) :
    Binds ContactCard.named (ContactCard.Within S T) ↔ Clear 7 S ∧ Clear 3 T := by
  constructor
  · intro hb
    exact ⟨hb.clear fun k hk hlt => ContactCard.exists_clash hk hlt,
      hb.clear fun k hk hlt => ContactCard.exists_clash_invite hk hlt⟩
  · rintro ⟨hS, hT⟩
    exact binds_of_equivalent fun c c' hc hc' heq =>
      named_eq_of_equivalent hS hT hc.1 hc'.1 hc.2 hc'.2 heq

theorem ThreadConfig.binds_iff (S T : Set UInt64) :
    Binds ThreadConfig.named (ThreadConfig.Within S T) ↔ Clear 6 S ∧ Clear 4 T := by
  constructor
  · intro hb
    exact ⟨hb.clear fun k hk hlt => ThreadConfig.exists_clash hk hlt,
      hb.clear fun k hk hlt => ThreadConfig.exists_clash_grant hk hlt⟩
  · rintro ⟨hS, hT⟩
    exact binds_of_equivalent fun c c' hc hc' heq =>
      named_eq_of_equivalent hS hT hc.1 hc'.1 hc.2 hc'.2 heq

end Spex
