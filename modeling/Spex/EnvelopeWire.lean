import Spex.MessageDelivery

/-!
# The wire form of an envelope

The decoder of envelopes puts each entry of a map into a slot. When no key comes
twice and every key is a plain integer, the slots hold exactly the entries of the
map, and the encoder writes them back as they were. An envelope whose extensions
keep away from the named fields and are in normal form is decoded from its own
bytes.
-/
namespace Spex
open Cbor KeySort Fallible Overlay

/-- The node is not a tagged item. -/
def NodeUntagged : Value → Prop
  | .tag _ _ => False
  | _ => True

/-- The library reads untagged items as RFC 8949 says and entries in wire order,
writes every value of the data model, and reads a map that it has read and written
as the same entries. -/
structure Ciborium.FollowsRfc8949 (library : Ciborium) : Prop where
  reads : ∀ bytes value, value.Every NodeUntagged → readCbor bytes = some (value, []) →
    library.fromReader bytes = .ok value
  order : ∃ tagged, ReadsInWireOrder library.fromReader tagged
  writes : ∀ value : Value, value.Fits → ∃ buf, library.intoWriter value = .ok buf
  rereads : ∀ bytes entries buf, library.fromReader bytes = .ok (integerMap entries) →
    (integerMap entries).Fits → Cbor.normalize (integerMap entries) = integerMap entries →
    library.intoWriter (integerMap entries) = .ok buf → library.readMap buf = .ok entries

section IntegerMaps
variable {entries entries' : List (ℤ × Value)}

theorem fits_integerMap : (integerMap entries).Fits ↔ entries.length < 2 ^ 64 ∧
    ∀ entry ∈ entries, (-2 ^ 64 ≤ entry.1 ∧ entry.1 < 2 ^ 64) ∧ entry.2.Fits := by
  rw [integerMap, Value.fits_map, List.length_map, List.forall_mem_map]
  simp only [Value.fits_integer]

/-- The encoder sorts the entries by their keys and normalises the values. -/
theorem normalize_integerMap (entries : List (ℤ × Value)) :
    Cbor.normalize (integerMap entries) =
      integerMap ((sortOn ShortLex (fun entry => wire (.integer entry.1)) entries).map
        fun entry => (entry.1, Cbor.normalize entry.2)) := by
  let key : ℤ × Value → Bytes := fun entry => wire (.integer entry.1)
  rw [integerMap, normalize_map, integerMap, List.map_map,
    ← map_sortOn ShortLex key encodedKey _ _ fun _ _ => rfl, List.map_map]
  rfl

theorem normalize_integerMap_of_normal (h : ∀ entry ∈ entries, Cbor.normalize entry.2 = entry.2) :
    Cbor.normalize (integerMap entries) =
      integerMap (sortOn ShortLex (fun entry => wire (.integer entry.1)) entries) := by
  rw [normalize_integerMap]
  refine congrArg integerMap ((List.map_congr_left fun entry hentry => ?_).trans (List.map_id _))
  rw [mem_sortOn] at hentry
  exact Prod.ext rfl (h entry hentry)

/-- Entries of a map in normal form are in normal form. -/
theorem map_normalizeEntry_of_normal {es : List (Value × Value)} (hfits : (Value.map es).Fits)
    (h : Cbor.normalize (.map es) = .map es) : es.map normalizeEntry = es := by
  rw [normalize_map, Value.map.injEq] at h
  rw [Value.fits_map] at hfits
  nth_rewrite 2 [← List.map_id es]
  refine List.map_congr_left fun e he => ?_
  rw [← h] at he
  obtain ⟨e', he', rfl⟩ := List.mem_map.mp he
  have hfit := hfits.2 e' ((mem_sortOn ShortLex encodedKey es e').mp he')
  exact Prod.ext (normalize_idem hfit.1) (normalize_idem hfit.2)

theorem encodedKeys_nodup (hfits : (integerMap entries).Fits)
    (hnodup : (entries.map Prod.fst).Nodup) :
    ((entries.map fun entry => (Value.integer entry.1, entry.2)).map encodedKey).Nodup := by
  rw [List.map_map]
  refine hnodup.of_map.map_on ?_
  intro entry hentry entry' hentry' heq
  have hkey : ∀ x ∈ entries, (Value.integer x.1).Fits ∧
      Cbor.normalize (.integer x.1) = .integer x.1 := fun x hx =>
    ⟨(Value.fits_integer _).mpr ((fits_integerMap.mp hfits).2 x hx).1, rfl⟩
  have hsame := Value.integer.inj
    (key_eq_of_encoded_eq (hkey entry hentry) (hkey entry' hentry') heq)
  exact List.inj_on_of_nodup_map hnodup hentry hentry' hsame

/-- The order of the entries does not show in the canonical bytes. -/
theorem wire_integerMap_perm (hfits : (integerMap entries).Fits)
    (hnodup : (entries.map Prod.fst).Nodup) (hperm : entries.Perm entries') :
    wire (integerMap entries) = wire (integerMap entries') := by
  rw [integerMap, integerMap, wire_map, wire_map, List.length_map, List.length_map,
    hperm.length_eq,
    sortOn_eq_of_perm ShortLex encodedKey (encodedKeys_nodup hfits hnodup) (hperm.map _)]

theorem fits_integerMap_perm (hfits : (integerMap entries).Fits) (hperm : entries.Perm entries') :
    (integerMap entries').Fits := by
  rw [fits_integerMap] at hfits ⊢
  exact ⟨hperm.length_eq ▸ hfits.1, fun entry hentry => hfits.2 entry (hperm.mem_iff.mpr hentry)⟩

end IntegerMaps

namespace FieldMap
variable {M : FieldMap}

/-- The entries of a field map as the entries of a CBOR map. -/
def intEntries (M : FieldMap) : List (ℤ × Value) :=
  M.toList.map fun field => ((field.1.toNat : ℤ), field.2)

theorem toValue_eq_integerMap (M : FieldMap) : M.toValue = integerMap M.intEntries := by
  rw [toValue, integerMap, intEntries, List.map_map]
  rfl

theorem mem_intEntries {k : UInt64} {v : Value} :
    ((k.toNat : ℤ), v) ∈ M.intEntries ↔ M[k]? = some v := by
  rw [intEntries, List.mem_map, ← Std.ExtTreeMap.mem_toList_iff_getElem?_eq_some]
  constructor
  · rintro ⟨field, hfield, heq⟩
    obtain ⟨hk, rfl⟩ := Prod.mk.inj heq
    obtain rfl : field.1 = k := UInt64.toNat_inj.mp (by exact_mod_cast hk)
    exact hfield
  · exact fun h => ⟨_, h, rfl⟩

theorem exists_key_of_mem_intEntries {entry : ℤ × Value} (h : entry ∈ M.intEntries) :
    ∃ k : UInt64, entry.1 = k.toNat := by
  obtain ⟨field, -, rfl⟩ := List.mem_map.mp h
  exact ⟨field.1, rfl⟩

theorem intEntries_keys_nodup : (M.intEntries.map Prod.fst).Nodup := by
  have hkeys : M.intEntries.map Prod.fst =
      (M.toList.map Prod.fst).map fun k : UInt64 => (k.toNat : ℤ) := by
    rw [intEntries, List.map_map, List.map_map]
    rfl
  rw [hkeys]
  refine (keys_nodup M).map fun j k h => UInt64.toNat_inj.mp ?_
  exact_mod_cast h

end FieldMap

namespace EnvelopeVisitor
variable {self self' : EnvelopeVisitor} {entries : List (ℤ × Value)} {envelope : Envelope}
  {value v : Value} {field : String} {k : UInt64}

theorem valueAsBytes_eq_ok {bytes : Bytes} :
    valueAsBytes value field = .ok bytes ↔ value = .bytes bytes := by
  cases value <;> simp [valueAsBytes]

theorem valueAsU64_eq_ok {n : UInt64} :
    valueAsU64 value field = .ok n ↔ value = .integer n.toNat := by
  constructor
  · intro h
    cases value with
    | integer m =>
      rw [valueAsU64] at h
      split_ifs at h with hpos hlt
      rw [← Except.ok.inj h, UInt64.toNat_ofNat_of_lt' (by omega : m.toNat < 2 ^ 64),
        Int.toNat_of_nonneg hpos]
    | _ => cases h
  · rintro rfl
    exact valueAsU64_toNat n field

theorem valueAsU32_eq_ok {n : UInt32} :
    valueAsU32 value field = .ok n ↔ value = .integer n.toNat := by
  constructor
  · intro h
    obtain ⟨raw, hraw, h⟩ := bind_eq_ok.mp h
    rw [valueAsU64_eq_ok.mp hraw]
    split_ifs at h with hlt
    rw [← Except.ok.inj h, UInt64.toNat_toUInt32, Nat.mod_eq_of_lt hlt]
  · rintro rfl
    exact valueAsU32_toNat n field

/-- What the visitor holds under an identifier, as a value. -/
def slot (self : EnvelopeVisitor) (k : UInt64) : Option Value :=
  if k = 0 then self.threadId.map .bytes
  else if k = 1 then self.epoch.map fun epoch => .integer epoch.toNat
  else if k = 2 then self.seq.map fun seq => .integer seq.toNat
  else if k = 3 then self.senderUserId.map .bytes
  else if k = 4 then self.ciphertext.map .bytes
  else if k = 5 then self.signature.map .bytes
  else self.extensions[k]?

/-- The visitor that has read an envelope. -/
def holding (envelope : Envelope) : EnvelopeVisitor :=
  ⟨some envelope.threadId, some envelope.epoch, some envelope.seq, some envelope.senderUserId,
    some envelope.ciphertext, envelope.signature, envelope.extensions⟩

theorem require_eq_ok {α : Type} {value : Option α} {a : α} :
    require value field = .ok a ↔ value = some a := by
  cases value <;> simp [require]

theorem finish_eq_ok : self.finish = .ok envelope ↔ self = holding envelope := by
  obtain ⟨threadId, epoch, seq, senderUserId, ciphertext, signature, extensions⟩ := self
  simp only [finish, bind_eq_ok, require_eq_ok, pure_eq_ok, holding]
  constructor
  · rintro ⟨_, rfl, _, rfl, _, rfl, _, rfl, _, rfl, rfl⟩
    rfl
  · intro h
    cases h
    exact ⟨_, rfl, _, rfl, _, rfl, _, rfl, _, rfl, rfl⟩

theorem visitMap_eq_ok :
    visitMap entries = .ok envelope ↔ entries.foldlM visitEntry new = .ok (holding envelope) := by
  simp [visitMap, bind_eq_ok, finish_eq_ok]

theorem narrowKey_eq_iff {key : ℤ} (hpos : 0 ≤ key) (hlt : key < 2 ^ 64) :
    narrowKey key = k ↔ key = k.toNat := by
  have hnarrow := toNat_narrowKey hpos
  rw [Int.emod_eq_of_lt hpos hlt] at hnarrow
  rw [← UInt64.toNat_inj]
  omega

section Slots
variable (self : EnvelopeVisitor) (bytes : Bytes)

theorem slot_threadId : { self with threadId := some bytes }.slot =
    Function.update self.slot 0 (some (.bytes bytes)) := by
  funext k
  by_cases hk : k = 0 <;> simp [slot, hk]

theorem slot_epoch (epoch : UInt32) : { self with epoch := some epoch }.slot =
    Function.update self.slot 1 (some (.integer epoch.toNat)) := by
  funext k
  by_cases hk : k = 1 <;> simp [slot, hk]

theorem slot_seq (seq : UInt64) : { self with seq := some seq }.slot =
    Function.update self.slot 2 (some (.integer seq.toNat)) := by
  funext k
  by_cases hk : k = 2 <;> simp [slot, hk]

theorem slot_senderUserId : { self with senderUserId := some bytes }.slot =
    Function.update self.slot 3 (some (.bytes bytes)) := by
  funext k
  by_cases hk : k = 3 <;> simp [slot, hk]

theorem slot_ciphertext : { self with ciphertext := some bytes }.slot =
    Function.update self.slot 4 (some (.bytes bytes)) := by
  funext k
  by_cases hk : k = 4 <;> simp [slot, hk]

theorem slot_signature : { self with signature := some bytes }.slot =
    Function.update self.slot 5 (some (.bytes bytes)) := by
  funext k
  by_cases hk : k = 5 <;> simp [slot, hk]

theorem slot_extension {k : UInt64} (hk : 6 ≤ k.toNat) (value : Value) :
    { self with extensions := self.extensions.insert k value }.slot =
      Function.update self.slot k (some value) := by
  have hne : ∀ j : UInt64, j.toNat < 6 → k ≠ j := by
    rintro j hj rfl
    omega
  funext j
  by_cases hj : j = k
  · subst hj
    simp [slot, hne 0 (by decide), hne 1 (by decide), hne 2 (by decide), hne 3 (by decide),
      hne 4 (by decide), hne 5 (by decide)]
  · simp [slot, hj, getElem?_insert_ne (Ne.symm hj)]

end Slots

/-- One turn of the loop fills the slot of its key. -/
theorem visitEntry_slot {key : ℤ} (hlt : key < 2 ^ 64)
    (h : self.visitEntry (key, value) = .ok self') :
    self'.slot = Function.update self.slot (narrowKey key) (some value) := by
  simp only [visitEntry] at h
  split_ifs at h with h0 h1 h2 h3 h4 h5 hpos
  · obtain ⟨bytes, hbytes, h⟩ := bind_eq_ok.mp h
    rw [← pure_eq_ok.mp h, slot_threadId, valueAsBytes_eq_ok.mp hbytes, h0]
    rfl
  · obtain ⟨epoch, hepoch, h⟩ := bind_eq_ok.mp h
    rw [← pure_eq_ok.mp h, slot_epoch, valueAsU32_eq_ok.mp hepoch, h1]
    rfl
  · obtain ⟨seq, hseq, h⟩ := bind_eq_ok.mp h
    rw [← pure_eq_ok.mp h, slot_seq, valueAsU64_eq_ok.mp hseq, h2]
    rfl
  · obtain ⟨bytes, hbytes, h⟩ := bind_eq_ok.mp h
    rw [← pure_eq_ok.mp h, slot_senderUserId, valueAsBytes_eq_ok.mp hbytes, h3]
    rfl
  · obtain ⟨bytes, hbytes, h⟩ := bind_eq_ok.mp h
    rw [← pure_eq_ok.mp h, slot_ciphertext, valueAsBytes_eq_ok.mp hbytes, h4]
    rfl
  · obtain ⟨bytes, hbytes, h⟩ := bind_eq_ok.mp h
    rw [← pure_eq_ok.mp h, slot_signature, valueAsBytes_eq_ok.mp hbytes, h5]
    rfl
  · have hnarrow := (narrowKey_eq_iff hpos hlt).mp rfl
    rw [← Except.ok.inj h]
    exact slot_extension self (by omega) value

theorem nonneg_of_foldlM (h : entries.foldlM visitEntry self = .ok self') :
    ∀ entry ∈ entries, 0 ≤ entry.1 := by
  induction entries generalizing self with
  | nil => simp
  | cons x entries ih =>
    rw [List.foldlM_cons] at h
    obtain ⟨next, hnext, h⟩ := bind_eq_ok.mp h
    exact List.forall_mem_cons.mpr ⟨(visitEntry_extensions hnext).1, ih h⟩

/-- After the loop over different keys, each slot holds the entry of its key, or what
it held before if there is none. -/
theorem foldlM_slot (h : entries.foldlM visitEntry self = .ok self')
    (hrange : ∀ entry ∈ entries, entry.1 < 2 ^ 64) (hnodup : (entries.map Prod.fst).Nodup) :
    self'.slot k = some v ↔ ((k.toNat : ℤ), v) ∈ entries ∨
      (k.toNat : ℤ) ∉ entries.map Prod.fst ∧ self.slot k = some v := by
  induction entries generalizing self with
  | nil =>
    rw [← pure_eq_ok.mp h]
    simp
  | cons x entries ih =>
    rw [List.foldlM_cons] at h
    obtain ⟨next, hnext, h⟩ := bind_eq_ok.mp h
    obtain ⟨hx, hrange⟩ := List.forall_mem_cons.mp hrange
    rw [List.map_cons, List.nodup_cons] at hnodup
    have hkey : k = narrowKey x.1 ↔ (k.toNat : ℤ) = x.1 :=
      eq_comm.trans ((narrowKey_eq_iff (visitEntry_extensions hnext).1 hx).trans eq_comm)
    rw [ih h hrange hnodup.2, visitEntry_slot hx hnext, Function.update_apply, List.map_cons,
      List.mem_cons, List.mem_cons, not_or]
    by_cases hk : (k.toNat : ℤ) = x.1
    · have hnone : (x.1, v) ∉ entries := fun hmem =>
        hnodup.1 (List.mem_map.mpr ⟨_, hmem, rfl⟩)
      rw [if_pos (hkey.mpr hk), hk]
      simp [hnodup.1, hnone, Prod.ext_iff, eq_comm]
    · have hne : ((k.toNat : ℤ), v) ≠ x := fun heq => hk (congrArg Prod.fst heq)
      rw [if_neg (mt hkey.mp hk)]
      simp [hk, hne]

theorem slot_new (k : UInt64) : new.slot k = none := by
  simp [slot, new]

theorem slot_of_visitMap (h : visitMap entries = .ok envelope)
    (hrange : ∀ entry ∈ entries, entry.1 < 2 ^ 64) (hnodup : (entries.map Prod.fst).Nodup) :
    (holding envelope).slot k = some v ↔ ((k.toNat : ℤ), v) ∈ entries := by
  rw [foldlM_slot (visitMap_eq_ok.mp h) hrange hnodup, slot_new]
  simp

/-- Two visitors with the same slots, whose extensions are past the named fields. -/
theorem slot_injective (hself : KeysIn {k | 6 ≤ k.toNat} self.extensions)
    (hself' : KeysIn {k | 6 ≤ k.toNat} self'.extensions) (h : self.slot = self'.slot) :
    self = self' := by
  obtain ⟨threadId, epoch, seq, senderUserId, ciphertext, signature, extensions⟩ := self
  obtain ⟨threadId', epoch', seq', senderUserId', ciphertext', signature', extensions'⟩ := self'
  have hbytes : Function.Injective (Option.map Value.bytes) :=
    Option.map_injective fun a b hab => Value.bytes.inj hab
  have hu32 : Function.Injective (Option.map fun n : UInt32 => Value.integer n.toNat) :=
    Option.map_injective fun a b hab =>
      UInt32.toNat_inj.mp (by exact_mod_cast Value.integer.inj hab)
  have hu64 : Function.Injective (Option.map fun n : UInt64 => Value.integer n.toNat) :=
    Option.map_injective fun a b hab =>
      UInt64.toNat_inj.mp (by exact_mod_cast Value.integer.inj hab)
  obtain rfl : threadId = threadId' := hbytes (congrFun h 0)
  obtain rfl : epoch = epoch' := hu32 (congrFun h 1)
  obtain rfl : seq = seq' := hu64 (congrFun h 2)
  obtain rfl : senderUserId = senderUserId' := hbytes (congrFun h 3)
  obtain rfl : ciphertext = ciphertext' := hbytes (congrFun h 4)
  obtain rfl : signature = signature' := hbytes (congrFun h 5)
  obtain rfl : extensions = extensions' := by
    apply Std.ExtTreeMap.ext_getElem?
    intro k
    by_cases hk : k.toNat < 6
    · rw [KeysIn.getElem?_eq_none hself (fun _ hj => hj) hk,
        KeysIn.getElem?_eq_none hself' (fun _ hj => hj) hk]
    · have hne : ∀ j : UInt64, j.toNat < 6 → k ≠ j := by
        rintro j hj rfl
        exact hk hj
      have hslot := congrFun h k
      simpa [slot, hne 0 (by decide), hne 1 (by decide), hne 2 (by decide), hne 3 (by decide),
        hne 4 (by decide), hne 5 (by decide)] using hslot
  rfl

/-- Whether a turn of the loop succeeds does not depend on what came before. -/
theorem visitEntry_of_slot (hkeys : KeysIn {k | 6 ≤ k.toNat} envelope.extensions)
    (h : (holding envelope).slot k = some v) (self : EnvelopeVisitor) :
    ∃ self', self.visitEntry (k.toNat, v) = .ok self' := by
  rw [slot] at h
  split_ifs at h with h0 h1 h2 h3 h4 h5
  · obtain ⟨rfl, rfl⟩ := And.intro h0 (Option.some.inj h)
    exact ⟨_, rfl⟩
  · obtain ⟨rfl, rfl⟩ := And.intro h1 (Option.some.inj h)
    exact ⟨_, bind_eq_ok.mpr ⟨_, valueAsU32_toNat envelope.epoch "epoch", rfl⟩⟩
  · obtain ⟨rfl, rfl⟩ := And.intro h2 (Option.some.inj h)
    exact ⟨_, bind_eq_ok.mpr ⟨_, valueAsU64_toNat envelope.seq "seq", rfl⟩⟩
  · obtain ⟨rfl, rfl⟩ := And.intro h3 (Option.some.inj h)
    exact ⟨_, rfl⟩
  · obtain ⟨rfl, rfl⟩ := And.intro h4 (Option.some.inj h)
    exact ⟨_, rfl⟩
  · obtain rfl := h5
    obtain ⟨signature, -, rfl⟩ := Option.map_eq_some_iff.mp h
    exact ⟨_, rfl⟩
  · have hk : 6 ≤ k.toNat := hkeys k (by rw [show envelope.extensions[k]? = some v from h]; simp)
    refine ⟨{ self with extensions := self.extensions.insert (narrowKey k.toNat) v }, ?_⟩
    simp only [visitEntry]
    rw [if_neg (by omega), if_neg (by omega), if_neg (by omega), if_neg (by omega),
      if_neg (by omega), if_neg (by omega), if_pos (by omega)]

theorem foldlM_of_slots (h : ∀ entry ∈ entries, ∀ self : EnvelopeVisitor,
    ∃ self', self.visitEntry entry = .ok self') (self : EnvelopeVisitor) :
    ∃ self', entries.foldlM visitEntry self = .ok self' := by
  induction entries generalizing self with
  | nil => exact ⟨self, rfl⟩
  | cons x entries ih =>
    obtain ⟨hx, hentries⟩ := List.forall_mem_cons.mp h
    obtain ⟨next, hnext⟩ := hx self
    obtain ⟨last, hlast⟩ := ih hentries next
    exact ⟨last, List.foldlM_cons.trans (bind_eq_ok.mpr ⟨next, hnext, hlast⟩)⟩

end EnvelopeVisitor

section Envelopes
open EnvelopeVisitor
variable {envelope : Envelope} {entries : List (ℤ × Value)}

/-- The map from which an envelope is encoded. -/
def Envelope.fieldMap (self : Envelope) : FieldMap :=
  overlay (FieldMap.ofFields self.fields) self.extensions

theorem toCborValue_eq_integerMap (envelope : Envelope) :
    toCborValue envelope = integerMap envelope.fieldMap.intEntries :=
  FieldMap.toValue_eq_integerMap _

/-- The encoder writes what the visitor of the envelope holds. -/
theorem getElem?_fieldMap (hkeys : KeysIn {k | 6 ≤ k.toNat} envelope.extensions) (k : UInt64) :
    envelope.fieldMap[k]? = (holding envelope).slot k := by
  have hids : (envelope.fields.map Prod.fst).Nodup := by
    simp [Envelope.fields]
  have hfield : ∀ {j : UInt64} {value : Option Value}, j.toNat < 6 →
      (j, value) ∈ envelope.fields → envelope.fieldMap[j]? = value := by
    intro j value hj hmem
    rw [Envelope.fieldMap, getElem?_overlay, hkeys.getElem?_eq_none (fun _ h => h) hj,
      Option.none_or, FieldMap.getElem?_ofFields hids hmem]
  rw [slot]
  split_ifs with h0 h1 h2 h3 h4 h5
  · exact h0 ▸ hfield (by decide) (by simp [Envelope.fields, holding])
  · exact h1 ▸ hfield (by decide) (by simp [Envelope.fields, holding])
  · exact h2 ▸ hfield (by decide) (by simp [Envelope.fields, holding])
  · exact h3 ▸ hfield (by decide) (by simp [Envelope.fields, holding])
  · exact h4 ▸ hfield (by decide) (by simp [Envelope.fields, holding])
  · exact h5 ▸ hfield (by decide) (by simp [Envelope.fields, holding])
  · have hnot : k ∉ envelope.fields.map Prod.fst := by
      simp [Envelope.fields, h0, h1, h2, h3, h4, h5]
    rw [Envelope.fieldMap, getElem?_overlay, FieldMap.getElem?_ofFields_of_notMem hnot,
      Option.or_none]
    rfl

/-- Extensions that were read from plain integers are past the named fields. -/
theorem keysIn_of_visitMap (h : visitMap entries = .ok envelope)
    (hrange : ∀ entry ∈ entries, entry.1 < 2 ^ 64) :
    KeysIn {k | 6 ≤ k.toNat} envelope.extensions := by
  intro k hk
  obtain ⟨entry, hentry, hlarge, rfl⟩ := (visitMap_extensions h k).mp hk
  have hnarrow := (narrowKey_eq_iff (by omega) (hrange entry hentry)).mp rfl
  exact (by omega : 6 ≤ (narrowKey entry.1).toNat)

/-- What was read from different plain keys is written back. -/
theorem perm_of_visitMap (h : visitMap entries = .ok envelope)
    (hrange : ∀ entry ∈ entries, entry.1 < 2 ^ 64) (hnodup : (entries.map Prod.fst).Nodup) :
    entries.Perm envelope.fieldMap.intEntries := by
  have hkeys := keysIn_of_visitMap h hrange
  have hmem : ∀ (k : UInt64) (v : Value),
      ((k.toNat : ℤ), v) ∈ entries ↔ ((k.toNat : ℤ), v) ∈ envelope.fieldMap.intEntries := by
    intro k v
    rw [FieldMap.mem_intEntries, getElem?_fieldMap hkeys, slot_of_visitMap h hrange hnodup]
  refine (List.perm_ext_iff_of_nodup hnodup.of_map FieldMap.intEntries_keys_nodup.of_map).mpr ?_
  rintro ⟨key, v⟩
  by_cases hkey : ∃ k : UInt64, key = k.toNat
  · obtain ⟨k, rfl⟩ := hkey
    exact hmem k v
  · constructor
    · intro hentry
      have hpos : 0 ≤ key := nonneg_of_foldlM (visitMap_eq_ok.mp h) _ hentry
      exact absurd ⟨narrowKey key, (narrowKey_eq_iff hpos (hrange _ hentry)).mp rfl⟩ hkey
    · exact fun hentry => absurd (FieldMap.exists_key_of_mem_intEntries hentry) hkey

/-- The entries that an envelope is encoded from are read as the envelope, in any
order. -/
theorem visitMap_of_perm (hkeys : KeysIn {k | 6 ≤ k.toNat} envelope.extensions)
    (hperm : entries.Perm envelope.fieldMap.intEntries) : visitMap entries = .ok envelope := by
  have hnodup : (entries.map Prod.fst).Nodup :=
    (hperm.map Prod.fst).nodup_iff.mpr FieldMap.intEntries_keys_nodup
  have hslot : ∀ (k : UInt64) (v : Value),
      ((k.toNat : ℤ), v) ∈ entries ↔ (holding envelope).slot k = some v := by
    intro k v
    rw [hperm.mem_iff, FieldMap.mem_intEntries, getElem?_fieldMap hkeys]
  have hentry : ∀ entry ∈ entries, ∃ k : UInt64, entry.1 = k.toNat := fun entry h =>
    FieldMap.exists_key_of_mem_intEntries (hperm.mem_iff.mp h)
  have hrange : ∀ entry ∈ entries, entry.1 < 2 ^ 64 := by
    intro entry h
    obtain ⟨k, hk⟩ := hentry entry h
    have hlt := k.toNat_lt
    omega
  obtain ⟨last, hlast⟩ : ∃ last, entries.foldlM visitEntry new = .ok last := by
    refine foldlM_of_slots ?_ new
    rintro ⟨key, v⟩ h
    obtain ⟨k, rfl⟩ := hentry _ h
    exact visitEntry_of_slot hkeys ((hslot k v).mp h)
  have hextensions : KeysIn {k | 6 ≤ k.toNat} last.extensions := by
    intro k hk
    obtain hnone | ⟨entry, h, hlarge, rfl⟩ := (foldlM_visitEntry_extensions hlast k).mp hk
    · exact absurd (by simp [new]) hnone
    · have hnarrow := (narrowKey_eq_iff (by omega) (hrange entry h)).mp rfl
      exact (by omega : 6 ≤ (narrowKey entry.1).toNat)
  have hheld : last = holding envelope := by
    refine slot_injective hextensions hkeys (funext fun k => Option.ext fun v => ?_)
    rw [foldlM_slot hlast hrange hnodup, slot_new, hslot]
    simp
  exact visitMap_eq_ok.mpr (hheld ▸ hlast)

end Envelopes

section RoundTrip
open EnvelopeVisitor
variable {library : Ciborium} {envelope : Envelope}

/-- A value the encoder leaves as it is, without tags. -/
def PlainValue (value : Value) : Prop :=
  value.Every NodeUntagged ∧ Cbor.normalize value = value

theorem plain_fieldMap (hplain : envelope.extensions.All PlainValue) :
    envelope.fieldMap.All PlainValue := by
  refine FieldMap.all_overlay (FieldMap.all_ofFields ?_) hplain
  intro field hfield value hvalue
  simp only [Envelope.fields, List.mem_cons, List.not_mem_nil, or_false] at hfield
  rcases hfield with rfl | rfl | rfl | rfl | rfl | rfl
  · cases hvalue
    exact ⟨trivial, rfl⟩
  · cases hvalue
    exact ⟨trivial, rfl⟩
  · cases hvalue
    exact ⟨trivial, rfl⟩
  · cases hvalue
    exact ⟨trivial, rfl⟩
  · cases hvalue
    exact ⟨trivial, rfl⟩
  · obtain ⟨signature, -, rfl⟩ := Option.mem_map.mp hvalue
    exact ⟨trivial, rfl⟩

/-- The bytes of an envelope whose extensions are past the named fields, untagged and
in normal form decode to the envelope. -/
theorem envelope_roundTrip (hlibrary : library.FollowsRfc8949)
    (hkeys : KeysIn {k | 6 ≤ k.toNat} envelope.extensions)
    (hplain : envelope.extensions.All PlainValue) (hfits : (toCborValue envelope).Fits) :
    ∃ payload, toCtap2CanonicalBytes envelope = .ok payload ∧
      fromCtap2CanonicalSlice library payload = .ok envelope := by
  let entries := sortOn ShortLex (fun entry : ℤ × Value => wire (.integer entry.1))
    envelope.fieldMap.intEntries
  have hperm : entries.Perm envelope.fieldMap.intEntries := sortOn_perm _ _ _
  have hvalues : ∀ entry ∈ envelope.fieldMap.intEntries, PlainValue entry.2 := by
    rintro ⟨key, value⟩ hentry
    obtain ⟨k, rfl⟩ := FieldMap.exists_key_of_mem_intEntries hentry
    exact plain_fieldMap hplain k value (FieldMap.mem_intEntries.mp hentry)
  have hnormal : Cbor.normalize (toCborValue envelope) = integerMap entries := by
    rw [toCborValue_eq_integerMap]
    exact normalize_integerMap_of_normal fun entry hentry => (hvalues entry hentry).2
  have hbytes : toCtap2CanonicalBytes envelope = .ok (wire (toCborValue envelope)) :=
    encodeValue_of_fits hfits
  have hagain : ctap2CanonicalValueBytes (integerMap entries) =
      .ok (wire (toCborValue envelope)) := by
    rw [← hnormal, ← wire_normalize]
    exact encodeValue_of_fits (fits_normalize hfits)
  have huntagged : (integerMap entries).Every NodeUntagged := by
    rw [integerMap, Value.every_map, List.forall_mem_map]
    exact ⟨trivial, fun entry hentry =>
      ⟨trivial, (hvalues entry (hperm.mem_iff.mp hentry)).1⟩⟩
  have hread := hlibrary.reads _ _ huntagged (hnormal ▸ readCbor_wire hfits)
  have hfits' : (integerMap entries).Fits := hnormal ▸ fits_normalize hfits
  obtain ⟨buf, hwrite⟩ := hlibrary.writes _ hfits'
  have hreread := hlibrary.rereads _ _ _ hread hfits' (hnormal ▸ normalize_idem hfits) hwrite
  refine ⟨_, hbytes, bind_eq_ok.mpr ⟨_, fromSlice_of_reader hread hagain, ?_⟩⟩
  refine bind_eq_ok.mpr ⟨_, mapError_eq_ok.mpr hwrite, ?_⟩
  refine bind_eq_ok.mpr ⟨_, mapError_eq_ok.mpr hreread, ?_⟩
  exact mapError_eq_ok.mpr (visitMap_of_perm hkeys hperm)

/-- The bytes are one untagged map whose keys are plain integers, none of them twice. -/
def PlainKeys (payload : Bytes) : Prop :=
  ∃ entries, readCbor payload = some (integerMap entries, []) ∧ (entries.map Prod.fst).Nodup

theorem plainKeys_of_encoded {payload : Bytes}
    (h : toCtap2CanonicalBytes envelope = .ok payload) : PlainKeys payload := by
  rw [toCtap2CanonicalBytes, toCborValue_eq_integerMap] at h
  obtain ⟨hfits, rfl⟩ := encodeValue_eq_ok h
  have hread := readCbor_wire hfits
  rw [normalize_integerMap] at hread
  refine ⟨_, hread, ?_⟩
  rw [List.map_map]
  exact ((sortOn_perm _ _ _).map Prod.fst).nodup_iff.mpr FieldMap.intEntries_keys_nodup

/-- Bytes with plain keys are those of the envelope they decode to. -/
theorem encoded_of_plainKeys (hlibrary : library.FollowsRfc8949) {payload : Bytes}
    (h : parseEnvelopePayload library payload = .ok envelope) (hplain : PlainKeys payload) :
    toCtap2CanonicalBytes envelope = .ok payload := by
  obtain ⟨entries, hread, hnodup⟩ := hplain
  obtain ⟨tagged, horder⟩ := hlibrary.order
  obtain ⟨value, hvalue, h⟩ := bind_eq_ok.mp (mapError_eq_ok.mp h)
  obtain ⟨buf, hbuf, h⟩ := bind_eq_ok.mp h
  obtain ⟨reread, hreread, hvisit⟩ := bind_eq_ok.mp h
  obtain ⟨hfits, hvalueRead, hnormal⟩ := fromSlice_reads horder hvalue
  obtain rfl : value = integerMap entries := by
    rw [hread, Option.some.injEq, Prod.mk.injEq] at hvalueRead
    exact hvalueRead.1.symm
  obtain ⟨hreader, -, rfl⟩ := fromSlice_eq_ok hvalue
  obtain rfl : reread = entries := Except.ok.inj ((mapError_eq_ok.mp hreread).symm.trans
    (hlibrary.rereads _ _ _ hreader hfits hnormal (mapError_eq_ok.mp hbuf)))
  have hrange : ∀ entry ∈ reread, entry.1 < 2 ^ 64 := fun entry hentry =>
    ((fits_integerMap.mp hfits).2 entry hentry).1.2
  have hperm := perm_of_visitMap (mapError_eq_ok.mp hvisit) hrange hnodup
  rw [wire_integerMap_perm hfits hnodup hperm, ← toCborValue_eq_integerMap]
  refine encodeValue_of_fits ?_
  rw [toCborValue_eq_integerMap]
  exact fits_integerMap_perm hfits hperm

/-- A payload is the canonical form of the envelope it decodes to exactly if its keys
are plain integers, none of them twice; and one envelope comes from only one such
payload. -/
theorem one_wire_form_iff (hlibrary : library.FollowsRfc8949) {payload : Bytes}
    (h : parseEnvelopePayload library payload = .ok envelope) :
    (toCtap2CanonicalBytes envelope = .ok payload ↔ PlainKeys payload) ∧
      ∀ payload', PlainKeys payload → PlainKeys payload' →
        parseEnvelopePayload library payload' = .ok envelope → payload' = payload := by
  refine ⟨⟨plainKeys_of_encoded, encoded_of_plainKeys hlibrary h⟩, ?_⟩
  intro payload' hplain hplain' h'
  exact Except.ok.inj ((encoded_of_plainKeys hlibrary h' hplain').symm.trans
    (encoded_of_plainKeys hlibrary h hplain))

end RoundTrip

section Sample

theorem followsRfc8949_rfcLibrary : rfcLibrary.FollowsRfc8949 where
  reads bytes value _ h := decodesRfc8949_rfcReader bytes value h
  order := ⟨.tag, readsInWireOrder_rfcReader⟩
  writes value _ := ⟨_, rfl⟩
  rereads := by
    intro bytes entries buf _ hfits hnormal hwrite
    obtain rfl := Except.ok.inj hwrite
    have hcbor := readCbor_writeInOrder hfits
    rw [map_normalizeEntry_of_normal hfits hnormal] at hcbor
    simp only [rfcLibrary, integerMap, hcbor]
    rw [mapM_eq_ok, List.forall₂_map_left_iff, List.forall₂_same]
    exact fun entry _ => rfl

/-- A value in normal form with maps and lists in it. -/
def nestedValue : Value :=
  .map [(.integer 1, .float 0x7ff8000000000000), (.text "a", .array [.null, .bool true])]

/-- An envelope with the largest counters, a signature and an extension. -/
def extendedEnvelope : Envelope :=
  ⟨[1, 2], 0xffffffff, 0xffffffffffffffff, [3], [4, 5], some [6],
    (∅ : FieldMap).insert 6 nestedValue⟩

theorem plain_nestedValue : PlainValue nestedValue := by
  refine ⟨?_, rfl⟩
  simp [nestedValue, NodeUntagged, Value.Every, Value.EveryItem]

theorem fits_nestedValue : nestedValue.Fits := by
  simp only [nestedValue, Value.Fits, Value.Every, Value.EveryEntry, Value.EveryItem,
    Value.NodeFits]
  decide

theorem fits_extendedEnvelope : (toCborValue extendedEnvelope).Fits :=
  fits_extended (by simp [Envelope.fields])
    (by simp [Envelope.fields, extendedEnvelope, Value.fits_bytes, Value.fits_integer]) (by decide)
    fits_nestedValue

theorem envelope_roundTrip_extended :
    ∃ payload, toCtap2CanonicalBytes extendedEnvelope = .ok payload ∧
      fromCtap2CanonicalSlice rfcLibrary payload = .ok extendedEnvelope := by
  refine envelope_roundTrip followsRfc8949_rfcLibrary ?_
    (FieldMap.all_insert FieldMap.all_empty plain_nestedValue) fits_extendedEnvelope
  intro k hk
  by_contra hlt
  have hne : (6 : UInt64) ≠ k := by
    rintro rfl
    exact hlt (by decide : 6 ≤ (6 : UInt64).toNat)
  exact hk (by rw [extendedEnvelope, getElem?_insert_ne hne, Std.ExtTreeMap.getElem?_empty])

/-- An envelope of thread 2, and the same with an entry for thread 1 before it. -/
def plainPayload : Bytes :=
  [0xa5, 0x00, 0x41, 0x02, 0x01, 0x00, 0x02, 0x00, 0x03, 0x40, 0x04, 0x40]

def doublePayload : Bytes :=
  [0xa6, 0x00, 0x41, 0x01, 0x00, 0x41, 0x02, 0x01, 0x00, 0x02, 0x00, 0x03, 0x40, 0x04, 0x40]

def plainEntries : List (ℤ × Value) :=
  [(0, .bytes [2]), (1, .integer 0), (2, .integer 0), (3, .bytes []), (4, .bytes [])]

theorem parse_of_entries (entries : List (ℤ × Value)) {payload : Bytes} {envelope : Envelope}
    (hread : readCbor payload = some (integerMap entries, []))
    (hfits : (integerMap entries).Fits) (hwire : wire (integerMap entries) = payload)
    (hvisit : EnvelopeVisitor.visitMap entries = .ok envelope) :
    parseEnvelopePayload rfcLibrary payload = .ok envelope := by
  have hreader : rfcLibrary.fromReader payload = .ok (integerMap entries) :=
    decodesRfc8949_rfcReader _ _ hread
  have hbytes : ctap2CanonicalValueBytes (integerMap entries) = .ok payload :=
    hwire ▸ encodeValue_of_fits hfits
  have hnormal : Cbor.normalize (integerMap entries) = integerMap entries := by
    rw [← hwire, readCbor_wire hfits, Option.some.injEq, Prod.mk.injEq] at hread
    exact hread.1
  have hreread := followsRfc8949_rfcLibrary.rereads _ _ _ hreader hfits hnormal rfl
  refine mapError_eq_ok.mpr (bind_eq_ok.mpr ⟨_, fromSlice_of_reader hreader hbytes, ?_⟩)
  refine bind_eq_ok.mpr ⟨_, rfl, bind_eq_ok.mpr ⟨_, mapError_eq_ok.mpr hreread, ?_⟩⟩
  exact mapError_eq_ok.mpr hvisit

theorem parse_plainPayload : parseEnvelopePayload rfcLibrary plainPayload =
    .ok ⟨[2], 0, 0, [], [], none, ∅⟩ := by
  refine parse_of_entries plainEntries rfl ?_ (by decide) rfl
  simp [fits_integerMap, plainEntries, Value.fits_bytes, Value.fits_integer]

theorem one_wire_form_plain :
    parseEnvelopePayload rfcLibrary plainPayload = .ok ⟨[2], 0, 0, [], [], none, ∅⟩ ∧
      toCtap2CanonicalBytes (⟨[2], 0, 0, [], [], none, ∅⟩ : Envelope) = .ok plainPayload := by
  refine ⟨parse_plainPayload, ?_⟩
  refine (one_wire_form_iff followsRfc8949_rfcLibrary parse_plainPayload).1.mpr ?_
  exact ⟨plainEntries, rfl, by simp [plainEntries]⟩

/-- A payload with the key zero twice decodes to the envelope of another payload. -/
theorem double_key_decodes :
    parseEnvelopePayload rfcLibrary doublePayload = .ok ⟨[2], 0, 0, [], [], none, ∅⟩ ∧
      parseEnvelopePayload rfcLibrary plainPayload = .ok ⟨[2], 0, 0, [], [], none, ∅⟩ ∧
      toCtap2CanonicalBytes (⟨[2], 0, 0, [], [], none, ∅⟩ : Envelope) = .ok plainPayload ∧
      plainPayload ≠ doublePayload := by
  refine ⟨?_, parse_plainPayload, by decide, by decide⟩
  refine parse_of_entries ((0, .bytes [1]) :: plainEntries) rfl ?_
    (by decide) rfl
  simp [fits_integerMap, plainEntries, Value.fits_bytes, Value.fits_integer]

end Sample
end Spex
