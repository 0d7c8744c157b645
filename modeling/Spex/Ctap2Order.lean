import Spex.CborMapKeys

/-!
# The order of map keys

CTAP2 orders the keys of a map by major type first, then by length and then byte by
byte. The encoder compares lengths first. Keys of one length or of one major type come
out the same way; a long key of a lower major type comes out after a short one of a
higher major type.
-/
namespace Spex.Cbor
open Fallible KeySort

/-- The major type of an encoded item. -/
def leadingMajor : Bytes → ℕ
  | [] => 0
  | b :: _ => b.toNat / 32

/-- The order of CTAP2 for encoded keys. -/
def Ctap2 (a b : Bytes) : Prop :=
  leadingMajor a < leadingMajor b ∨ leadingMajor a = leadingMajor b ∧ ShortLex a b

instance : DecidableRel Ctap2 := fun _ _ => inferInstanceAs (Decidable (_ ∨ _ ∧ _))

/-- The encoded keys of the map that an output holds, in the order of the output. -/
def outputKeys (output : Bytes) : Option (List Bytes) :=
  match readCbor output with
  | some (.map entries, _) => some (entries.map encodedKey)
  | _ => none

/-- The major type of a value. -/
def majorType : Value → ℕ
  | .integer n => if 0 ≤ n then 0 else 1
  | .bytes _ => 2
  | .text _ => 3
  | .array _ => 4
  | .map _ => 5
  | .tag _ _ => 6
  | .null | .bool _ | .float _ => 7

/-- The length of a head with an argument. -/
def headLength (n : ℕ) : ℕ :=
  if n ≤ 23 then 1 else if n ≤ 0xff then 2 else if n ≤ 0xffff then 3
  else if n ≤ 0xffffffff then 5 else 9

/- The length of the encoding of a value. -/
mutual

def encodedLength : Value → ℕ
  | .null | .bool _ => 1
  | .integer n => headLength (if 0 ≤ n then n.toNat else (-1 - n).toNat)
  | .bytes b => headLength b.length + b.length
  | .text s => headLength (Value.utf8 s).length + (Value.utf8 s).length
  | .array xs => headLength xs.length + itemsLength xs
  | .map es => headLength es.length + entriesLength es
  | .tag t v => headLength t.toNat + encodedLength v
  | .float f => (encodeFloat f).length

def itemsLength : List Value → ℕ
  | [] => 0
  | x :: xs => encodedLength x + itemsLength xs

def entriesLength : List (Value × Value) → ℕ
  | [] => 0
  | (k, v) :: es => encodedLength k + encodedLength v + entriesLength es

end

/-- No key of a lower major type is longer than a key of a higher one. -/
def KeysAgree (es : List (Value × Value)) : Prop :=
  ∀ e ∈ es, ∀ f ∈ es, majorType e.1 < majorType f.1 → encodedLength e.1 ≤ encodedLength f.1

section Lengths

theorem length_encodeU64 (major : UInt8) (n : UInt64) :
    (encodeU64 major n).length = headLength n.toNat := by
  unfold encodeU64 headLength
  simp only [UInt64.le_iff_toNat_le]
  split_ifs <;> simp_all [u16Be, u32Be, u64Be]

theorem length_encodeU64_ofNat (major : UInt8) {n : ℕ} (h : n < 2 ^ 64) :
    (encodeU64 major (UInt64.ofNat n)).length = headLength n := by
  rw [length_encodeU64, UInt64.toNat_ofNat_of_lt' h]

theorem itemsLength_eq (xs : List Value) : itemsLength xs = (xs.map encodedLength).sum := by
  induction xs with
  | nil => rfl
  | cons x xs ih => simp [itemsLength, ih]

theorem entriesLength_eq (es : List (Value × Value)) :
    entriesLength es = (es.map fun e => encodedLength e.1 + encodedLength e.2).sum := by
  induction es with
  | nil => rfl
  | cons e es ih => simp [entriesLength, ih]

theorem length_wire {v : Value} (h : v.Fits) : (wire v).length = encodedLength v := by
  induction v with
  | null => rfl
  | bool b => cases b <;> rfl
  | integer n =>
    have hn := (Value.fits_integer n).mp h
    rw [wire, encodedLength]
    split_ifs with h0
    · exact length_encodeU64_ofNat _ (by omega)
    · exact length_encodeU64_ofNat _ (by omega)
  | bytes b =>
    rw [wire, encodedLength, List.length_append,
      length_encodeU64_ofNat _ ((Value.fits_bytes b).mp h)]
  | text s =>
    rw [wire, encodedLength, List.length_append,
      length_encodeU64_ofNat _ ((Value.fits_text s).mp h)]
  | array xs ih =>
    obtain ⟨hlength, hxs⟩ := (Value.fits_array xs).mp h
    have hitems : (xs.map fun x => (wire x).length) = xs.map encodedLength :=
      List.map_congr_left fun x hx => ih x hx (hxs x hx)
    rw [length_wire_array, length_encodeU64_ofNat _ hlength, hitems, encodedLength, itemsLength_eq]
  | map es ih =>
    obtain ⟨hlength, hes⟩ := (Value.fits_map es).mp h
    have hentries : (es.map fun e => (wire e.1).length + (wire e.2).length) =
        es.map fun e => encodedLength e.1 + encodedLength e.2 := by
      apply List.map_congr_left
      intro e he
      rw [(ih e he).1 (hes e he).1, (ih e he).2 (hes e he).2]
    rw [length_wire_map, length_encodeU64_ofNat _ hlength, hentries, encodedLength,
      entriesLength_eq]
  | tag t v ih =>
    rw [length_wire_tag, length_encodeU64, ih ((Value.fits_tag t v).mp h), encodedLength]
  | float f => rfl

end Lengths

section Majors

theorem leadingMajor_of_readHead {b rest : Bytes} {head : Head}
    (h : readHead b = some (head, rest)) : leadingMajor b = head.major := by
  cases b with
  | nil => simp [readHead] at h
  | cons x b =>
    rw [leadingMajor]
    simp only [readHead] at h
    split_ifs at h
    · rw [Option.some.injEq, Prod.mk.injEq] at h
      rw [← h.1]
    · obtain ⟨r, -, hr⟩ := Option.map_eq_some_iff.mp h
      rw [Prod.mk.injEq] at hr
      rw [← hr.1]

theorem leadingMajor_encodeU64 {major : UInt8} (m : ℕ) (hmajor : major = UInt8.ofNat (32 * m))
    (hm : m < 8) (n : UInt64) (rest : Bytes) : leadingMajor (encodeU64 major n ++ rest) = m := by
  obtain ⟨i, hread⟩ := readHead_encodeU64 hmajor hm n rest
  exact leadingMajor_of_readHead hread

theorem leadingMajor_wire (v : Value) : leadingMajor (wire v) = majorType v := by
  cases v with
  | null => rfl
  | bool b => cases b <;> rfl
  | integer n =>
    rw [wire, majorType]
    split_ifs
    · rw [← List.append_nil (encodeU64 _ _)]
      exact leadingMajor_encodeU64 0 rfl (by norm_num) _ []
    · rw [← List.append_nil (encodeU64 _ _)]
      exact leadingMajor_encodeU64 1 rfl (by norm_num) _ []
  | bytes b =>
    rw [wire]
    exact leadingMajor_encodeU64 2 rfl (by norm_num) _ _
  | text s =>
    rw [wire]
    exact leadingMajor_encodeU64 3 rfl (by norm_num) _ _
  | array xs =>
    rw [wire]
    exact leadingMajor_encodeU64 4 rfl (by norm_num) _ _
  | map es =>
    rw [wire]
    exact leadingMajor_encodeU64 5 rfl (by norm_num) _ _
  | tag t v =>
    rw [wire]
    exact leadingMajor_encodeU64 6 rfl (by norm_num) _ _
  | float f =>
    rw [wire, majorType, encodeFloat]
    dsimp only
    split_ifs <;> rfl

/-- Byte by byte, a smaller item has no higher major type. -/
theorem leadingMajor_mono {a b : Bytes} (h : a ≤ b) : leadingMajor a ≤ leadingMajor b := by
  cases a with
  | nil => exact Nat.zero_le _
  | cons x a =>
    cases b with
    | nil => simp at h
    | cons y b =>
      rw [leadingMajor, leadingMajor]
      apply Nat.div_le_div_right
      rcases List.cons_le_cons_iff.mp h with hlt | ⟨rfl, -⟩
      · exact (UInt8.lt_iff_toNat_lt.mp hlt).le
      · exact le_rfl

end Majors

section Order

/-- Keys in order of length are in the order of CTAP2 if no key of a lower major type is
longer than one of a higher. -/
theorem pairwise_ctap2_iff {keys : List Bytes} (hsorted : keys.Pairwise ShortLex) :
    keys.Pairwise Ctap2 ↔ ∀ a ∈ keys, ∀ b ∈ keys, leadingMajor a < leadingMajor b →
      a.length ≤ b.length := by
  have hlength : ∀ a b : Bytes, ShortLex a b → a.length ≤ b.length := by
    intro a b hab
    rcases hab with hlt | ⟨heq, -⟩
    · exact hlt.le
    · exact heq.le
  constructor
  · intro hkeys
    let R := fun a b : Bytes => (leadingMajor a < leadingMajor b → a.length ≤ b.length) ∧
      (leadingMajor b < leadingMajor a → b.length ≤ a.length)
    have hR : keys.Pairwise R := by
      apply (hsorted.and hkeys).imp
      rintro a b ⟨hshort, hctap⟩
      refine ⟨fun _ => hlength a b hshort, ?_⟩
      intro hlt
      rcases hctap with hlt' | ⟨heq, -⟩
      · omega
      · omega
    have hsymm : Std.Symm R := ⟨fun _ _ h => ⟨h.2, h.1⟩⟩
    intro a ha b hb hlt
    have hne : a ≠ b := by
      rintro rfl
      omega
    exact (hR.forall ha hb hne).1 hlt
  · intro hagree
    apply hsorted.imp_of_mem
    intro a b ha hb hshort
    rcases lt_trichotomy (leadingMajor a) (leadingMajor b) with hlt | heq | hgt
    · exact .inl hlt
    · exact .inr ⟨heq, hshort⟩
    · have hle := hagree b hb a ha hgt
      rcases hshort with hlt | ⟨-, hbytes⟩
      · omega
      · have hmono := leadingMajor_mono hbytes
        omega

/-- The keys stand in the output in the order of their encodings. -/
theorem outputKeys_encodeValue {es : List (Value × Value)} {output : Bytes}
    (h : encodeValue (.map es) = .ok output) :
    outputKeys output = some ((sortOn ShortLex encodedKey es).map encodedKey) := by
  obtain ⟨hfits, rfl⟩ := encodeValue_eq_ok h
  rw [outputKeys, readCbor_wire hfits, normalize_map]
  simp only [List.map_map, Option.some.injEq]
  apply List.map_congr_left
  intro e _
  exact wire_normalize e.1

/-- The keys of a map are written in the order of CTAP2 exactly if no key of a lower major
type has a longer encoding than a key of a higher one. -/
theorem ctap2_order_iff (es : List (Value × Value)) :
    (∀ output, encodeValue (.map es) = .ok output →
      ∃ keys, outputKeys output = some keys ∧ keys.Pairwise Ctap2) ↔
    ((Value.map es).Fits → KeysAgree es) := by
  have hkeys : (Value.map es).Fits →
      (((sortOn ShortLex encodedKey es).map encodedKey).Pairwise Ctap2 ↔ KeysAgree es) := by
    intro hfits
    have hsorted : ((sortOn ShortLex encodedKey es).map encodedKey).Pairwise ShortLex :=
      List.pairwise_map.mpr (sortOn_pairwise ShortLex encodedKey es)
    have hlength : ∀ e ∈ es, (wire e.1).length = encodedLength e.1 :=
      fun e he => length_wire (((Value.fits_map es).mp hfits).2 e he).1
    rw [pairwise_ctap2_iff hsorted, KeysAgree]
    simp only [List.forall_mem_map, mem_sortOn, encodedKey, leadingMajor_wire]
    constructor
    · intro h e he f hf hlt
      rw [← hlength e he, ← hlength f hf]
      exact h e he f hf hlt
    · intro h e he f hf hlt
      rw [hlength e he, hlength f hf]
      exact h e he f hf hlt
  constructor
  · intro h hfits
    obtain ⟨keys, hout, hordered⟩ := h _ (encodeValue_of_fits hfits)
    rw [outputKeys_encodeValue (encodeValue_of_fits hfits), Option.some.injEq] at hout
    exact (hkeys hfits).mp (hout ▸ hordered)
  · intro h output houtput
    have hfits := (encodeValue_eq_ok houtput).1
    exact ⟨_, outputKeys_encodeValue houtput, (hkeys hfits).mpr (h hfits)⟩

/-- The key 1000 has three bytes and comes after the empty text, which has one. -/
theorem short_text_before_integer :
    let es := [(Value.integer 1000, Value.null), (.text "", .null)]
    encodeValue (.map es) = .ok [0xa2, 0x60, 0xf6, 0x19, 0x03, 0xe8, 0xf6] ∧
      outputKeys [0xa2, 0x60, 0xf6, 0x19, 0x03, 0xe8, 0xf6] =
        some [[0x60], [0x19, 0x03, 0xe8]] ∧
      ¬ Ctap2 [0x60] [0x19, 0x03, 0xe8] := by
  exact ⟨by decide, by decide, by decide⟩

end Order

end Spex.Cbor
