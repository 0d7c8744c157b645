import Spex.CborNormalForm

/-!
# Reading definite-length CBOR

The reader is a library the repository only calls. This is what RFC 8949 says
it returns on definite-length items: heads of every width, whether or not the
width is the least possible, map entries in wire order, tags kept. It runs on
fuel; twice the length of the input is always enough.
-/
namespace Spex.Cbor
open BinaryFloat KeySort

/-- The initial byte of an item and the argument that follows it. -/
structure Head where
  major : ℕ
  info : ℕ
  argument : ℕ

def readHead : Bytes → Option (Head × Bytes)
  | [] => none
  | b :: bs =>
    let major := b.toNat / 32
    let info := b.toNat % 32
    if info < 24 then some (⟨major, info, info⟩, bs)
    else if info < 28 then
      (BigEndian.read (2 ^ (info - 24)) bs).map fun r => (⟨major, info, r.1⟩, r.2)
    else none

/-- The first `n` bytes and the rest. -/
def takeBytes (n : ℕ) (bs : Bytes) : Option (Bytes × Bytes) :=
  if n ≤ bs.length then some (bs.take n, bs.drop n) else none

/-- Simple values and floats, which share a major type. -/
def readSimple (h : Head) : Option Value :=
  match h.info with
  | 20 => some (.bool false)
  | 21 => some (.bool true)
  | 22 => some .null
  | 25 => some (.float (UInt64.ofNat (widen binary16 binary64 h.argument)))
  | 26 => some (.float (UInt64.ofNat (widen binary32 binary64 h.argument)))
  | 27 => some (.float (UInt64.ofNat h.argument))
  | _ => none

def readText (bs : Bytes) : Option Value := (String.fromUTF8? ⟨bs.toArray⟩).map .text

mutual

def readItem : ℕ → Bytes → Option (Value × Bytes)
  | 0, _ => none
  | fuel + 1, bs => do
    let (h, rest) ← readHead bs
    match h.major with
    | 0 => return (.integer h.argument, rest)
    | 1 => return (.integer (-1 - h.argument), rest)
    | 2 =>
      let (content, rest) ← takeBytes h.argument rest
      return (.bytes content, rest)
    | 3 =>
      let (content, rest) ← takeBytes h.argument rest
      let text ← readText content
      return (text, rest)
    | 4 =>
      let (items, rest) ← readItems fuel h.argument rest
      return (.array items, rest)
    | 5 =>
      let (entries, rest) ← readEntries fuel h.argument rest
      return (.map entries, rest)
    | 6 =>
      let (tagged, rest) ← readItem fuel rest
      return (.tag (UInt64.ofNat h.argument) tagged, rest)
    | _ =>
      let simple ← readSimple h
      return (simple, rest)

def readItems : ℕ → ℕ → Bytes → Option (List Value × Bytes)
  | _, 0, bs => some ([], bs)
  | 0, _ + 1, _ => none
  | fuel + 1, n + 1, bs => do
    let (item, rest) ← readItem fuel bs
    let (items, rest) ← readItems fuel n rest
    return (item :: items, rest)

def readEntries : ℕ → ℕ → Bytes → Option (List (Value × Value) × Bytes)
  | _, 0, bs => some ([], bs)
  | 0, _ + 1, _ => none
  | fuel + 1, n + 1, bs => do
    let (key, rest) ← readItem fuel bs
    let (value, rest) ← readItem fuel rest
    let (entries, rest) ← readEntries fuel n rest
    return ((key, value) :: entries, rest)

end

/-- The first item of the input and what follows it. -/
def readCbor (bs : Bytes) : Option (Value × Bytes) := readItem (2 * bs.length) bs

section Heads
variable {m : ℕ}

lemma initialByte {i : ℕ} (hm : m < 8) (hi : i < 32) :
    (UInt8.ofNat (32 * m) ||| UInt8.ofNat i).toNat = 32 * m + i := by
  have h : ∀ m < 8, ∀ i < 32, (UInt8.ofNat (32 * m) ||| UInt8.ofNat i).toNat = 32 * m + i := by
    decide
  exact h m hm i hi

lemma readHead_short {i : ℕ} (hm : m < 8) (hi : i < 24) (rest : Bytes) :
    readHead ((UInt8.ofNat (32 * m) ||| UInt8.ofNat i) :: rest) = some (⟨m, i, i⟩, rest) := by
  have hmaj : (32 * m + i) / 32 = m := by omega
  have hinfo : (32 * m + i) % 32 = i := by omega
  simp only [readHead, initialByte hm (by omega : i < 32), hmaj, hinfo, if_pos hi]

lemma readHead_long {i k : ℕ} (hm : m < 8) (hlo : 24 ≤ i) (hhi : i < 28)
    (hk : k < 256 ^ 2 ^ (i - 24)) (rest : Bytes) :
    readHead ((UInt8.ofNat (32 * m) ||| UInt8.ofNat i) ::
      (BigEndian.write (2 ^ (i - 24)) k ++ rest)) = some (⟨m, i, k⟩, rest) := by
  have hmaj : (32 * m + i) / 32 = m := by omega
  have hinfo : (32 * m + i) % 32 = i := by omega
  simp only [readHead, initialByte hm (by omega : i < 32), hmaj, hinfo, if_neg (not_lt.mpr hlo),
    if_pos hhi, BigEndian.read_write_append, Nat.mod_eq_of_lt hk, Option.map_some]

/-- A head of any major type reads back, whichever width was chosen for it. -/
theorem readHead_encodeU64 {major : UInt8} (hmajor : major = UInt8.ofNat (32 * m)) (hm : m < 8)
    (n : UInt64) (rest : Bytes) :
    ∃ i, readHead (encodeU64 major n ++ rest) = some (⟨m, i, n.toNat⟩, rest) := by
  have hn := n.toNat_lt
  subst hmajor
  unfold encodeU64
  split_ifs with h23 hff hffff h32
  · have hle : n.toNat ≤ 23 := h23
    have hb : n.toUInt8 = UInt8.ofNat n.toNat := rfl
    rw [hb]
    exact ⟨_, readHead_short hm (by omega) rest⟩
  · have hle : n.toNat ≤ 255 := hff
    have hu : [n.toUInt8] = BigEndian.write 1 n.toNat := by
      rw [BigEndian.write, BigEndian.write, pow_zero, Nat.div_one]
      rfl
    rw [List.cons_append, hu]
    exact ⟨24, readHead_long hm (by norm_num) (by norm_num) (by norm_num; omega) rest⟩
  · have hle : n.toNat ≤ 65535 := hffff
    have hu : n.toUInt16.toNat = n.toNat := by
      rw [UInt64.toNat_toUInt16]
      omega
    rw [u16Be, hu]
    exact ⟨25, readHead_long hm (by norm_num) (by norm_num) (by norm_num; omega) rest⟩
  · have hle : n.toNat ≤ 4294967295 := h32
    have hu : n.toUInt32.toNat = n.toNat := by
      rw [UInt64.toNat_toUInt32]
      omega
    rw [u32Be, hu]
    exact ⟨26, readHead_long hm (by norm_num) (by norm_num) (by norm_num; omega) rest⟩
  · exact ⟨27, readHead_long hm (by norm_num) (by norm_num) (by norm_num; omega) rest⟩

theorem readHead_encodeU64_ofNat {major : UInt8} (hmajor : major = UInt8.ofNat (32 * m))
    (hm : m < 8) {n : ℕ} (hn : n < 2 ^ 64) (rest : Bytes) :
    ∃ i, readHead (encodeU64 major (UInt64.ofNat n) ++ rest) = some (⟨m, i, n⟩, rest) := by
  have hlen : (UInt64.ofNat n).toNat = n := UInt64.toNat_ofNat_of_lt' hn
  obtain ⟨i, hi⟩ := readHead_encodeU64 hmajor hm (UInt64.ofNat n) rest
  exact ⟨i, by rw [hi, hlen]⟩

theorem encodeU64_ne_nil (major : UInt8) (n : UInt64) : encodeU64 major n ≠ [] := by
  unfold encodeU64
  split_ifs <;> simp

end Heads

section ReadBack
variable {es : List (Value × Value)} {v : Value}

theorem takeBytes_append (b rest : Bytes) : takeBytes b.length (b ++ rest) = some (b, rest) := by
  simp [takeBytes]

theorem readText_utf8 (s : String) : readText (Value.utf8 s) = some (.text s) := by
  have hba : (⟨(Value.utf8 s).toArray⟩ : ByteArray) = s.toByteArray := by
    simp [Value.utf8]
  rw [readText, hba, String.fromUTF8?, dif_pos s.isValidUTF8]
  rfl

theorem utf8_injective : Function.Injective Value.utf8 := by
  intro a b h
  have ha := readText_utf8 a
  rw [h, readText_utf8 b] at ha
  exact (Value.text.inj (Option.some.inj ha)).symm

/-- Reading the bytes of a value gives its normal form and leaves what follows. -/
def ReadsBack (v : Value) : Prop :=
  ∀ fuel rest, 2 * (wire v).length ≤ fuel →
    readItem fuel (wire v ++ rest) = some (normalize v, rest)

theorem wire_length_pos (v : Value) : 0 < (wire v).length := by
  have hhead : ∀ major n (tail : Bytes), 0 < (encodeU64 major n ++ tail).length := by
    intro major n tail
    have := List.length_pos_of_ne_nil (encodeU64_ne_nil major n)
    rw [List.length_append]
    omega
  cases v with
  | null => simp [wire]
  | bool b => cases b <;> simp [wire]
  | integer n =>
    rw [wire]
    split_ifs
    · exact List.length_pos_of_ne_nil (encodeU64_ne_nil _ _)
    · exact List.length_pos_of_ne_nil (encodeU64_ne_nil _ _)
  | float f =>
    simp only [wire, encodeFloat]
    split_ifs <;> simp
  | bytes | text | array | map | tag => exact hhead _ _ _

lemma readItems_readBack {xs : List Value} (ih : ∀ x ∈ xs, ReadsBack x) (fuel : ℕ) (rest : Bytes)
    (hfuel : 2 * (xs.flatMap wire).length < fuel) :
    readItems fuel xs.length (xs.flatMap wire ++ rest) = some (xs.map normalize, rest) := by
  induction xs generalizing fuel with
  | nil => simp [readItems]
  | cons x xs IH =>
    obtain ⟨f, rfl⟩ := Nat.exists_eq_succ_of_ne_zero (by omega : fuel ≠ 0)
    have hpos := wire_length_pos x
    simp only [List.flatMap_cons, List.length_append] at hfuel
    have hx := ih x (by simp) f (xs.flatMap wire ++ rest) (by omega)
    have hxs := IH (fun y hy => ih y (by simp [hy])) f (by omega)
    simp [readItems, List.append_assoc, hx, hxs]

lemma readEntries_readBack (ih : ∀ e ∈ es, ReadsBack e.1 ∧ ReadsBack e.2) (fuel : ℕ) (rest : Bytes)
    (hfuel : 2 * (es.flatMap fun e => wire e.1 ++ wire e.2).length < fuel) :
    readEntries fuel es.length ((es.flatMap fun e => wire e.1 ++ wire e.2) ++ rest) =
      some (es.map normalizeEntry, rest) := by
  induction es generalizing fuel with
  | nil => simp [readEntries]
  | cons e es IH =>
    obtain ⟨f, rfl⟩ := Nat.exists_eq_succ_of_ne_zero (by omega : fuel ≠ 0)
    have hpos := wire_length_pos e.1
    simp only [List.flatMap_cons, List.length_append] at hfuel
    have hk := (ih e (by simp)).1 f
      (wire e.2 ++ ((es.flatMap fun e => wire e.1 ++ wire e.2) ++ rest)) (by omega)
    have hv := (ih e (by simp)).2 f ((es.flatMap fun e => wire e.1 ++ wire e.2) ++ rest) (by omega)
    have hes := IH (fun y hy => ih y (by simp [hy])) f (by omega)
    simp [readEntries, normalizeEntry, List.append_assoc, hk, hv, hes]

lemma readItem_simple (fuel : ℕ) {i k : ℕ} {bs rest : Bytes}
    (hhead : readHead bs = some (⟨7, i, k⟩, rest)) (hv : readSimple ⟨7, i, k⟩ = some v) :
    readItem (fuel + 1) bs = some (v, rest) := by
  simp [readItem, hhead, hv]

lemma readItem_half (fuel : ℕ) (h : UInt16) (rest : Bytes) :
    readItem (fuel + 1) ((majorSimple ||| 25) :: u16Be h ++ rest) =
      some (.float (UInt64.ofNat (widen binary16 binary64 h.toNat)), rest) :=
  readItem_simple fuel (readHead_long (m := 7) (i := 25) (k := h.toNat) (by norm_num) (by norm_num)
    (by norm_num) h.toNat_lt rest) rfl

lemma readItem_single (fuel : ℕ) (f : UInt32) (rest : Bytes) :
    readItem (fuel + 1) ((majorSimple ||| 26) :: u32Be f ++ rest) =
      some (.float (f64From f), rest) :=
  readItem_simple fuel (readHead_long (m := 7) (i := 26) (k := f.toNat) (by norm_num) (by norm_num)
    (by norm_num) f.toNat_lt rest) rfl

lemma readItem_double (fuel : ℕ) (f : UInt64) (rest : Bytes) :
    readItem (fuel + 1) ((majorSimple ||| 27) :: u64Be f ++ rest) = some (.float f, rest) := by
  have hf : UInt64.ofNat f.toNat = f := UInt64.ofNat_toNat
  have hread := readItem_simple fuel
    (readHead_long (m := 7) (i := 27) (by norm_num) (by norm_num) (by norm_num) f.toNat_lt rest) rfl
  rw [hf] at hread
  exact hread

/-- No item is empty, so the fuel is never zero. -/
lemma readsBack_of_succ (h : ∀ fuel rest, 2 * (wire v).length ≤ fuel + 1 →
      readItem (fuel + 1) (wire v ++ rest) = some (normalize v, rest)) : ReadsBack v := by
  intro fuel rest hfuel
  have hpos := wire_length_pos v
  obtain ⟨fuel, rfl⟩ := Nat.exists_eq_succ_of_ne_zero (by omega : fuel ≠ 0)
  exact h fuel rest hfuel

theorem readsBack_float (f : UInt64) : ReadsBack (.float f) := by
  apply readsBack_of_succ
  intro fuel rest _
  simp only [wire, normalize, canonicalNan, encodeFloat]
  split_ifs with hnan hhalf hsingle
  · have hval : UInt64.ofNat (widen binary16 binary64 (0x7e00 : UInt16).toNat) =
        0x7ff8000000000000 := by decide
    rw [readItem_half, hval]
  · rw [readItem_half, widen_half hhalf, UInt64.ofNat_toNat]
  · rw [readItem_single, f64From_asF32 hhalf hsingle]
  · exact readItem_double fuel f rest

theorem readsBack_integer {n : ℤ} (h : (Value.integer n).Fits) : ReadsBack (.integer n) := by
  rw [Value.fits_integer] at h
  apply readsBack_of_succ
  intro fuel rest _
  by_cases h0 : 0 ≤ n
  · obtain ⟨i, hi⟩ := readHead_encodeU64_ofNat (show majorUint = UInt8.ofNat (32 * 0) from rfl)
      (by norm_num) (by omega : n.toNat < 2 ^ 64) rest
    have hcast : ((n.toNat : ℕ) : ℤ) = n := by omega
    rw [wire, if_pos h0, readItem, hi]
    simp only [Option.bind_eq_bind, Option.bind_some, hcast]
    rfl
  · obtain ⟨i, hi⟩ := readHead_encodeU64_ofNat (show majorNegint = UInt8.ofNat (32 * 1) from rfl)
      (by norm_num) (by omega : (-1 - n).toNat < 2 ^ 64) rest
    have hcast : -1 - (((-1 - n).toNat : ℕ) : ℤ) = n := by omega
    rw [wire, if_neg h0, readItem, hi]
    simp only [Option.bind_eq_bind, Option.bind_some, hcast]
    rfl

lemma readsBack_bool (b : Bool) : ReadsBack (.bool b) := by
  apply readsBack_of_succ
  intro fuel rest _
  cases b with
  | false =>
    exact readItem_simple fuel
      (readHead_short (m := 7) (i := 20) (by norm_num) (by norm_num) rest) rfl
  | true =>
    exact readItem_simple fuel
      (readHead_short (m := 7) (i := 21) (by norm_num) (by norm_num) rest) rfl

lemma readsBack_bytes {b : Bytes} (h : (Value.bytes b).Fits) : ReadsBack (.bytes b) := by
  rw [Value.fits_bytes] at h
  apply readsBack_of_succ
  intro fuel rest _
  obtain ⟨i, hi⟩ := readHead_encodeU64_ofNat (show majorBytes = UInt8.ofNat (32 * 2) from rfl)
    (by norm_num) h (b ++ rest)
  rw [wire, List.append_assoc, readItem, hi]
  simp only [Option.bind_eq_bind, Option.bind_some, takeBytes_append]
  rfl

lemma readsBack_text {s : String} (h : (Value.text s).Fits) : ReadsBack (.text s) := by
  rw [Value.fits_text] at h
  apply readsBack_of_succ
  intro fuel rest _
  obtain ⟨i, hi⟩ := readHead_encodeU64_ofNat (show majorText = UInt8.ofNat (32 * 3) from rfl)
    (by norm_num) h (Value.utf8 s ++ rest)
  rw [wire, List.append_assoc, readItem, hi]
  simp only [Option.bind_eq_bind, Option.bind_some, takeBytes_append, readText_utf8]
  rfl

/-- The fuel for the items of an array is what its head leaves. -/
lemma readsBack_array {xs : List Value} (hlength : xs.length < 2 ^ 64)
    (hitems : ∀ x ∈ xs, ReadsBack x) : ReadsBack (.array xs) := by
  apply readsBack_of_succ
  intro fuel rest hfuel
  obtain ⟨i, hi⟩ := readHead_encodeU64_ofNat (show majorArray = UInt8.ofNat (32 * 4) from rfl)
    (by norm_num) hlength (xs.flatMap wire ++ rest)
  have hhead := List.length_pos_of_ne_nil (encodeU64_ne_nil majorArray (UInt64.ofNat xs.length))
  rw [wire, wireItems_eq, List.length_append] at hfuel
  have hread := readItems_readBack hitems fuel rest (by omega)
  rw [wire, wireItems_eq, List.append_assoc, readItem, hi, normalize_array]
  simp only [Option.bind_eq_bind, Option.bind_some, hread]
  rfl

/-- The entries of a map read back in the order in which they stand. -/
lemma readItem_entries (hlength : es.length < 2 ^ 64)
    (hentries : ∀ e ∈ es, ReadsBack e.1 ∧ ReadsBack e.2) {fuel : ℕ} (rest : Bytes)
    (hfuel : 2 * (es.flatMap fun e => wire e.1 ++ wire e.2).length < fuel) :
    readItem (fuel + 1) (encodeU64 majorMap (UInt64.ofNat es.length) ++
      ((es.flatMap fun e => wire e.1 ++ wire e.2) ++ rest)) =
      some (.map (es.map normalizeEntry), rest) := by
  obtain ⟨i, hi⟩ := readHead_encodeU64_ofNat (show majorMap = UInt8.ofNat (32 * 5) from rfl)
    (by norm_num) hlength ((es.flatMap fun e => wire e.1 ++ wire e.2) ++ rest)
  rw [readItem, hi]
  simp only [Option.bind_eq_bind, Option.bind_some, readEntries_readBack hentries fuel rest hfuel]
  rfl

/-- The entries of a map are read in the order of their encoded keys. -/
lemma readsBack_map (hlength : es.length < 2 ^ 64)
    (hentries : ∀ e ∈ es, ReadsBack e.1 ∧ ReadsBack e.2) : ReadsBack (.map es) := by
  apply readsBack_of_succ
  intro fuel rest hfuel
  have hsize : (sortOn ShortLex encodedKey es).length = es.length := length_sortOn _ _ _
  have hsorted : ∀ e ∈ sortOn ShortLex encodedKey es, ReadsBack e.1 ∧ ReadsBack e.2 := by
    intro e he
    rw [mem_sortOn] at he
    exact hentries e he
  have hhead := List.length_pos_of_ne_nil (encodeU64_ne_nil majorMap (UInt64.ofNat es.length))
  rw [wire_map, List.length_append] at hfuel
  have hread := readItem_entries (hsize ▸ hlength) hsorted rest (by omega : _ < fuel)
  rw [hsize] at hread
  rw [wire_map, List.append_assoc, normalize_map]
  exact hread

lemma readsBack_tag (t : UInt64) (h : ReadsBack v) : ReadsBack (.tag t v) := by
  apply readsBack_of_succ
  intro fuel rest hfuel
  obtain ⟨i, hi⟩ := readHead_encodeU64 (show majorTag = UInt8.ofNat (32 * 6) from rfl)
    (by norm_num) t (wire v ++ rest)
  have hhead := List.length_pos_of_ne_nil (encodeU64_ne_nil majorTag t)
  rw [wire, List.length_append] at hfuel
  rw [wire, List.append_assoc, readItem, hi]
  simp only [Option.bind_eq_bind, Option.bind_some, h fuel rest (by omega), UInt64.ofNat_toNat]
  rfl

/-- Every value the encoder accepts reads back as its normal form. -/
theorem readsBack (h : v.Fits) : ReadsBack v := by
  induction v with
  | null =>
    exact readsBack_of_succ fun fuel rest _ =>
      readItem_simple fuel (readHead_short (m := 7) (i := 22) (by norm_num) (by norm_num) rest) rfl
  | bool b => exact readsBack_bool b
  | integer n => exact readsBack_integer h
  | bytes b => exact readsBack_bytes h
  | text s => exact readsBack_text h
  | array xs ih =>
    rw [Value.fits_array] at h
    exact readsBack_array h.1 fun x hx => ih x hx (h.2 x hx)
  | map es ih =>
    rw [Value.fits_map] at h
    exact readsBack_map h.1 fun e he => ⟨(ih e he).1 (h.2 e he).1, (ih e he).2 (h.2 e he).2⟩
  | tag t v ih =>
    rw [Value.fits_tag] at h
    exact readsBack_tag t (ih h)
  | float f => exact readsBack_float f

/-- The bytes of a value are read as its normal form, whatever follows them. -/
theorem readCbor_append (h : v.Fits) (rest : Bytes) :
    readCbor (wire v ++ rest) = some (normalize v, rest) := by
  apply readsBack h
  rw [List.length_append]
  omega

/-- The whole of a value's bytes is one item. -/
theorem readCbor_wire (h : v.Fits) : readCbor (wire v) = some (normalize v, []) := by
  have hread := readCbor_append h []
  rwa [List.append_nil] at hread

end ReadBack

end Spex.Cbor
