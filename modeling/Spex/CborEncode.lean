import Spex.BigEndian
import Spex.BinaryFloat
import Spex.CborValue
import Spex.Fallible
import Spex.KeySort

/-!
# The canonical CBOR encoder

The encoder of `cbor.rs`, function by function. Each function returns the bytes
the source pushes onto its output vector. Lengths and integers that do not fit a
64-bit head are the only errors; `wire` is the byte string of a value for which
none occurs, with the error plumbing removed.

Floats are bit patterns. The source compares a half or single candidate with
the value it came from by `f64` arithmetic in which every intermediate result is
exact, so the comparison is modelled on exact values.
-/
namespace Spex.Cbor
open BinaryFloat Fallible KeySort
variable {es : List (Value × Value)}

def majorUint : UInt8 := 0x00
def majorNegint : UInt8 := 0x20
def majorBytes : UInt8 := 0x40
def majorText : UInt8 := 0x60
def majorArray : UInt8 := 0x80
def majorMap : UInt8 := 0xa0
def majorTag : UInt8 := 0xc0
def majorSimple : UInt8 := 0xe0

def u16Be (v : UInt16) : Bytes := BigEndian.write 2 v.toNat
def u32Be (v : UInt32) : Bytes := BigEndian.write 4 v.toNat
def u64Be (v : UInt64) : Bytes := BigEndian.write 8 v.toNat

theorem u64Be_injective : Function.Injective u64Be := fun a b h =>
  UInt64.toNat_inj.mp (BigEndian.write_inj a.toNat_lt b.toNat_lt h)

@[simp] theorem length_u64Be (v : UInt64) : (u64Be v).length = 8 := by simp [u64Be]

/-- The shortest head for an argument. The source returns a `Result` that is
never an error. -/
def encodeU64 (major : UInt8) (value : UInt64) : Bytes :=
  if value ≤ 23 then [major ||| value.toUInt8]
  else if value ≤ 0xff then [major ||| 24, value.toUInt8]
  else if value ≤ 0xffff then (major ||| 25) :: u16Be value.toUInt16
  else if value ≤ 0xffffffff then (major ||| 26) :: u32Be value.toUInt32
  else (major ||| 27) :: u64Be value

/-- `u64::try_from`, with the error both callers map it to. -/
def u64TryFrom (n : ℤ) : Except SpexError UInt64 :=
  if 0 ≤ n ∧ n < 2 ^ 64 then .ok (UInt64.ofNat n.toNat) else .error .cborIntegerOutOfRange

/-- The head of an item with a length. -/
def encodeLength (major : UInt8) (length : ℕ) : Except SpexError Bytes := do
  let length ← u64TryFrom length
  return encodeU64 major length

def encodeInteger (value : ℤ) : Except SpexError Bytes := do
  if 0 ≤ value then
    let unsigned ← u64TryFrom value
    return encodeU64 majorUint unsigned
  else
    let unsigned ← u64TryFrom (-1 - value)
    return encodeU64 majorNegint unsigned

/-- Truncating conversion of a double to half precision bits. -/
def f64ToF16Bits (value : UInt64) : UInt16 :=
  let sign := (value >>> 63).toUInt16 <<< 15
  let exp : ℤ := ((value >>> 52) &&& 0x7ff).toNat
  let mantissa := value &&& 0x000fffffffffffff
  if exp = 0x7ff then sign ||| 0x7c00 ||| (if mantissa ≠ 0 then 0x0200 else 0)
  else
    let expF16 := exp - 1023 + 15
    if 31 ≤ expF16 then sign ||| 0x7c00
    else if expF16 ≤ 0 then
      if expF16 < -10 then sign
      else
        let mantissaShort := (mantissa ||| 0x0010000000000000) >>>
          UInt64.ofNat (1 - expF16 + 42).toNat
        sign ||| mantissaShort.toUInt16
    else
      let mantissaShort := (mantissa >>> 42).toUInt16
      sign ||| (UInt16.ofNat expF16.toNat <<< 10) ||| mantissaShort

/-- The double the source computes from half precision bits. -/
def f16BitsToF64 (bits : UInt16) : Datum :=
  let sign := Datum.ofRat (if bits >>> 15 = 0 then 1 else -1)
  let exp := (bits >>> 10) &&& 0x1f
  let mantissa := bits &&& 0x03ff
  if exp = 0 then (sign.mul (.ofRat mantissa.toNat)).mul (.ofRat (1 / 2 ^ 24))
  else if exp = 31 then
    if mantissa = 0 then sign.mul (.infinite false) else .nan
  else (sign.mul (.ofRat (1 + mantissa.toNat / 1024))).mul
    (.ofRat (2 ^ ((exp.toNat : ℤ) - 15)))

/-- `value as f32`. -/
def asF32 (value : UInt64) : UInt32 := UInt32.ofNat (narrow binary64 binary32 value.toNat)

/-- `f64::from` of a single. -/
def f64From (value : UInt32) : UInt64 := UInt64.ofNat (widen binary32 binary64 value.toNat)

/-- `==` between a computed double and a bit pattern. -/
def f64Eq (d : Datum) (value : UInt64) : Bool := d.same (binary64.decode value.toNat)

/-- The shortest of the three formats that keeps the value. -/
def encodeFloat (value : UInt64) : Bytes :=
  if binary64.isNan value.toNat then (majorSimple ||| 25) :: u16Be 0x7e00
  else
    let halfBits := f64ToF16Bits value
    if f64Eq (f16BitsToF64 halfBits) value then (majorSimple ||| 25) :: u16Be halfBits
    else
      let float := asF32 value
      if f64Eq (binary64.decode (f64From float).toNat) value then
        (majorSimple ||| 26) :: u32Be float
      else (majorSimple ||| 27) :: u64Be value

/-- Entries in the order the encoder writes them: by length of the encoded key,
then bytewise, entries with one encoded key in the order they came. -/
def sortEncoded (entries : List (Bytes × Bytes)) : List (Bytes × Bytes) :=
  sortOn ShortLex Prod.fst entries

mutual

/-- The canonical bytes of a value. -/
def encodeValue : Value → Except SpexError Bytes
  | .null => .ok [majorSimple ||| 22]
  | .bool false => .ok [majorSimple ||| 20]
  | .bool true => .ok [majorSimple ||| 21]
  | .integer n => encodeInteger n
  | .bytes bytes => do
    let head ← encodeLength majorBytes bytes.length
    return head ++ bytes
  | .text text => do
    let head ← encodeLength majorText (Value.utf8 text).length
    return head ++ Value.utf8 text
  | .array values => do
    let head ← encodeLength majorArray values.length
    let items ← encodeItems values
    return head ++ items
  | .map entries => do
    let encodedEntries ← encodeEntries entries
    let head ← encodeLength majorMap encodedEntries.length
    return head ++ (sortEncoded encodedEntries).flatMap (fun e => e.1 ++ e.2)
  | .tag tag tagged => do
    let item ← encodeValue tagged
    return encodeU64 majorTag tag ++ item
  | .float float => .ok (encodeFloat float)

def encodeItems : List Value → Except SpexError Bytes
  | [] => .ok []
  | item :: items => do
    let head ← encodeValue item
    let tail ← encodeItems items
    return head ++ tail

def encodeEntries : List (Value × Value) → Except SpexError (List (Bytes × Bytes))
  | [] => .ok []
  | (key, value) :: entries => do
    let keyBytes ← encodeValue key
    let valueBytes ← encodeValue value
    let tail ← encodeEntries entries
    return (keyBytes, valueBytes) :: tail

end

def ctap2CanonicalValueBytes (value : Value) : Except SpexError Bytes := encodeValue value

/- The bytes of a value whose lengths and integers all fit. -/
mutual

def wire : Value → Bytes
  | .null => [majorSimple ||| 22]
  | .bool false => [majorSimple ||| 20]
  | .bool true => [majorSimple ||| 21]
  | .integer n =>
    if 0 ≤ n then encodeU64 majorUint (UInt64.ofNat n.toNat)
    else encodeU64 majorNegint (UInt64.ofNat (-1 - n).toNat)
  | .bytes b => encodeU64 majorBytes (UInt64.ofNat b.length) ++ b
  | .text s => encodeU64 majorText (UInt64.ofNat (Value.utf8 s).length) ++ Value.utf8 s
  | .array xs => encodeU64 majorArray (UInt64.ofNat xs.length) ++ wireItems xs
  | .map es => encodeU64 majorMap (UInt64.ofNat es.length) ++
      (sortEncoded (wireEntries es)).flatMap (fun e => e.1 ++ e.2)
  | .tag t v => encodeU64 majorTag t ++ wire v
  | .float f => encodeFloat f

def wireItems : List Value → Bytes
  | [] => []
  | x :: xs => wire x ++ wireItems xs

def wireEntries : List (Value × Value) → List (Bytes × Bytes)
  | [] => []
  | (k, v) :: es => (wire k, wire v) :: wireEntries es

end

/-- Both parts of an entry, encoded. -/
def wireEntry (e : Value × Value) : Bytes × Bytes := (wire e.1, wire e.2)

theorem wireItems_eq (xs : List Value) : wireItems xs = xs.flatMap wire := by
  induction xs with
  | nil => rfl
  | cons x xs ih => simp [wireItems, ih]

theorem wireEntries_eq (es : List (Value × Value)) : wireEntries es = es.map wireEntry := by
  induction es with
  | nil => rfl
  | cons e es ih => simp [wireEntries, wireEntry, ih]

/-- Sorting the encoded entries is sorting the entries by their encoded keys. -/
theorem sortEncoded_wireEntries (es : List (Value × Value)) :
    sortEncoded (wireEntries es) = (sortOn ShortLex (fun e => wire e.1) es).map wireEntry := by
  rw [wireEntries_eq, sortEncoded, map_sortOn ShortLex (fun e => wire e.1) Prod.fst wireEntry]
  intro e _
  rfl

theorem u64TryFrom_of_lt {n : ℤ} (h0 : 0 ≤ n) (h : n < 2 ^ 64) :
    u64TryFrom n = .ok (UInt64.ofNat n.toNat) := if_pos ⟨h0, h⟩

theorem u64TryFrom_of_ge {n : ℤ} (h : 2 ^ 64 ≤ n) :
    u64TryFrom n = .error .cborIntegerOutOfRange := if_neg (by omega)

theorem encodeLength_of_lt (major : UInt8) {n : ℕ} (h : n < 2 ^ 64) :
    encodeLength major n = .ok (encodeU64 major (UInt64.ofNat n)) := by
  rw [encodeLength, u64TryFrom_of_lt (by omega) (by exact_mod_cast h)]
  rfl

theorem encodeLength_of_ge (major : UInt8) {n : ℕ} (h : 2 ^ 64 ≤ n) :
    encodeLength major n = .error .cborIntegerOutOfRange := by
  rw [encodeLength, u64TryFrom_of_ge (by exact_mod_cast h)]
  rfl

/-- The encoder either writes the bytes of the value or reports the one error it
has, and the value alone decides which. -/
def Encodes (v : Value) : Prop :=
  (v.Fits → encodeValue v = .ok (wire v)) ∧
    (¬ v.Fits → encodeValue v = .error .cborIntegerOutOfRange)

lemma encodes_integer (n : ℤ) : Encodes (.integer n) := by
  rw [Encodes, Value.fits_integer]
  constructor
  · rintro ⟨hlo, hhi⟩
    by_cases h0 : 0 ≤ n
    · simp [encodeValue, encodeInteger, wire, h0, u64TryFrom_of_lt h0 hhi]
    · simp [encodeValue, encodeInteger, wire, h0,
        u64TryFrom_of_lt (by omega : 0 ≤ -1 - n) (by omega)]
  · intro h
    by_cases h0 : 0 ≤ n
    · simp [encodeValue, encodeInteger, h0, u64TryFrom_of_ge (by omega : 2 ^ 64 ≤ n)]
    · simp [encodeValue, encodeInteger, h0, u64TryFrom_of_ge (by omega : 2 ^ 64 ≤ -1 - n)]

lemma encodeItems_of_fits {xs : List Value} (ih : ∀ x ∈ xs, Encodes x)
    (h : ∀ x ∈ xs, x.Fits) : encodeItems xs = .ok (wireItems xs) := by
  induction xs with
  | nil => rfl
  | cons x xs IH =>
    have hx := (ih x (by simp)).1 (h x (by simp))
    have hxs := IH (fun y hy => ih y (by simp [hy])) (fun y hy => h y (by simp [hy]))
    simp [encodeItems, wireItems, hx, hxs]

lemma encodeItems_of_not_fits {xs : List Value} (ih : ∀ x ∈ xs, Encodes x)
    (h : ¬ ∀ x ∈ xs, x.Fits) : encodeItems xs = .error .cborIntegerOutOfRange := by
  induction xs with
  | nil => simp at h
  | cons x xs IH =>
    by_cases hx : x.Fits
    · have hrest := IH (fun y hy => ih y (by simp [hy])) (by simpa [hx] using h)
      simp [encodeItems, (ih x (by simp)).1 hx, hrest]
    · simp [encodeItems, (ih x (by simp)).2 hx]

lemma encodeEntries_of_fits (ih : ∀ e ∈ es, Encodes e.1 ∧ Encodes e.2)
    (h : ∀ e ∈ es, e.1.Fits ∧ e.2.Fits) : encodeEntries es = .ok (wireEntries es) := by
  induction es with
  | nil => rfl
  | cons e es IH =>
    obtain ⟨k, v⟩ := e
    have hk := (ih (k, v) (by simp)).1.1 (h (k, v) (by simp)).1
    have hv := (ih (k, v) (by simp)).2.1 (h (k, v) (by simp)).2
    have hes := IH (fun y hy => ih y (by simp [hy])) (fun y hy => h y (by simp [hy]))
    simp [encodeEntries, wireEntries, hk, hv, hes]

lemma encodeEntries_of_not_fits (ih : ∀ e ∈ es, Encodes e.1 ∧ Encodes e.2)
    (h : ¬ ∀ e ∈ es, e.1.Fits ∧ e.2.Fits) : encodeEntries es = .error .cborIntegerOutOfRange := by
  induction es with
  | nil => simp at h
  | cons e es IH =>
    obtain ⟨k, v⟩ := e
    obtain ⟨ihk, ihv⟩ := ih (k, v) (by simp)
    by_cases hk : k.Fits
    · by_cases hv : v.Fits
      · have hrest := IH (fun y hy => ih y (by simp [hy])) (by simpa [hk, hv] using h)
        simp [encodeEntries, ihk.1 hk, ihv.1 hv, hrest]
      · simp [encodeEntries, ihk.1 hk, ihv.2 hv]
    · simp [encodeEntries, ihk.2 hk]

theorem encodes (v : Value) : Encodes v := by
  induction v with
  | null => exact ⟨fun _ => rfl, fun h => (h Value.fits_null).elim⟩
  | bool b => cases b <;> exact ⟨fun _ => rfl, fun h => (h (Value.fits_bool _)).elim⟩
  | integer n => exact encodes_integer n
  | bytes b =>
    rw [Encodes, Value.fits_bytes, not_lt]
    refine ⟨fun h => ?_, fun h => ?_⟩
    · simp [encodeValue, wire, encodeLength_of_lt majorBytes h]
    · simp [encodeValue, encodeLength_of_ge majorBytes h]
  | text s =>
    rw [Encodes, Value.fits_text, not_lt]
    refine ⟨fun h => ?_, fun h => ?_⟩
    · simp [encodeValue, wire, encodeLength_of_lt majorText h]
    · simp [encodeValue, encodeLength_of_ge majorText h]
  | array xs ih =>
    rw [Encodes, Value.fits_array]
    refine ⟨fun ⟨hlen, hxs⟩ => ?_, fun h => ?_⟩
    · simp [encodeValue, wire, encodeLength_of_lt majorArray hlen, encodeItems_of_fits ih hxs]
    · by_cases hlen : xs.length < 2 ^ 64
      · have hxs : ¬ ∀ x ∈ xs, x.Fits := fun hxs => h ⟨hlen, hxs⟩
        simp [encodeValue, encodeLength_of_lt majorArray hlen, encodeItems_of_not_fits ih hxs]
      · simp [encodeValue, encodeLength_of_ge majorArray (not_lt.mp hlen)]
  | map es ih =>
    have hsize : (wireEntries es).length = es.length := by simp [wireEntries_eq]
    rw [Encodes, Value.fits_map]
    refine ⟨fun ⟨hlen, hes⟩ => ?_, fun h => ?_⟩
    · rw [encodeValue, encodeEntries_of_fits ih hes, ok_bind, hsize,
        encodeLength_of_lt majorMap hlen, ok_bind, wire]
      rfl
    · by_cases hes : ∀ e ∈ es, e.1.Fits ∧ e.2.Fits
      · have hlen : ¬ es.length < 2 ^ 64 := fun hlt => h ⟨hlt, hes⟩
        have hhead := encodeLength_of_ge majorMap (Nat.not_lt.mp hlen)
        rw [encodeValue, encodeEntries_of_fits ih hes, ok_bind, hsize, hhead, error_bind]
      · simp [encodeValue, encodeEntries_of_not_fits ih hes]
  | tag t v ih =>
    rw [Encodes, Value.fits_tag]
    exact ⟨fun h => by simp [encodeValue, wire, ih.1 h], fun h => by simp [encodeValue, ih.2 h]⟩
  | float f => exact ⟨fun _ => rfl, fun h => (h (Value.fits_float f)).elim⟩

theorem encodeValue_of_fits {v : Value} (h : v.Fits) : encodeValue v = .ok (wire v) :=
  (encodes v).1 h

/-- A successful encoding is the wire form, and then everything fitted. -/
theorem encodeValue_eq_ok {v : Value} {b : Bytes} (h : encodeValue v = .ok b) :
    v.Fits ∧ wire v = b := by
  by_cases hv : v.Fits
  · rw [encodeValue_of_fits hv] at h
    exact ⟨hv, Except.ok.inj h⟩
  · rw [(encodes v).2 hv] at h
    cases h

end Spex.Cbor
