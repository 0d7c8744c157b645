import Mathlib.Tactic

/-!
# Base64 text

Three bytes are written as four digits of six bits, and the last one or two bytes
are filled up with zero bits and marked by padding. Reading wants the padding and
the zero bits, so a text is read as at most one byte string and a byte string is
read from exactly one text.
-/
namespace Spex.Base64
variable {c₀ c₁ : Char} {bytes : List UInt8}

def alphabet : List Char :=
  ['A', 'B', 'C', 'D', 'E', 'F', 'G', 'H', 'I', 'J', 'K', 'L', 'M', 'N', 'O', 'P',
   'Q', 'R', 'S', 'T', 'U', 'V', 'W', 'X', 'Y', 'Z', 'a', 'b', 'c', 'd', 'e', 'f',
   'g', 'h', 'i', 'j', 'k', 'l', 'm', 'n', 'o', 'p', 'q', 'r', 's', 't', 'u', 'v',
   'w', 'x', 'y', 'z', '0', '1', '2', '3', '4', '5', '6', '7', '8', '9', '+', '/']

def digit (n : ℕ) : Char := alphabet.getD n 'A'

def digitValue (c : Char) : Option ℕ := alphabet.idxOf? c

def encodeChars : List UInt8 → List Char
  | [] => []
  | [a] =>
    let n := a.toNat * 16
    [digit (n / 64), digit (n % 64), '=', '=']
  | [a, b] =>
    let n := (a.toNat * 256 + b.toNat) * 4
    [digit (n / 4096), digit (n / 64 % 64), digit (n % 64), '=']
  | a :: b :: c :: rest =>
    let n := (a.toNat * 256 + b.toNat) * 256 + c.toNat
    digit (n / 262144) :: digit (n / 4096 % 64) :: digit (n / 64 % 64) :: digit (n % 64) ::
      encodeChars rest

def encode (bytes : List UInt8) : String := String.ofList (encodeChars bytes)

/-- Four digits that end a text of one byte more than full groups. -/
def decodeOne (c₀ c₁ : Char) : Option (List UInt8) := do
  let v₀ ← digitValue c₀
  let v₁ ← digitValue c₁
  let n := v₀ * 64 + v₁
  if n % 16 = 0 then some [UInt8.ofNat (n / 16)] else none

def decodeTwo (c₀ c₁ c₂ : Char) : Option (List UInt8) := do
  let v₀ ← digitValue c₀
  let v₁ ← digitValue c₁
  let v₂ ← digitValue c₂
  let n := (v₀ * 64 + v₁) * 64 + v₂
  if n % 4 = 0 then some [UInt8.ofNat (n / 1024), UInt8.ofNat (n / 4 % 256)] else none

def decodeThree (c₀ c₁ c₂ c₃ : Char) : Option (List UInt8) := do
  let v₀ ← digitValue c₀
  let v₁ ← digitValue c₁
  let v₂ ← digitValue c₂
  let v₃ ← digitValue c₃
  let n := ((v₀ * 64 + v₁) * 64 + v₂) * 64 + v₃
  some [UInt8.ofNat (n / 65536), UInt8.ofNat (n / 256 % 256), UInt8.ofNat (n % 256)]

def decodeChars : List Char → Option (List UInt8)
  | [] => some []
  | c₀ :: c₁ :: c₂ :: c₃ :: rest =>
    if c₃ = '=' ∧ rest = [] then if c₂ = '=' then decodeOne c₀ c₁ else decodeTwo c₀ c₁ c₂
    else do
      let bytes ← decodeThree c₀ c₁ c₂ c₃
      let others ← decodeChars rest
      return bytes ++ others
  | _ => none

def decode (text : String) : Option (List UInt8) := decodeChars text.toList

lemma digitValue_digit {n : ℕ} (h : n < 64) : digitValue (digit n) = some n := by
  have hall : ∀ n < 64, digitValue (digit n) = some n := by decide +kernel
  exact hall n h

lemma digit_ne_pad (n : ℕ) : digit n ≠ '=' := by
  have hpad : '=' ∉ alphabet := by decide
  rw [digit, List.getD_eq_getElem?_getD]
  cases h : alphabet[n]? with
  | none => decide
  | some c => exact fun hc => hpad (hc ▸ List.mem_of_getElem? h)

lemma digit_of_value {c : Char} {v : ℕ} (h : digitValue c = some v) : v < 64 ∧ c = digit v := by
  rw [digitValue, List.idxOf?_eq_some_iff] at h
  obtain ⟨hlt, hget, -⟩ := h
  refine ⟨hlt, ?_⟩
  rw [digit, List.getD_eq_getElem?_getD, List.getElem?_eq_getElem hlt, hget]
  rfl

lemma toNat_ofNat_of_lt {n : ℕ} (h : n < 256) : (UInt8.ofNat n).toNat = n := by
  rw [UInt8.toNat_ofNat']
  exact Nat.mod_eq_of_lt h

/-- The digits of a number of at most four digits. -/
lemma decodeThree_digits {n : ℕ} (h : n < 16777216) :
    decodeThree (digit (n / 262144)) (digit (n / 4096 % 64)) (digit (n / 64 % 64))
      (digit (n % 64)) =
      some [UInt8.ofNat (n / 65536), UInt8.ofNat (n / 256 % 256), UInt8.ofNat (n % 256)] := by
  have hsum : ((n / 262144 * 64 + n / 4096 % 64) * 64 + n / 64 % 64) * 64 + n % 64 = n := by omega
  simp only [decodeThree, digitValue_digit (by omega : n / 262144 < 64),
    digitValue_digit (by omega : n / 4096 % 64 < 64),
    digitValue_digit (by omega : n / 64 % 64 < 64), digitValue_digit (by omega : n % 64 < 64),
    Option.bind_eq_bind, Option.bind_some, hsum]

theorem decodeChars_encodeChars (bytes : List UInt8) :
    decodeChars (encodeChars bytes) = some bytes := by
  induction bytes using encodeChars.induct with
  | case1 => rfl
  | case2 a =>
    have ha := a.toNat_lt
    have hsum : a.toNat * 16 / 64 * 64 + a.toNat * 16 % 64 = a.toNat * 16 := by omega
    simp [encodeChars, decodeChars, decodeOne, digitValue_digit (by omega : a.toNat * 16 / 64 < 64),
      digitValue_digit (by omega : a.toNat * 16 % 64 < 64), hsum]
  | case3 a b =>
    have ha := a.toNat_lt
    have hb := b.toNat_lt
    simp only [encodeChars]
    generalize hn : (a.toNat * 256 + b.toNat) * 4 = n
    have hsum : (n / 4096 * 64 + n / 64 % 64) * 64 + n % 64 = n := by omega
    have hhigh : n / 1024 = a.toNat := by omega
    have hlow : n / 4 % 256 = b.toNat := by omega
    have hzero : n % 4 = 0 := by omega
    simp [decodeChars, digit_ne_pad, decodeTwo, digitValue_digit (by omega : n / 4096 < 64),
      digitValue_digit (by omega : n / 64 % 64 < 64), digitValue_digit (by omega : n % 64 < 64),
      hsum, hhigh, hlow, hzero]
  | case4 a b c rest ih =>
    have ha := a.toNat_lt
    have hb := b.toNat_lt
    have hc := c.toNat_lt
    simp only [encodeChars]
    generalize hn : (a.toNat * 256 + b.toNat) * 256 + c.toNat = n
    have hhigh : n / 65536 = a.toNat := by omega
    have hmid : n / 256 % 256 = b.toNat := by omega
    have hlow : n % 256 = c.toNat := by omega
    simp [decodeChars, digit_ne_pad, decodeThree_digits (by omega : n < 16777216), ih, hhigh, hmid,
      hlow]

lemma encodeChars_of_decodeOne (h : decodeOne c₀ c₁ = some bytes) :
    encodeChars bytes = [c₀, c₁, '=', '='] := by
  simp only [decodeOne, Option.bind_eq_bind, Option.bind_eq_some_iff] at h
  obtain ⟨v₀, h₀, v₁, h₁, h⟩ := h
  split_ifs at h with hzero
  obtain ⟨hlt₀, rfl⟩ := digit_of_value h₀
  obtain ⟨hlt₁, rfl⟩ := digit_of_value h₁
  rw [← Option.some.inj h, encodeChars, toNat_ofNat_of_lt (by omega)]
  have hn : (v₀ * 64 + v₁) / 16 * 16 = v₀ * 64 + v₁ := by omega
  rw [hn, (by omega : (v₀ * 64 + v₁) / 64 = v₀), (by omega : (v₀ * 64 + v₁) % 64 = v₁)]

lemma encodeChars_of_decodeTwo {c₂ : Char} (h : decodeTwo c₀ c₁ c₂ = some bytes) :
    encodeChars bytes = [c₀, c₁, c₂, '='] := by
  simp only [decodeTwo, Option.bind_eq_bind, Option.bind_eq_some_iff] at h
  obtain ⟨v₀, h₀, v₁, h₁, v₂, h₂, h⟩ := h
  split_ifs at h with hzero
  obtain ⟨hlt₀, rfl⟩ := digit_of_value h₀
  obtain ⟨hlt₁, rfl⟩ := digit_of_value h₁
  obtain ⟨hlt₂, rfl⟩ := digit_of_value h₂
  rw [← Option.some.inj h, encodeChars]
  generalize hn : (v₀ * 64 + v₁) * 64 + v₂ = n at hzero
  rw [toNat_ofNat_of_lt (by omega), toNat_ofNat_of_lt (by omega)]
  have hall : (n / 1024 * 256 + n / 4 % 256) * 4 = n := by omega
  rw [hall, (by omega : n / 4096 = v₀), (by omega : n / 64 % 64 = v₁), (by omega : n % 64 = v₂)]

lemma encodeChars_of_decodeThree {c₂ c₃ : Char} {rest : List UInt8}
    (h : decodeThree c₀ c₁ c₂ c₃ = some bytes) :
    encodeChars (bytes ++ rest) = c₀ :: c₁ :: c₂ :: c₃ :: encodeChars rest := by
  simp only [decodeThree, Option.bind_eq_bind, Option.bind_eq_some_iff] at h
  obtain ⟨v₀, h₀, v₁, h₁, v₂, h₂, v₃, h₃, h⟩ := h
  obtain ⟨hlt₀, rfl⟩ := digit_of_value h₀
  obtain ⟨hlt₁, rfl⟩ := digit_of_value h₁
  obtain ⟨hlt₂, rfl⟩ := digit_of_value h₂
  obtain ⟨hlt₃, rfl⟩ := digit_of_value h₃
  rw [← Option.some.inj h]
  generalize hn : ((v₀ * 64 + v₁) * 64 + v₂) * 64 + v₃ = n
  rw [List.cons_append, List.cons_append, List.cons_append, List.nil_append, encodeChars,
    toNat_ofNat_of_lt (by omega), toNat_ofNat_of_lt (by omega), toNat_ofNat_of_lt (by omega)]
  have hall : (n / 65536 * 256 + n / 256 % 256) * 256 + n % 256 = n := by omega
  rw [hall, (by omega : n / 262144 = v₀), (by omega : n / 4096 % 64 = v₁),
    (by omega : n / 64 % 64 = v₂), (by omega : n % 64 = v₃)]

theorem encodeChars_of_decodeChars {chars : List Char} (h : decodeChars chars = some bytes) :
    encodeChars bytes = chars := by
  induction chars using decodeChars.induct generalizing bytes with
  | case1 =>
    rw [← Option.some.inj h]
    rfl
  | case2 c₀ c₁ c₃ rest hpad =>
    obtain ⟨rfl, rfl⟩ := hpad
    simp only [decodeChars, and_self, if_true] at h
    exact encodeChars_of_decodeOne h
  | case3 c₀ c₁ c₂ c₃ rest hpad hpad₂ =>
    obtain ⟨rfl, rfl⟩ := hpad
    simp only [decodeChars, and_self, if_true, if_neg hpad₂] at h
    exact encodeChars_of_decodeTwo h
  | case4 c₀ c₁ c₂ c₃ rest hpad ih =>
    rw [decodeChars, if_neg hpad] at h
    simp only [Option.bind_eq_bind, Option.bind_eq_some_iff] at h
    obtain ⟨group, hgroup, others, hothers, h⟩ := h
    rw [← Option.some.inj h, encodeChars_of_decodeThree hgroup, ih hothers]
  | case5 chars hnil hlong =>
    unfold decodeChars at h
    split at h
    · exact absurd rfl hnil
    · exact absurd rfl (hlong _ _ _ _ _)
    · cases h

/-- A text that can be read is the one text of the bytes read from it. -/
theorem encode_of_decode {text : String} (h : decode text = some bytes) : encode bytes = text := by
  rw [encode, encodeChars_of_decodeChars h, String.ofList_toList]

theorem decode_inj {a b : String} (ha : decode a = some bytes) (hb : decode b = some bytes) :
    a = b :=
  (encode_of_decode ha).symm.trans (encode_of_decode hb)

theorem decode_encode (bytes : List UInt8) : decode (encode bytes) = some bytes := by
  rw [decode, encode, String.toList_ofList, decodeChars_encodeChars]

end Spex.Base64
