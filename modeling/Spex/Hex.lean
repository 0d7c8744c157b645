import Mathlib.Tactic

/-!
# Hexadecimal text

Byte strings as text, two lower-case digits a byte. Reading accepts digits of
either case and refuses everything else.
-/
namespace Spex.Hex

def digit (n : ℕ) : Char := ("0123456789abcdef".toList).getD n '0'

def digitValue (c : Char) : Option ℕ :=
  if '0' ≤ c ∧ c ≤ '9' then some (c.toNat - '0'.toNat)
  else if 'a' ≤ c ∧ c ≤ 'f' then some (c.toNat - 'a'.toNat + 10)
  else if 'A' ≤ c ∧ c ≤ 'F' then some (c.toNat - 'A'.toNat + 10)
  else none

def encode (bytes : List UInt8) : String :=
  String.ofList (bytes.flatMap fun b => [digit (b.toNat / 16), digit (b.toNat % 16)])

def decodeChars : List Char → Option (List UInt8)
  | [] => some []
  | [_] => none
  | hi :: lo :: rest => do
    let h ← digitValue hi
    let l ← digitValue lo
    let bytes ← decodeChars rest
    return UInt8.ofNat (16 * h + l) :: bytes

def decode (s : String) : Option (List UInt8) := decodeChars s.toList

lemma digitValue_digit {n : ℕ} (h : n < 16) : digitValue (digit n) = some n := by
  have hall : ∀ n < 16, digitValue (digit n) = some n := by decide
  exact hall n h

theorem decode_encode (bytes : List UInt8) : decode (encode bytes) = some bytes := by
  rw [decode, encode, String.toList_ofList]
  induction bytes with
  | nil => rfl
  | cons b bytes ih =>
    have hlt := b.toNat_lt
    have hsplit : 16 * (b.toNat / 16) + b.toNat % 16 = b.toNat := by omega
    simp only [List.flatMap_cons, List.cons_append, List.nil_append, decodeChars,
      digitValue_digit (by omega : b.toNat / 16 < 16),
      digitValue_digit (by omega : b.toNat % 16 < 16), Option.bind_eq_bind, Option.bind_some, ih,
      hsplit, UInt8.ofNat_toNat]
    rfl

theorem encode_injective : Function.Injective encode := by
  intro bytes bytes' h
  have hdecoded := congrArg decode h
  rwa [decode_encode, decode_encode, Option.some.injEq] at hdecoded

end Spex.Hex
