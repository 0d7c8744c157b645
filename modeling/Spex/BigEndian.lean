import Mathlib.Data.List.Basic
import Mathlib.Tactic

/-!
# Fixed-width big-endian words

A word of `w` bytes is written most significant byte first. Writing keeps the
low `8 * w` bits of a natural number, and reading a written word back, with any
bytes after it, returns those bits and the bytes after it. Nothing here knows
which format the words belong to.
-/
namespace Spex.BigEndian

/-- The `w` low-order bytes of `n`, most significant first. -/
def write : ℕ → ℕ → List UInt8
  | 0, _ => []
  | w + 1, n => UInt8.ofNat (n / 256 ^ w) :: write w n

/-- The number a byte string spells, most significant byte first. -/
def value : List UInt8 → ℕ
  | [] => 0
  | b :: bs => b.toNat * 256 ^ bs.length + value bs

/-- Read a `w`-byte word from the front of the input. -/
def read (w : ℕ) (bs : List UInt8) : Option (ℕ × List UInt8) :=
  if w ≤ bs.length then some (value (bs.take w), bs.drop w) else none

@[simp] theorem length_write (w n : ℕ) : (write w n).length = w := by
  induction w with
  | zero => rfl
  | succ w ih => simp [write, ih]

@[simp] theorem value_write (w n : ℕ) : value (write w n) = n % 256 ^ w := by
  induction w with
  | zero => simp [write, value, Nat.mod_one]
  | succ w ih =>
    simp only [write, value, length_write, ih, Nat.mod_pow_succ]
    have hb : (UInt8.ofNat (n / 256 ^ w)).toNat = n / 256 ^ w % 256 := by simp
    rw [hb, Nat.mul_comm, Nat.add_comm]

/-- A written word reads back exactly, whatever follows it. -/
theorem read_write_append (w n : ℕ) (rest : List UInt8) :
    read w (write w n ++ rest) = some (n % 256 ^ w, rest) := by
  have htake : (write w n ++ rest).take w = write w n := by
    rw [List.take_append_of_le_length (by simp), List.take_of_length_le (by simp)]
  have hdrop : (write w n ++ rest).drop w = rest := by
    rw [List.drop_append_of_le_length (by simp), List.drop_of_length_le (by simp), List.nil_append]
  simp [read, htake, hdrop]

/-- Two words of one width are the same bytes only if they agree modulo that
width. -/
theorem mod_eq_of_write_eq {w a b : ℕ} (h : write w a = write w b) :
    a % 256 ^ w = b % 256 ^ w := by
  have hv := congrArg value h
  simpa using hv

theorem write_inj {w a b : ℕ} (ha : a < 256 ^ w) (hb : b < 256 ^ w)
    (h : write w a = write w b) : a = b := by
  have hm := mod_eq_of_write_eq h
  rwa [Nat.mod_eq_of_lt ha, Nat.mod_eq_of_lt hb] at hm

theorem value_lt (bs : List UInt8) : value bs < 256 ^ bs.length := by
  induction bs with
  | nil => simp [value]
  | cons b bs ih =>
    have hb : b.toNat + 1 ≤ 256 := b.toNat_lt
    have hmul := Nat.mul_le_mul_right (256 ^ bs.length) hb
    rw [value, List.length_cons, Nat.pow_succ]
    linarith

/-- Byte strings of one length that spell the same number are the same. -/
theorem value_inj {as bs : List UInt8} (hlength : as.length = bs.length)
    (h : value as = value bs) : as = bs := by
  induction as generalizing bs with
  | nil => exact (List.length_eq_zero_iff.mp hlength.symm).symm
  | cons a as ih =>
    cases bs with
    | nil => simp at hlength
    | cons b bs =>
      have htail : as.length = bs.length := by simpa using hlength
      have ha := value_lt as
      have hb := value_lt bs
      rw [value, value, htail] at h
      rw [htail] at ha
      have hpos : 0 < 256 ^ bs.length := by positivity
      have hhead : a.toNat = b.toNat := by
        have hdiv := congrArg (· / 256 ^ bs.length) h
        simpa [Nat.mul_add_div hpos, Nat.mul_comm _ (256 ^ bs.length), Nat.div_eq_of_lt ha,
          Nat.div_eq_of_lt hb] using hdiv
      have hvalue : value as = value bs := by
        rw [hhead] at h
        omega
      rw [UInt8.toNat_inj.mp hhead, ih htail hvalue]

/-- Writing the number that a byte string spells gives the byte string back. -/
theorem write_value {w : ℕ} {bs : List UInt8} (h : bs.length = w) : write w (value bs) = bs := by
  refine value_inj (by rw [length_write, h]) ?_
  rw [value_write, Nat.mod_eq_of_lt (h ▸ value_lt bs)]

end Spex.BigEndian
