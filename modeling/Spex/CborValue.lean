import Mathlib.Data.List.Basic
import Mathlib.Tactic

/-!
# CBOR values

The data model the canonical encoder works on. An integer is the `i128` the
encoder takes out of it, a float is the bit pattern of its `f64`, and a map is
the list of its entries in the order they were supplied; nothing in the type
keeps two entries from having one key.
-/
namespace Spex

abbrev Bytes := List UInt8

/-- The errors of the core crate that the modelled functions return. -/
inductive SpexError where
  | invalidLength (what : String)
  | sigVerifyFailed
  | argon2 (message : String)
  | cbor (message : String)
  | cborIntegerOutOfRange
  | cborNotCanonical
  | invalidInput (what : String)
  deriving DecidableEq, Repr

/-- The `Display` text of an error. -/
def SpexError.message : SpexError → String
  | .invalidLength what => s!"invalid length: {what}"
  | .sigVerifyFailed => "signature verification failed"
  | .argon2 message => s!"argon2 error: {message}"
  | .cbor message => s!"CBOR error: {message}"
  | .cborIntegerOutOfRange => "CBOR integer out of range for canonical encoding"
  | .cborNotCanonical => "CBOR is not CTAP2 canonical"
  | .invalidInput what => s!"invalid input: {what}"

inductive Value where
  | null
  | bool (b : Bool)
  | integer (n : ℤ)
  | bytes (b : Bytes)
  | text (s : String)
  | array (items : List Value)
  | map (entries : List (Value × Value))
  | tag (t : UInt64) (v : Value)
  | float (bits : UInt64)

namespace Value

/-- Induction with one hypothesis for every item of an array and for both parts
of every map entry. -/
@[elab_as_elim, induction_eliminator]
theorem induct {motive : Value → Prop}
    (null : motive .null) (bool : ∀ b, motive (.bool b)) (integer : ∀ n, motive (.integer n))
    (bytes : ∀ b, motive (.bytes b)) (text : ∀ s, motive (.text s))
    (array : ∀ items, (∀ x ∈ items, motive x) → motive (.array items))
    (map : ∀ entries : List (Value × Value),
      (∀ e ∈ entries, motive e.1 ∧ motive e.2) → motive (.map entries))
    (tag : ∀ t v, motive v → motive (.tag t v)) (float : ∀ bits, motive (.float bits))
    (v : Value) : motive v := by
  refine @Value.rec motive (fun xs => ∀ x ∈ xs, motive x)
    (fun es => ∀ e ∈ es, motive e.1 ∧ motive e.2) (fun e => motive e.1 ∧ motive e.2)
    null bool integer bytes text array map tag float ?_ ?_ ?_ ?_ ?_ v
  · simp
  · intro x xs hx hxs y hy
    rcases List.mem_cons.mp hy with rfl | hy
    · exact hx
    · exact hxs y hy
  · simp
  · intro e es he hes e' he'
    rcases List.mem_cons.mp he' with rfl | he'
    · exact he
    · exact hes e' he'
  · intro k v hk hv
    exact ⟨hk, hv⟩

/- A property of every node of a value. -/
mutual

def Every (p : Value → Prop) : Value → Prop
  | .array items => p (.array items) ∧ EveryItem p items
  | .map entries => p (.map entries) ∧ EveryEntry p entries
  | .tag t v => p (.tag t v) ∧ v.Every p
  | v => p v

def EveryItem (p : Value → Prop) : List Value → Prop
  | [] => True
  | x :: xs => x.Every p ∧ EveryItem p xs

def EveryEntry (p : Value → Prop) : List (Value × Value) → Prop
  | [] => True
  | (k, v) :: es => (k.Every p ∧ v.Every p) ∧ EveryEntry p es

end

variable {p : Value → Prop}

theorem everyItem_iff (xs : List Value) : EveryItem p xs ↔ ∀ x ∈ xs, x.Every p := by
  induction xs with
  | nil => simp [EveryItem]
  | cons x xs ih => simp [EveryItem, ih]

theorem everyEntry_iff (es : List (Value × Value)) :
    EveryEntry p es ↔ ∀ e ∈ es, e.1.Every p ∧ e.2.Every p := by
  induction es with
  | nil => simp [EveryEntry]
  | cons e es ih => simp [EveryEntry, ih]

@[simp] theorem every_array (xs : List Value) :
    (array xs).Every p ↔ p (.array xs) ∧ ∀ x ∈ xs, x.Every p := by
  simp [Every, everyItem_iff]

@[simp] theorem every_map (es : List (Value × Value)) :
    (map es).Every p ↔ p (.map es) ∧ ∀ e ∈ es, e.1.Every p ∧ e.2.Every p := by
  simp [Every, everyEntry_iff]

@[simp] theorem every_tag (t : UInt64) (v : Value) :
    (tag t v).Every p ↔ p (.tag t v) ∧ v.Every p := by simp [Every]

/-- The node itself has a property that every node has. -/
theorem Every.here {v : Value} (h : v.Every p) : p v := by
  cases v with
  | array xs => exact ((every_array xs).mp h).1
  | map es => exact ((every_map es).mp h).1
  | tag t v => exact ((every_tag t v).mp h).1
  | null | bool | integer | bytes | text | float => exact h

/-- Two properties of nodes that agree where a third holds agree on a value in
which the third holds everywhere. -/
theorem every_congr {p q r : Value → Prop} (hqr : ∀ x, p x → (q x ↔ r x)) {v : Value}
    (h : v.Every p) : v.Every q ↔ v.Every r := by
  induction v with
  | array xs ih =>
    rw [every_array] at h
    rw [every_array, every_array, hqr _ h.1]
    exact and_congr_right fun _ => forall₂_congr fun x hx => ih x hx (h.2 x hx)
  | map es ih =>
    rw [every_map] at h
    rw [every_map, every_map, hqr _ h.1]
    exact and_congr_right fun _ => forall₂_congr fun e he =>
      and_congr ((ih e he).1 (h.2 e he).1) ((ih e he).2 (h.2 e he).2)
  | tag t v ih =>
    rw [every_tag] at h
    rw [every_tag, every_tag, hqr _ h.1, ih h.2]
  | null | bool | integer | bytes | text | float => exact hqr _ h

/-- The bytes of a string, as the encoder writes them. -/
def utf8 (s : String) : Bytes := s.toUTF8.data.toList

/-- What a node's Rust type and the integer range allow: integers of the CBOR
range, and containers no longer than a 64-bit length. -/
def NodeFits : Value → Prop
  | .integer n => -2 ^ 64 ≤ n ∧ n < 2 ^ 64
  | .bytes b => b.length < 2 ^ 64
  | .text s => (utf8 s).length < 2 ^ 64
  | .array xs => xs.length < 2 ^ 64
  | .map es => es.length < 2 ^ 64
  | _ => True

/-- Every integer of the value is in the CBOR range and every container has a
64-bit length. -/
def Fits (v : Value) : Prop := v.Every NodeFits

@[simp] theorem fits_null : (null).Fits := by simp [Fits, Every, NodeFits]

@[simp] theorem fits_bool (b : Bool) : (bool b).Fits := by simp [Fits, Every, NodeFits]

@[simp] theorem fits_float (f : UInt64) : (float f).Fits := by simp [Fits, Every, NodeFits]

theorem fits_integer (n : ℤ) : (integer n).Fits ↔ -2 ^ 64 ≤ n ∧ n < 2 ^ 64 := by
  simp only [Fits, Every, NodeFits]

theorem fits_bytes (b : Bytes) : (bytes b).Fits ↔ b.length < 2 ^ 64 := by
  simp only [Fits, Every, NodeFits]

theorem fits_text (s : String) : (text s).Fits ↔ (utf8 s).length < 2 ^ 64 := by
  simp only [Fits, Every, NodeFits]

theorem fits_array (xs : List Value) :
    (array xs).Fits ↔ xs.length < 2 ^ 64 ∧ ∀ x ∈ xs, x.Fits := by
  simp only [Fits, every_array, NodeFits]

theorem fits_map (es : List (Value × Value)) :
    (map es).Fits ↔ es.length < 2 ^ 64 ∧ ∀ e ∈ es, e.1.Fits ∧ e.2.Fits := by
  simp only [Fits, every_map, NodeFits]

theorem fits_tag (t : UInt64) (v : Value) : (tag t v).Fits ↔ v.Fits := by
  simp only [Fits, every_tag, NodeFits, true_and]

end Value
end Spex
