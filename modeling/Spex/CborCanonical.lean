import Spex.CborEquiv

/-!
# Accepting canonical input

`ctap2_canonical_value_from_slice` reads a value with the CBOR library, encodes
it again and compares. The library is a parameter. What is accepted is exactly
what the encoder writes, so round trips are exact; but the comparison says
nothing about a key that occurs twice, because the sort leaves equal keys where
they are.
-/
namespace Spex.Cbor
open KeySort Fallible
variable {reader : Bytes → Except String Value}

/-- `reader` is `ciborium::de::from_reader`, with its error already rendered. -/
def ctap2CanonicalValueFromSlice (reader : Bytes → Except String Value) (bytes : Bytes) :
    Except SpexError Value := do
  let value ← (reader bytes).mapError SpexError.cbor
  let canonical ← ctap2CanonicalValueBytes value
  if canonical ≠ bytes then .error .cborNotCanonical else return value

/-- The reader decodes definite-length CBOR as RFC 8949 says, keeps tags as tags
and does not limit nesting. -/
def DecodesRfc8949 (reader : Bytes → Except String Value) : Prop :=
  ∀ b u, readCbor b = some (u, []) → reader b = .ok u

/-- A reader of that kind, which refuses everything else. -/
def rfcReader (b : Bytes) : Except String Value :=
  match readCbor b with
  | some (u, []) => .ok u
  | _ => .error "not one definite-length item"

theorem decodesRfc8949_rfcReader : DecodesRfc8949 rfcReader := by
  intro b u h
  rw [rfcReader, h]

/-- What is accepted was written by the encoder, from the value that is returned. -/
theorem fromSlice_eq_ok {b : Bytes} {v : Value}
    (h : ctap2CanonicalValueFromSlice reader b = .ok v) : reader b = .ok v ∧ v.Fits ∧ wire v = b := by
  unfold ctap2CanonicalValueFromSlice at h
  obtain ⟨u, hu, h⟩ := bind_eq_ok.mp h
  obtain ⟨c, hc, h⟩ := bind_eq_ok.mp h
  obtain ⟨hfits, hwire⟩ := encodeValue_eq_ok hc
  split_ifs at h with hne
  have hv : u = v := Except.ok.inj h
  subst hv
  exact ⟨mapError_eq_ok.mp hu, hfits, hwire.trans (not_not.mp hne)⟩

theorem fromSlice_of_reader {b : Bytes} {v : Value} (hr : reader b = .ok v)
    (hb : ctap2CanonicalValueBytes v = .ok b) : ctap2CanonicalValueFromSlice reader b = .ok v := by
  simp [ctap2CanonicalValueFromSlice, hr, Except.mapError, hb, pure, Except.pure]

/-- Encoding, reading and encoding again: the reader sees the normal form, whose
bytes are the same, so the bytes are accepted as canonical. -/
theorem canonicalBytes_roundTrip {reader : Bytes → Except String Value}
    (hr : DecodesRfc8949 reader) {v : Value} (hv : v.Fits) :
    ∃ b, ctap2CanonicalValueBytes v = .ok b ∧ reader b = .ok (normalize v) ∧
      ctap2CanonicalValueBytes (normalize v) = .ok b ∧
      ctap2CanonicalValueFromSlice reader b = .ok (normalize v) := by
  have hread : reader (wire v) = .ok (normalize v) := hr _ _ (readCbor_wire hv)
  have hagain : ctap2CanonicalValueBytes (normalize v) = .ok (wire v) := by
    rw [← wire_normalize v]
    exact encodeValue_of_fits (fits_normalize hv)
  exact ⟨wire v, encodeValue_of_fits hv, hread, hagain, fromSlice_of_reader hread hagain⟩

theorem canonicalBytes_roundTrip_nested :
    ∃ b, ctap2CanonicalValueBytes
        (.map [(.integer 1000, .float 0xfff0000000000001), (.text "a", .array [.integer (-25)]),
          (.integer 10, .tag 1 (.map [(.bytes [1, 2], .bool true), (.null, .integer 24)]))]) =
          .ok b ∧
      ctap2CanonicalValueFromSlice rfcReader b = .ok (normalize
        (.map [(.integer 1000, .float 0xfff0000000000001), (.text "a", .array [.integer (-25)]),
          (.integer 10, .tag 1 (.map [(.bytes [1, 2], .bool true), (.null, .integer 24)]))])) := by
  obtain ⟨b, hb, _, _, hslice⟩ := canonicalBytes_roundTrip decodesRfc8949_rfcReader
    (v := .map [(.integer 1000, .float 0xfff0000000000001), (.text "a", .array [.integer (-25)]),
      (.integer 10, .tag 1 (.map [(.bytes [1, 2], .bool true), (.null, .integer 24)]))]) (by
    simp only [Value.Fits, Value.Every, Value.EveryEntry, Value.EveryItem, Value.NodeFits]
    decide)
  exact ⟨b, hb, hslice⟩

end Spex.Cbor
