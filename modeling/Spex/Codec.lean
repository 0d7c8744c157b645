import Mathlib.Data.Countable.Basic
import Mathlib.Logic.Encodable.Basic
import Mathlib.Logic.Equiv.List
import Mathlib.Tactic.DeriveCountable
import Spex.Tabulated

/-!
# Values as text and back

A codec writes values as bytes and reads back what it has written. Nothing is
said about bytes that it has not written. There is a codec with given texts for
finitely many values of any countable type.
-/
namespace Spex

variable {α : Type*}

structure Codec (α : Type*) where
  toVec : α → List UInt8
  fromSlice : List UInt8 → Option α
  fromSlice_toVec : ∀ a, fromSlice (toVec a) = some a

namespace Codec
open Tabulated

theorem toVec_injective (codec : Codec α) : Function.Injective codec.toVec := by
  intro a b h
  have ha := codec.fromSlice_toVec a
  rw [h, codec.fromSlice_toVec] at ha
  exact (Option.some.inj ha).symm

/-- Any injective function writes values that can be read back. -/
theorem exists_of_injective {write : α → List UInt8} (h : Function.Injective write) :
    ∃ codec : Codec α, codec.toVec = write :=
  ⟨⟨write, Function.partialInv write, fun a =>
    (h.isPartialInv a (write a)).mpr rfl⟩, rfl⟩

theorem exists_of_table [Countable α] {table : List (α × List UInt8)}
    (hkeys : (table.map Prod.fst).Nodup) (hvalues : (table.map Prod.snd).Nodup)
    (hzero : ∀ row ∈ table, row.2.head? ≠ some 0) :
    ∃ codec : Codec α, ∀ row ∈ table, codec.toVec row.1 = row.2 := by
  obtain ⟨number, hnumber⟩ := exists_injective_nat α
  let tag (a : α) : List UInt8 := List.replicate (number a) 0
  have htag : Function.Injective tag := fun a b h => hnumber (List.replicate_left_injective _ h)
  let rows := table.map fun row => (tag row.1, row.2)
  have hproper : Proper rows := by
    refine ⟨by simpa [rows, Function.comp_def] using hvalues, ?_⟩
    intro row hrow
    obtain ⟨source, hsource, rfl⟩ := List.mem_map.mp hrow
    exact hzero source hsource
  obtain ⟨codec, hcodec⟩ := exists_of_injective ((tabulated_injective hproper).comp htag)
  refine ⟨codec, fun row hrow => ?_⟩
  rw [hcodec]
  refine tabulated_of_mem ?_ (List.mem_map_of_mem hrow)
  simpa [rows, Function.comp_def] using hkeys.map htag

theorem nonempty [Countable α] : Nonempty (Codec α) := by
  obtain ⟨codec, -⟩ := @exists_of_table α _ [] List.nodup_nil List.nodup_nil (by simp)
  exact ⟨codec⟩

end Codec

instance countableUInt8 : Countable UInt8 :=
  have hinj : Function.Injective UInt8.toNat := fun _ _ => UInt8.toNat_inj.mp
  hinj.countable

instance countableUInt32 : Countable UInt32 :=
  have hinj : Function.Injective UInt32.toNat := fun _ _ => UInt32.toNat_inj.mp
  hinj.countable

instance countableUInt64 : Countable UInt64 :=
  have hinj : Function.Injective UInt64.toNat := fun _ _ => UInt64.toNat_inj.mp
  hinj.countable

instance countableChar : Countable Char :=
  have hinj : Function.Injective Char.toNat := fun _ _ => Char.toNat_inj.mp
  hinj.countable

instance countableString : Countable String :=
  have hinj : Function.Injective String.toList := fun _ _ => String.toList_injective
  hinj.countable

end Spex
