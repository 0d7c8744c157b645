import Spex.Binding
import Spex.CheckpointLog
import Spex.MerkleTree

/-!
# What the Merkle root of a log binds

The encoding of an entry determines the entry, whichever of the three kinds it is.
The root of a log is the root of a hash tree over these encodings, so that logs
with the same root have the same entries unless two hashed inputs collide.
-/
namespace Spex
open Cbor Fallible

section Entries

lemma text_inj (a b : String) (h : Equivalent (.text a) (.text b)) : a = b :=
  equivalent_text_iff.mp h

/-- Two records with the same identifiers and without extensions. -/
lemma plain_rel (fields fields' : List (UInt64 × Option Value)) (ids : List UInt64)
    (hids : fields.map Prod.fst = ids ∧ fields'.map Prod.fst = ids) (hd : ids.Nodup)
    (h : Equivalent (FieldMap.toValue (FieldMap.ofFields fields))
      (FieldMap.toValue (FieldMap.ofFields fields'))) :
    List.Forall₂ (Option.Rel Equivalent) (fields.map Prod.snd) (fields'.map Prod.snd) :=
  FieldMap.forall₂_of_rel (hids.1.trans hids.2.symm) (hids.1 ▸ hd)
    fun k _ => FieldMap.rel_of_equiv h k

theorem KeyCheckpoint.eq_of_equivalent {key key' : KeyCheckpoint}
    (h : Equivalent (toCborValue key) (toCborValue key')) : key = key' := by
  have hrel := plain_rel key.fields key'.fields [0, 1, 2, 3] ⟨rfl, rfl⟩ (by decide) h
  obtain - | ⟨huser, - | ⟨hkey, - | ⟨hdevice, - | ⟨hissued, -⟩⟩⟩⟩ := hrel
  exact KeyCheckpoint.ext (bytes_inj _ _ (of_rel_some huser)) (bytes_inj _ _ (of_rel_some hkey))
    (bytes_inj _ _ (of_rel_some hdevice)) (integer_inj u64_inj _ _ (of_rel_some hissued))

theorem RecoveryKey.eq_of_equivalent {key key' : RecoveryKey}
    (h : Equivalent (toCborValue key) (toCborValue key')) : key = key' := by
  have hrel := plain_rel key.fields key'.fields [0, 1, 2] ⟨rfl, rfl⟩ (by decide) h
  obtain - | ⟨huser, - | ⟨hkey, - | ⟨hissued, -⟩⟩⟩ := hrel
  exact RecoveryKey.ext (bytes_inj _ _ (of_rel_some huser)) (bytes_inj _ _ (of_rel_some hkey))
    (integer_inj u64_inj _ _ (of_rel_some hissued))

theorem RevocationDeclaration.eq_of_equivalent {revocation revocation' : RevocationDeclaration}
    (h : Equivalent (toCborValue revocation) (toCborValue revocation')) :
    revocation = revocation' := by
  have hrel := plain_rel revocation.fields revocation'.fields [0, 1, 2, 3, 4] ⟨rfl, rfl⟩
    (by decide) h
  obtain - | ⟨huser, - | ⟨hkey, - | ⟨hrevoked, - | ⟨hrecovery, - | ⟨hreason, -⟩⟩⟩⟩⟩ := hrel
  exact RevocationDeclaration.ext (bytes_inj _ _ (of_rel_some huser))
    (bytes_inj _ _ (of_rel_some hkey)) (integer_inj u64_inj _ _ (of_rel_some hrevoked))
    (eq_of_rel bytes_inj hrecovery) (eq_of_rel text_inj hreason)

/-- The kind of an entry is bound by its tag, the rest by the encoding of its kind. -/
theorem CheckpointEntry.eq_of_equivalent {entry entry' : CheckpointEntry}
    (h : Equivalent (toCborValue entry) (toCborValue entry')) : entry = entry' := by
  have hrel := plain_rel entry.fields entry'.fields [0, 1]
    ⟨by cases entry <;> rfl, by cases entry' <;> rfl⟩ (by decide) h
  cases entry <;> cases entry' <;> obtain - | ⟨htag, - | ⟨hvalue, -⟩⟩ := hrel
  case key.key => rw [KeyCheckpoint.eq_of_equivalent (of_rel_some hvalue)]
  case recovery.recovery => rw [RecoveryKey.eq_of_equivalent (of_rel_some hvalue)]
  case revocation.revocation => rw [RevocationDeclaration.eq_of_equivalent (of_rel_some hvalue)]
  all_goals exact absurd (equivalent_integer_iff.mp (of_rel_some htag)) (by decide)

end Entries

namespace CheckpointLog

theorem encodeEntry_inj (entry entry' : CheckpointEntry) (bytes : Bytes)
    (h : encodeEntry entry = .ok bytes) (h' : encodeEntry entry' = .ok bytes) : entry = entry' :=
  CheckpointEntry.eq_of_equivalent (equiv_of_bytes_eq h h')

section Binding
variable (sha256 : Bytes → Bytes)

/-- Leaves and nodes are hashed after a byte that tells them apart. -/
def hashScheme : MerkleTree.Scheme Bytes Bytes Bytes where
  leafInput encoded := 0x00 :: encoded
  nodeInput left right := 0x01 :: (left ++ right)
  hash := hashBytes sha256 .sha256

/-- What is hashed for the root of a log: the encoding of every entry and the nodes
of the tree over them. -/
def hashedInputs (log : CheckpointLog) : List Bytes :=
  match log.entries.mapM encodeEntry with
  | .ok (first :: rest) => (MerkleTree.ofLeaves (first :: rest)).inputs (hashScheme sha256)
  | _ => []

variable {sha256} {log other : CheckpointLog} {codec : LogCodec}

theorem separates_hashScheme (h32 : ∀ input, (sha256 input).length = 32) :
    (hashScheme sha256).Separates where
  leaf := fun a b h => List.cons.inj h |>.2
  node := by
    intro x y x' y' h
    have happend := (List.cons.inj h).2
    exact List.append_inj happend ((h32 x).trans (h32 x').symm)
  apart := fun a x y h => absurd (List.cons.inj h).1 (by decide)

theorem leafHash_eq (sha256 : Bytes → Bytes) (entry : CheckpointEntry) :
    leafHash sha256 entry = (encodeEntry entry).map fun encoded =>
      (hashScheme sha256).hash ((hashScheme sha256).leafInput encoded) := by
  unfold leafHash
  cases encodeEntry entry <;> rfl

/-- The root of a reached log is the root of a tree over its encoded entries. -/
theorem merkleRoot_tree (h : Reached sha256 codec log) (hne : log.entries ≠ []) :
    ∃ encodings, log.entries.mapM encodeEntry = .ok encodings ∧ encodings ≠ [] ∧
      log.hashedInputs sha256 = (MerkleTree.ofLeaves encodings).inputs (hashScheme sha256) ∧
      log.merkleRoot sha256 = .ok ((MerkleTree.ofLeaves encodings).root (hashScheme sha256)) := by
  have hsynced := synced_of_reached h
  obtain ⟨leaves, hleaves, hcovers⟩ := hsynced.covers
  rw [funext (leafHash_eq sha256), mapM_map_eq_ok] at hleaves
  obtain ⟨encodings, hencodings, rfl⟩ := hleaves
  have hcons : encodings ≠ [] := by
    rintro rfl
    exact hne (List.forall₂_nil_right_iff.mp (mapM_eq_ok.mp hencodings))
  refine ⟨encodings, hencodings, hcons, ?_, ?_⟩
  · obtain ⟨first, rest, rfl⟩ := List.exists_cons_of_ne_nil hcons
    rw [hashedInputs, hencodings]
  · rw [hsynced.merkleRoot_eq, hcovers.root_eq, MerkleTree.root_ofLeaves hcons]
    rfl

theorem merkleRoot_of_nil (h : log.entries = []) : log.merkleRoot sha256 = .ok [] := by
  rw [merkleRoot, h]
  rfl

theorem entries_eq_nil (h32 : ∀ input, (sha256 input).length = 32)
    (h : Reached sha256 codec log) (hroot : log.merkleRoot sha256 = .ok []) :
    log.entries = [] := by
  by_contra hne
  obtain ⟨encodings, -, -, -, htree⟩ := merkleRoot_tree h hne
  rw [hroot, MerkleTree.Tree.root_eq] at htree
  have hlength := congrArg List.length (Except.ok.inj htree)
  exact absurd (hlength.trans (h32 _)) (by decide)

/-- The root binds the entries and their order, unless two inputs hashed for the
two logs collide. -/
theorem merkleRoot_binds (h32 : ∀ input, (sha256 input).length = 32)
    (h : Reached sha256 codec log) (hother : Reached sha256 codec other)
    (hcollide : ∀ x ∈ log.hashedInputs sha256, ∀ y ∈ other.hashedInputs sha256,
      sha256 x = sha256 y → x = y)
    (hroot : log.merkleRoot sha256 = other.merkleRoot sha256) : log.entries = other.entries := by
  by_cases hlog : log.entries = []
  · rw [merkleRoot_of_nil hlog] at hroot
    rw [hlog, entries_eq_nil h32 hother hroot.symm]
  by_cases hnil : other.entries = []
  · rw [merkleRoot_of_nil hnil] at hroot
    exact absurd (entries_eq_nil h32 h hroot) hlog
  obtain ⟨encodings, hencodings, hcons, hinputs, htree⟩ := merkleRoot_tree h hlog
  obtain ⟨encodings', hencodings', hcons', hinputs', htree'⟩ := merkleRoot_tree hother hnil
  rw [htree, htree'] at hroot
  rw [hinputs, hinputs'] at hcollide
  have heq := MerkleTree.Tree.eq_of_root_eq (separates_hashScheme h32) hcollide
    (Except.ok.inj hroot)
  rw [← MerkleTree.ofLeaves_inj hcons hcons' heq] at hencodings'
  exact mapM_inj encodeEntry_inj hencodings hencodings'

end Binding

/-- The log of two entries, reached by the calls that return the root. -/
def twoWithRoot : CheckpointLog :=
  ((new.appendWithRoot twoHash (recoveryOf 1)).2.appendWithRoot twoHash (recoveryOf 2)).2

theorem merkleRoot_binds_two :
    Reached twoHash (codecOf [] []) twoWithRoot ∧
    twoEntries.merkleRoot twoHash = twoWithRoot.merkleRoot twoHash ∧
    twoEntries.entries = twoWithRoot.entries := by
  have h32 : ∀ input, (twoHash input).length = 32 := Tabulated.length_padded (by decide)
  have hreached : Reached twoHash (codecOf [] []) twoWithRoot :=
    .appendWithRoot _ (.appendWithRoot _ .new)
  have hsame : twoEntries = twoWithRoot := rfl
  have hcollide : ∀ x ∈ twoEntries.hashedInputs twoHash,
      ∀ y ∈ twoEntries.hashedInputs twoHash, twoHash x = twoHash y → x = y := by
    decide +kernel
  have hroot : twoEntries.merkleRoot twoHash = twoWithRoot.merkleRoot twoHash := by
    rw [hsame]
  rw [hsame] at hcollide
  exact ⟨hreached, hroot, merkleRoot_binds h32 (reached_twoEntries _) hreached hcollide hroot⟩

end CheckpointLog

end Spex
