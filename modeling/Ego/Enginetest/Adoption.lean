import Ego.Enginetest.Account
import Ego.Migration.Receipt
import Ego.Persistence.Listing
import Mathlib.Data.List.Dedup

/-! # Codecs for concrete adoptions -/

namespace Ego.Enginetest
open Persistence Migration
open Tenancy (Metadata)
open Lib (Code)
open Lib.Code (text nat bool int)

def digestChar (b : UInt8) : Char := Char.ofNat (b.toNat + 256)

theorem digestChar_toNat (b : UInt8) : (digestChar b).toNat = b.toNat + 256 := by
  have hlt : b.toNat < 256 := b.toNat_lt
  have hvalid : (b.toNat + 256).isValidChar := by
    omega
  rw [digestChar, Char.ofNat, dif_pos hvalid]
  rfl

theorem digestChar_injective : Function.Injective digestChar := by
  intro a b hab
  have h := congrArg Char.toNat hab
  rw [digestChar_toNat, digestChar_toNat, Nat.add_right_cancel_iff] at h
  exact UInt8.toNat_inj.mp h

def testDigest : Digest where
  sum := fun bytes => String.ofList (bytes.map digestChar)
  hexadecimal := by
    intro x hmem
    rw [String.toList_ofList, List.mem_map] at hmem
    obtain ⟨b, -, hb⟩ := hmem
    have := congrArg Char.toNat hb
    rw [digestChar_toNat] at this
    have hcolon : Char.toNat ':' = 58 := rfl
    omega
  quote := fun s => String.ofList ((utf8 s).map digestChar)
  quote_injective := by
    intro s t h
    exact utf8_injective (List.map_injective_iff.mpr digestChar_injective (String.ofList_injective h))
  quote_nonzero := by
    intro s hzero
    have hbytes (l : List Char) : utf8 (String.ofList l) = l.flatMap String.utf8EncodeChar := by
      change (String.ofList l).toByteArray.data.toList = _
      rw [String.toByteArray_ofList, List.utf8Encode, List.data_toByteArray]
    rw [hbytes, List.mem_flatMap] at hzero
    obtain ⟨c, hc, hzero⟩ := hzero
    obtain ⟨b, -, rfl⟩ := List.mem_map.mp hc
    have hnonzero : ∀ i : Fin 256, (0 : UInt8) ∉ String.utf8EncodeChar
        (Char.ofNat (i.val + 256)) := by decide +kernel
    exact hnonzero ⟨b.toNat, b.toNat_lt⟩ hzero

theorem testDigest_injective : Function.Injective testDigest.sum :=
  fun _ _ h => List.map_injective_iff.mpr digestChar_injective (String.ofList_injective h)

/-- The map that the list stands for: the first entry of each key, in the order of the keys. -/
def canonical (md : Metadata) : Metadata :=
  ((md.map Prod.fst).dedup.insertionSort (· ≤ ·)).map fun key => (key, (md.lookup key).getD "")

theorem mem_keys_iff {md : Metadata} {key : String} :
    key ∈ md.map Prod.fst ↔ (md.lookup key).isSome = true := by
  rw [← not_iff_not, Bool.not_eq_true, Option.isSome_eq_false_iff, Option.isNone_iff_eq_none,
    List.lookup_eq_none_iff]
  simp only [List.mem_map, not_exists, not_and, bne_iff_ne, ne_eq]
  exact ⟨fun h p hp heq => h p hp heq.symm, fun h p hp heq => h p hp heq.symm⟩

theorem mem_canonical {md : Metadata} {key value : String} :
    (key, value) ∈ canonical md ↔ md.lookup key = some value := by
  unfold canonical
  simp only [List.mem_map, Prod.mk.injEq, (List.perm_insertionSort _ _).mem_iff, List.mem_dedup]
  constructor
  · rintro ⟨key, hkey, rfl, rfl⟩
    obtain ⟨value, hvalue⟩ := Option.isSome_iff_exists.mp (mem_keys_iff.mp (List.mem_map.mpr hkey))
    rw [hvalue, Option.getD_some]
  · intro h
    exact ⟨key, List.mem_map.mp (mem_keys_iff.mpr (by rw [h]; rfl)), rfl, by rw [h]; rfl⟩

theorem canonical_eq_iff {md md' : Metadata} :
    canonical md = canonical md' ↔ ∀ key, md.lookup key = md'.lookup key := by
  constructor
  · intro h key
    refine Option.ext fun value => ?_
    rw [← mem_canonical, ← mem_canonical, h]
  · intro h
    have hkeys : (md.map Prod.fst).dedup.Perm (md'.map Prod.fst).dedup :=
      (List.perm_ext_iff_of_nodup (List.nodup_dedup _) (List.nodup_dedup _)).mpr fun key => by
        rw [List.mem_dedup, List.mem_dedup, mem_keys_iff, mem_keys_iff, h]
    have hsorted : (md.map Prod.fst).dedup.insertionSort (· ≤ ·) =
        (md'.map Prod.fst).dedup.insertionSort (· ≤ ·) :=
      ((List.perm_insertionSort _ _).trans (hkeys.trans (List.perm_insertionSort _ _).symm)).eq_of_pairwise
        (fun _ _ _ _ => le_antisymm) (List.pairwise_insertionSort _ _) (List.pairwise_insertionSort _ _)
    unfold canonical
    simp only [hsorted, h]

def metadata : Code Metadata := (text.prod text).list

def eventCode : Code Event :=
  (text.prod (nat.prod (bool.prod (anyCode.prod (int.prod (nat.prod (text.prod (bool.prod metadata)))))))).via
    (fun e => (e.persistenceId, e.sequenceNumber, e.isDeleted, e.event, e.timestamp, e.shard, e.encryptionKeyId,
      e.isEncrypted, e.tenantMetadata))
    (fun ⟨a, b, c, d, e, f, g, h, i⟩ => ⟨a, b, c, d, e, f, g, h, i⟩) fun _ => rfl

def snapshotCode : Code Snapshot :=
  (text.prod (nat.prod (anyCode.option.prod (int.prod (text.prod (bool.prod metadata)))))).via
    (fun s => (s.persistenceId, s.sequenceNumber, s.state, s.timestamp, s.encryptionKeyId, s.isEncrypted,
      s.tenantMetadata))
    (fun ⟨a, b, c, d, e, f, g⟩ => ⟨a, b, c, d, e, f, g⟩) fun _ => rfl

def stateCode : Code DurableState :=
  (text.prod (nat.prod (anyCode.option.prod (int.prod (nat.prod metadata))))).via
    (fun s => (s.persistenceId, s.versionNumber.toNat, s.resultingState, s.timestamp, s.shard, s.tenantMetadata))
    (fun ⟨a, b, c, d, e, f⟩ => ⟨a, .ofNat b, c, d, e, f⟩) fun _ => by simp

/-- `proto.MarshalOptions` with `Deterministic`, which sorts the keys of a map. -/
def testMarshal {ρ : Type} [Adoptable ρ] (code : Code ρ) : Marshal ρ where
  encode := fun x => code.encode (setTenantMetadata x (canonical (tenantMetadataOf x)))
  faithful := by
    intro x y
    rw [code.encode_injective.eq_iff, SameMessage, ← canonical_eq_iff]
    constructor
    · intro h
      have hrecord := congrArg (setTenantMetadata · []) h
      have hmetadata := congrArg tenantMetadataOf h
      simp only [Adoptable.set_set] at hrecord
      rw [Adoptable.get_set, Adoptable.get_set] at hmetadata
      exact ⟨hrecord, hmetadata⟩
    · rintro ⟨hrecord, hmetadata⟩
      rw [hmetadata, ← Adoptable.set_set x [], hrecord, Adoptable.set_set]

end Ego.Enginetest
