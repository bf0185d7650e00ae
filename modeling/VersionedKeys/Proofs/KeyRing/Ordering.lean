import VersionedKeys.Proofs.KeyRing.Inactive
import VersionedKeys.Proofs.KeySource.Queries

/-!
# Candidates and the order of storage

The order in which a key set lists its versions does not count: sources whose versions are the same
in another order load the same ring (`KeySource.loadRing_eq_of_perm`), in which the primary key
comes first and no other is primary (`KeySource.Loads.exists_keys_of_primary`).
-/

namespace VersionedKeys

namespace KeySource

/-- Valid metadata is usable or not whatever the versions in it are. -/
theorem checkUse_eq_of_valid {metadata : Metadata} {versions : List KeyVersion}
    (valid : metadata.validate = .ok ())
    (rearrangedValid : { metadata with versions }.validate = .ok ()) (purposes : List KeyPurpose) :
    checkUse { metadata with versions } purposes = checkUse metadata purposes := by
  rw [checkUse, checkUse, valid, rearrangedValid]

/-- Sources with the same data, whose versions are listed in another order, load the same rings. -/
theorem loadRing_eq_of_perm {left right : KeySource} {versions : List KeyVersion}
    (rearranged : right.metadata = { left.metadata with versions })
    (permuted : versions.Perm left.metadata.versions)
    (leftValid : left.metadata.validate = .ok ()) (rightValid : right.metadata.validate = .ok ())
    (data : ∀ number, (left.keyData number).1 = (right.keyData number).1)
    (purposes : List KeyPurpose) : (left.loadRing purposes).1 = (right.loadRing purposes).1 := by
  rw [rearranged] at rightValid
  have sorted : { left.metadata with versions }.sortedVersions = left.metadata.sortedVersions :=
    Metadata.sortedVersions_eq_of_perm leftValid permuted
  have keys := readKeys_eq_of_keyData data left.metadata.keyType left.metadata.sortedVersions
  simp only [loadRing, rearranged, checkUse_eq_of_valid leftValid rightValid, sorted]
  cases checkUse left.metadata purposes with
  | error error => rfl
  | ok nothing => simp only [keys]

namespace Loads

variable {source : KeySource} {purposes : List KeyPurpose} {ring : KeyRing}
  (loads : source.Loads purposes ring)

include loads

theorem pairwise_precedes :
    ring.keys.Pairwise fun left right => left.1.Precedes right.1 := by
  have sorted := Metadata.pairwise_precedes loads.valid
  rw [← loads.versions, List.pairwise_map] at sorted
  exact sorted

/-- The primary key comes first, and there is no other. -/
theorem exists_keys_of_primary {key : Key} (primary : ring.primary = .ok key) :
    ∃ version rest, ring.keys = (version, key) :: rest ∧ version.status = .primary ∧
      ∀ entry ∈ rest, entry.1.status ≠ .primary := by
  obtain ⟨version, rest, keys, status⟩ := KeyRing.exists_keys_of_primary loads.canonical primary
  refine ⟨version, rest, keys, status, ?_⟩
  intro entry later otherPrimary
  have sorted := loads.pairwise_precedes
  rw [keys, List.pairwise_cons] at sorted
  have listed {version : KeyVersion} (held : version ∈ ring.keys.map (·.1)) :
      version ∈ source.metadata.versions := by
    rwa [loads.versions, Metadata.mem_sortedVersions] at held
  have same : version = entry.1 := Metadata.eq_of_primary loads.valid
    (listed (by rw [keys]; exact List.mem_cons_self))
    (listed (by rw [keys]; exact List.mem_cons_of_mem _ (List.mem_map_of_mem later)))
    status otherPrimary
  exact entry.1.not_precedes_self (same ▸ sorted.1 entry later)

end Loads

end KeySource

/-- Versions are totally preordered, and compare equal only if status and number are equal.  Valid
metadata has one way to sort its versions, without ties: primary, active, inactive, and of each
status the newer before the older.  So the order in which they are stored changes nothing about
what is loaded, nor about the keys that are tried.  The primary key is the first. -/
theorem KeyRing.storage_order_does_not_count :
    ((∀ left right : KeyVersion,
        right.canonicalCompare left = (left.canonicalCompare right).swap) ∧
      (∀ left right : KeyVersion,
        left.canonicalCompare right ≠ .gt ∨ right.canonicalCompare left ≠ .gt) ∧
      (∀ first second third : KeyVersion, first.canonicalCompare second ≠ .gt →
        second.canonicalCompare third ≠ .gt → first.canonicalCompare third ≠ .gt) ∧
      (∀ left right : KeyVersion, left.canonicalCompare right = .eq ↔
        left.status = right.status ∧ left.number = right.number) ∧
      ∀ left right : KeyVersion, left.canonicalCompare right = .lt ↔ left.Precedes right) ∧
    (∀ metadata : Metadata, metadata.validate = .ok () →
      metadata.sortedVersions.Perm metadata.versions ∧
        metadata.sortedVersions.Pairwise KeyVersion.Precedes ∧
        metadata.sortedVersions.Pairwise fun left right => left.canonicalCompare right ≠ .eq) ∧
    (∀ (left right : KeySource) (versions : List KeyVersion),
      right.metadata = { left.metadata with versions } →
      versions.Perm left.metadata.versions →
      left.metadata.validate = .ok () → right.metadata.validate = .ok () →
      (∀ number, (left.keyData number).1 = (right.keyData number).1) → ∀ purposes,
        (left.loadRing purposes).1 = (right.loadRing purposes).1 ∧
        ∀ leftRing rightRing, (left.loadRing purposes).1 = .ok leftRing →
          (right.loadRing purposes).1 = .ok rightRing →
            leftRing.keys = rightRing.keys ∧ leftRing.primary = rightRing.primary ∧
            ∀ allowInactive hash, (leftRing.allowing allowInactive).candidates hash =
              (rightRing.allowing allowInactive).candidates hash) ∧
    ∀ (source : KeySource) purposes ring, (source.loadRing purposes).1 = .ok ring →
      ∀ key, ring.primary = .ok key →
        ∃ version rest, ring.keys = (version, key) :: rest ∧ version.status = .primary ∧
          ∀ entry ∈ rest, entry.1.status ≠ .primary := by
  refine ⟨⟨?_, ?_, ?_, ?_, ?_⟩, ?_, ?_, ?_⟩
  · exact KeyVersion.canonicalCompare_swap
  · exact KeyVersion.canonicalCompare_total
  · intro first second third
    exact KeyVersion.canonicalCompare_trans
  · intro left right
    exact KeyVersion.canonicalCompare_eq_eq_iff
  · intro left right
    exact KeyVersion.canonicalCompare_eq_lt_iff
  · intro metadata valid
    have sorted := Metadata.pairwise_precedes valid
    refine ⟨metadata.sortedVersions_perm, sorted, sorted.imp fun {left right} precedes => ?_⟩
    rw [KeyVersion.canonicalCompare_eq_lt_iff.mpr precedes]
    decide
  · intro left right versions rearranged permuted leftValid rightValid data purposes
    have same :=
      KeySource.loadRing_eq_of_perm rearranged permuted leftValid rightValid data purposes
    refine ⟨same, ?_⟩
    intro leftRing rightRing leftLoaded rightLoaded
    obtain rfl : leftRing = rightRing :=
      Except.ok.inj (leftLoaded.symm.trans (same.trans rightLoaded))
    exact ⟨rfl, rfl, fun allowInactive hash => rfl⟩
  · intro source purposes ring loaded key primary
    exact (KeySource.loads_of_loadRing loaded).exists_keys_of_primary primary

namespace Sample

/-- The key set of `retired` with its versions in the other order. -/
def reordered (purpose : KeyPurpose) (key : Key) : KeySet :=
  { retired purpose key with
    metadata := { (retired purpose key).metadata with
      versions := [⟨2, .primary, false⟩, ⟨1, .inactive, false⟩] } }

end Sample

/-- Two versions with one key, stored in either order. -/
theorem KeyRing.storage_order_does_not_count_sample :
    (Sample.reordered .decryptAndEncrypt Sample.key).metadata.versions ≠
        (Sample.retired .decryptAndEncrypt Sample.key).metadata.versions ∧
      ((KeySource.stored (Sample.reordered .decryptAndEncrypt Sample.key)).loadRing
        [.decryptAndEncrypt]).1 = .ok (Sample.retiredRing .decryptAndEncrypt Sample.key) ∧
      (Sample.retired .decryptAndEncrypt Sample.key).metadata.sortedVersions.Pairwise
        KeyVersion.Precedes ∧
      ∃ rest, (Sample.retiredRing .decryptAndEncrypt Sample.key).keys =
        (⟨2, .primary, false⟩, Sample.key) :: rest := by
  obtain ⟨-, sorted, same, first⟩ := storage_order_does_not_count
  have loaded := Sample.loadRing_retired.1
  have valid : (Sample.retired .decryptAndEncrypt Sample.key).metadata.validate = .ok () := rfl
  refine ⟨by decide, ?_, (sorted _ valid).2.1, ?_⟩
  · have equal := (same (.stored (Sample.retired .decryptAndEncrypt Sample.key))
      (.stored (Sample.reordered .decryptAndEncrypt Sample.key)) _ rfl (List.Perm.swap _ _ _) valid
      rfl (fun number => rfl) [.decryptAndEncrypt]).1
    rw [← equal, loaded]
  · obtain ⟨version, rest, keys, -⟩ := first _ _ _ loaded Sample.key rfl
    cases keys
    exact ⟨_, rfl⟩

end VersionedKeys
