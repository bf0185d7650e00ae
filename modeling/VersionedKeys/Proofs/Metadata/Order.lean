import Mathlib.Data.List.Nodup
import VersionedKeys.Proofs.KeySet.Validity

/-!
# The canonical order of versions

Comparing versions is a total preorder, in which two of them are equal if their status and their
number are (`KeyVersion.canonicalCompare_eq_eq_iff`).  In valid metadata the numbers differ, so
there is only one way to sort the versions: `Metadata.sortedVersions_eq_of_perm`.
-/

namespace VersionedKeys

/-- One status comes before another in the canonical order. -/
inductive KeyStatus.Before : KeyStatus → KeyStatus → Prop where
  | primary_active : Before primary active
  | primary_inactive : Before primary inactive
  | active_inactive : Before active inactive

theorem KeyStatus.rank_lt_iff {left right : KeyStatus} :
    left.rank < right.rank ↔ left.Before right := by
  constructor
  · intro below
    cases left <;> cases right <;> first | constructor | exact absurd below (by decide)
  · rintro (_ | _ | _) <;> decide

theorem KeyStatus.rank_inj {left right : KeyStatus} : left.rank = right.rank ↔ left = right := by
  cases left <;> cases right <;> decide

namespace KeyVersion

/-- One version comes before another in the canonical order. -/
def Precedes (left right : KeyVersion) : Prop :=
  left.status.Before right.status ∨ left.status = right.status ∧ right.number < left.number

instance : Std.TransCmp canonicalCompare :=
  inferInstanceAs (Std.TransCmp (compareLex (compareOn fun version : KeyVersion =>
    version.status.rank) fun left right : KeyVersion => compareOn number right left))

theorem canonicalCompare_eq_eq_iff {left right : KeyVersion} :
    left.canonicalCompare right = .eq ↔
      left.status = right.status ∧ left.number = right.number := by
  rw [canonicalCompare, Ordering.then_eq_eq, Std.compare_eq_iff_eq, Std.compare_eq_iff_eq,
    KeyStatus.rank_inj, eq_comm (a := right.number)]

theorem canonicalCompare_eq_lt_iff {left right : KeyVersion} :
    left.canonicalCompare right = .lt ↔ left.Precedes right := by
  rw [canonicalCompare, Ordering.then_eq_lt, Std.compare_eq_lt, Std.compare_eq_lt,
    Std.compare_eq_iff_eq, KeyStatus.rank_lt_iff, KeyStatus.rank_inj, Precedes]

theorem not_precedes_self (version : KeyVersion) : ¬ version.Precedes version := by
  rw [← canonicalCompare_eq_lt_iff, canonicalCompare_eq_eq_iff.mpr ⟨rfl, rfl⟩]
  decide

theorem canonicalCompare_ne_gt_iff {left right : KeyVersion} :
    left.canonicalCompare right ≠ .gt ↔
      left.status.rank < right.status.rank ∨
        left.status.rank = right.status.rank ∧ right.number ≤ left.number := by
  rw [ne_eq, Ordering.ne_gt_iff_isLE, canonicalCompare, Ordering.isLE_then_iff_or,
    Std.compare_eq_lt, Std.compare_eq_iff_eq, Std.isLE_compare]

theorem canonicalCompare_swap (left right : KeyVersion) :
    right.canonicalCompare left = (left.canonicalCompare right).swap :=
  Std.OrientedCmp.eq_swap

theorem canonicalCompare_trans {first second third : KeyVersion}
    (front : first.canonicalCompare second ≠ .gt) (back : second.canonicalCompare third ≠ .gt) :
    first.canonicalCompare third ≠ .gt := by
  rw [ne_eq, Ordering.ne_gt_iff_isLE] at front back ⊢
  exact Std.TransCmp.isLE_trans front back

theorem canonicalCompare_total (left right : KeyVersion) :
    left.canonicalCompare right ≠ .gt ∨ right.canonicalCompare left ≠ .gt := by
  rw [canonicalCompare_swap left right]
  cases left.canonicalCompare right <;> decide

/-- Versions of which neither comes before the other compare equal. -/
theorem canonicalCompare_antisymm {left right : KeyVersion}
    (front : left.canonicalCompare right ≠ .gt) (back : right.canonicalCompare left ≠ .gt) :
    left.canonicalCompare right = .eq := by
  rw [canonicalCompare_swap left right] at back
  cases order : left.canonicalCompare right with
  | eq => rfl
  | lt => simp [order] at back
  | gt => exact absurd order front

end KeyVersion

namespace Metadata

theorem sortedVersions_perm (metadata : Metadata) :
    metadata.sortedVersions.Perm metadata.versions :=
  List.mergeSort_perm _ _

theorem pairwise_sortedVersions (metadata : Metadata) :
    metadata.sortedVersions.Pairwise fun left right => left.canonicalCompare right ≠ .gt := by
  have sorted := List.pairwise_mergeSort
    (fun first second third : KeyVersion =>
      (show (first.canonicalCompare second != .gt) = true →
        (second.canonicalCompare third != .gt) = true →
          (first.canonicalCompare third != .gt) = true by
        simp only [bne_iff_ne]
        exact KeyVersion.canonicalCompare_trans))
    (fun first second =>
      (show (first.canonicalCompare second != .gt || second.canonicalCompare first != .gt) =
        true by
        simp only [Bool.or_eq_true, bne_iff_ne]
        exact first.canonicalCompare_total second))
    metadata.versions
  exact sorted.imp fun holds => by simpa using holds

theorem sortedVersions_of_pair {metadata : Metadata} {first second : KeyVersion}
    (versions : metadata.versions = [first, second])
    (later : first.canonicalCompare second = .gt) : metadata.sortedVersions = [second, first] := by
  simp [sortedVersions, versions, List.mergeSort, List.MergeSort.Internal.splitInTwo, later]

@[simp]
theorem mem_sortedVersions {metadata : Metadata} {version : KeyVersion} :
    version ∈ metadata.sortedVersions ↔ version ∈ metadata.versions :=
  List.mem_mergeSort

section Valid

variable {metadata : Metadata} (valid : metadata.validate = .ok ())

include valid

theorem eq_of_canonicalCompare {left right : KeyVersion} (leftListed : left ∈ metadata.versions)
    (rightListed : right ∈ metadata.versions) (same : left.canonicalCompare right = .eq) :
    left = right :=
  eq_of_number valid leftListed rightListed (KeyVersion.canonicalCompare_eq_eq_iff.mp same).2

theorem nodup_sortedVersions : metadata.sortedVersions.Nodup :=
  metadata.sortedVersions_perm.nodup_iff.mpr (validate_eq_ok_iff.mp valid).2.2.2.of_map

/-- In valid metadata no version compares equal to another. -/
theorem pairwise_precedes : metadata.sortedVersions.Pairwise KeyVersion.Precedes := by
  refine (metadata.pairwise_sortedVersions.and (nodup_sortedVersions valid)).imp_of_mem ?_
  rintro left right leftSorted rightSorted ⟨ordered, different⟩
  rw [← KeyVersion.canonicalCompare_eq_lt_iff]
  cases order : left.canonicalCompare right with
  | lt => rfl
  | gt => exact absurd order ordered
  | eq =>
      exact absurd (eq_of_canonicalCompare valid (mem_sortedVersions.mp leftSorted)
        (mem_sortedVersions.mp rightSorted) order) different

/-- The order in which the versions are stored does not count. -/
theorem sortedVersions_eq_of_perm {other : Metadata}
    (permuted : other.versions.Perm metadata.versions) :
    other.sortedVersions = metadata.sortedVersions := by
  have sorted := other.sortedVersions_perm.trans permuted
  refine List.Perm.eq_of_pairwise ?_ other.pairwise_sortedVersions
    metadata.pairwise_sortedVersions (sorted.trans metadata.sortedVersions_perm.symm)
  intro left right leftSorted rightSorted front back
  exact eq_of_canonicalCompare valid (sorted.mem_iff.mp leftSorted)
    (mem_sortedVersions.mp rightSorted) (KeyVersion.canonicalCompare_antisymm front back)

end Valid

end Metadata

end VersionedKeys
