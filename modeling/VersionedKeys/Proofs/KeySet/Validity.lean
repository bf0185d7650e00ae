import Mathlib.Data.List.Nodup
import VersionedKeys.Metadata.Validation

/-!
# Valid metadata

What validation checks, in terms of the numbers of the versions
(`validate_eq_ok_iff`), and how the next number relates to those before it
(`lt_of_nextNumber`).
-/

namespace VersionedKeys.Metadata

def numbers (metadata : Metadata) : List UInt32 :=
  metadata.versions.map (·.number)

theorem mem_numbers {metadata : Metadata} {number : UInt32} :
    number ∈ metadata.numbers ↔ ∃ version ∈ metadata.versions, version.number = number :=
  List.mem_map

theorem le_foldl_max (versions : List KeyVersion) (last : Nat) :
    last ≤ versions.foldl (fun last version => max last version.number.toNat) last ∧
      ∀ version ∈ versions, version.number.toNat ≤
        versions.foldl (fun last version => max last version.number.toNat) last := by
  induction versions generalizing last with
  | nil => simp
  | cons version versions inductionHypothesis =>
      obtain ⟨seed, rest⟩ := inductionHypothesis (max last version.number.toNat)
      rw [List.foldl_cons]
      refine ⟨by omega, ?_⟩
      intro other membership
      rcases List.mem_cons.mp membership with rfl | later
      · omega
      · exact rest other later

theorem foldl_max_le {versions : List KeyVersion} {last bound : Nat} (small : last ≤ bound)
    (bounded : ∀ version ∈ versions, version.number.toNat ≤ bound) :
    versions.foldl (fun last version => max last version.number.toNat) last ≤ bound := by
  induction versions generalizing last with
  | nil => exact small
  | cons version versions inductionHypothesis =>
      refine inductionHypothesis (Nat.max_le.mpr ⟨small, bounded version List.mem_cons_self⟩) ?_
      intro other later
      exact bounded other (List.mem_cons_of_mem _ later)

theorem le_lastNumber {metadata : Metadata} {number : UInt32}
    (listed : number ∈ metadata.numbers) : number.toNat ≤ metadata.lastNumber := by
  obtain ⟨version, membership, rfl⟩ := mem_numbers.mp listed
  exact (le_foldl_max metadata.versions 0).2 version membership

theorem lastNumber_le_iff {metadata : Metadata} {bound : Nat} :
    metadata.lastNumber ≤ bound ↔ ∀ number ∈ metadata.numbers, number.toNat ≤ bound := by
  constructor
  · intro last number listed
    exact Nat.le_trans (le_lastNumber listed) last
  · intro bounded
    refine foldl_max_le (Nat.zero_le bound) ?_
    intro version listed
    exact bounded _ (mem_numbers.mpr ⟨version, listed, rfl⟩)

theorem nextNumber_eq_ok_iff {metadata : Metadata} {next : UInt32} :
    metadata.nextNumber = .ok next ↔ next.toNat = metadata.lastNumber + 1 := by
  have bound : next.toNat < UInt32.size := next.toNat_lt
  rw [nextNumber]
  split
  · next fits =>
      rw [Except.ok.injEq, ← UInt32.toNat_inj, UInt32.toNat_ofNat_of_lt' fits]
      exact eq_comm
  · next exhausted =>
      constructor
      · intro refused
        cases refused
      · intro last
        omega

theorem lt_of_nextNumber {metadata : Metadata} {next number : UInt32}
    (found : metadata.nextNumber = .ok next) (listed : number ∈ metadata.numbers) :
    number < next := by
  have last := nextNumber_eq_ok_iff.mp found
  have bound := le_lastNumber listed
  rw [UInt32.lt_iff_toNat_lt]
  omega

theorem checkNumbers_eq_ok_iff {seen : List UInt32} {versions : List KeyVersion} :
    checkNumbers seen versions = .ok () ↔
      (∀ version ∈ versions, version.number ≠ 0 ∧ version.number ∉ seen) ∧
        (versions.map (·.number)).Nodup := by
  induction versions generalizing seen with
  | nil => simp [checkNumbers]
  | cons version versions inductionHypothesis =>
      rw [checkNumbers]
      by_cases zero : version.number = 0
      · simp [zero]
      · by_cases known : version.number ∈ seen
        · simp [zero, known]
        · rw [if_neg zero, if_neg (by simpa using known), inductionHypothesis]
          simp only [List.mem_cons, not_or, List.map_cons, List.nodup_cons, List.mem_map]
          grind

/-- Valid metadata is of a type that suits its purpose, has at most one primary
version, and lists numbers that start at one and differ. -/
theorem validate_eq_ok_iff {metadata : Metadata} :
    metadata.validate = .ok () ↔
      metadata.keyType.supports metadata.purpose = true ∧
        metadata.versions.countP (fun version => version.status == .primary) ≤ 1 ∧
        0 ∉ metadata.numbers ∧ metadata.numbers.Nodup := by
  rw [validate]
  by_cases suited : metadata.keyType.supports metadata.purpose = true
  · by_cases several :
        1 < metadata.versions.countP (fun version => version.status == .primary)
    · rw [if_neg (by simp [suited]), if_pos several]
      constructor
      · intro refused
        cases refused
      · rintro ⟨-, single, -⟩
        omega
    · rw [if_neg (by simp [suited]), if_neg several, checkNumbers_eq_ok_iff]
      simp [suited, Nat.le_of_not_lt several, numbers]
  · simp [suited]

section Valid

variable {metadata : Metadata} (valid : metadata.validate = .ok ())

include valid

theorem eq_of_number {left right : KeyVersion} (leftListed : left ∈ metadata.versions)
    (rightListed : right ∈ metadata.versions) (same : left.number = right.number) :
    left = right :=
  List.inj_on_of_nodup_map (validate_eq_ok_iff.mp valid).2.2.2 leftListed rightListed same

theorem eq_of_primary {left right : KeyVersion} (leftListed : left ∈ metadata.versions)
    (rightListed : right ∈ metadata.versions) (leftPrimary : left.status = .primary)
    (rightPrimary : right.status = .primary) : left = right := by
  have single := (validate_eq_ok_iff.mp valid).2.1
  have leftKept : left ∈ metadata.versions.filter fun version => version.status == .primary := by
    simp [leftListed, leftPrimary]
  have rightKept : right ∈ metadata.versions.filter fun version => version.status == .primary := by
    simp [rightListed, rightPrimary]
  rw [List.countP_eq_length_filter] at single
  rcases kept : metadata.versions.filter fun version => version.status == .primary with
    _ | ⟨only, _ | ⟨second, others⟩⟩
  · simp [kept] at leftKept
  · rw [kept, List.mem_singleton] at leftKept rightKept
    rw [leftKept, rightKept]
  · simp [kept] at single

theorem version?_eq_some_of_mem {version : KeyVersion} (listed : version ∈ metadata.versions) :
    metadata.version? version.number = some version := by
  cases found : metadata.version? version.number with
  | none =>
      rw [version?, List.find?_eq_none] at found
      simpa using found version listed
  | some other =>
      have same : other.number = version.number := by simpa using List.find?_some found
      rw [eq_of_number valid (List.mem_of_find?_eq_some found) listed same]

end Valid

end VersionedKeys.Metadata
