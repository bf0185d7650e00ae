import VersionedKeys.Proofs.Key.Reading
import VersionedKeys.Proofs.KeyRing.Loading
import VersionedKeys.Proofs.KeySet.Invariant

/-!
# Opening key sets

Opening a key set reads the keys of its versions in their order, up to the first that is not one.
It succeeds exactly if the set is for one of some purposes, is not encrypted and holds keys only.
Other sets are refused with an error of key sets, unless what is not a key announces more than a
buffer can hold.  Then opening does not come back: `KeySource.opens_loadRing`.
-/

namespace VersionedKeys

open Outcome

namespace KeySet

/-- The data of a version is that of a key of the set's type. -/
def Readable (keySet : KeySet) (version : KeyVersion) : Prop :=
  ∃ data key, keySet.keyData version.number = .ok data ∧
    Key.read keySet.metadata.keyType data = .ok key

/-- A key set that is for one of some purposes, and not encrypted, with keys in it only. -/
structure Serves (keySet : KeySet) (purposes : List KeyPurpose) : Prop where
  purpose : keySet.metadata.purpose ∈ purposes
  plain : keySet.metadata.encrypted = false
  readable : ∀ version ∈ keySet.metadata.versions, keySet.Readable version

/-- The data of a version announces more than a buffer can hold. -/
def Excessive (keySet : KeySet) (version : KeyVersion) : Prop :=
  ∃ data, keySet.keyData version.number = .ok data ∧
    Cbor.Overflows keySet.metadata.keyType.partCount data

/-- One of some versions has excessive data, and those before it have keys. -/
def Exceeds (keySet : KeySet) (versions : List KeyVersion) : Prop :=
  ∃ before version after, versions = before ++ version :: after ∧
    (∀ earlier ∈ before, keySet.Readable earlier) ∧ keySet.Excessive version

/-- A key set that is for one of some purposes, and not encrypted, in which what comes after the
keys is excessive. -/
structure Overflows (keySet : KeySet) (purposes : List KeyPurpose) : Prop where
  purpose : keySet.metadata.purpose ∈ purposes
  plain : keySet.metadata.encrypted = false
  exceeds : keySet.Exceeds keySet.metadata.sortedVersions

/-- Opening a key set for some purposes succeeds exactly if it serves one of them, and comes back
unless its data is excessive. -/
structure Opens {Holder : Type} (keySet : KeySet) (purposes : List KeyPurpose)
    (outcome : Except Error Holder) : Prop where
  ok_iff : (∃ holder, outcome = .ok holder) ↔ keySet.Serves purposes
  stops_iff : outcome = .error (.stopped .capacityOverflow) ↔ keySet.Overflows purposes
  endings : RaisesOnly [.returned .invalidKeySet, .stopped .capacityOverflow] outcome

theorem Opens.map {Holder Other : Type} {keySet : KeySet} {purposes : List KeyPurpose}
    {outcome : Except Error Holder} (opens : keySet.Opens purposes outcome)
    (change : Holder → Other) : keySet.Opens purposes (outcome.map change) where
  ok_iff := by
    rw [← opens.ok_iff]
    cases outcome <;> simp
  stops_iff := by
    rw [← opens.stops_iff]
    cases outcome <;> simp
  endings := raisesOnly_map.mpr opens.endings

theorem exceeds_cons_iff {keySet : KeySet} {version : KeyVersion} {versions : List KeyVersion} :
    keySet.Exceeds (version :: versions) ↔
      keySet.Excessive version ∨ keySet.Readable version ∧ keySet.Exceeds versions := by
  constructor
  · rintro ⟨before, found, after, split, readable, excessive⟩
    cases before with
    | nil =>
        cases split
        exact .inl excessive
    | cons first before =>
        cases split
        rw [List.forall_mem_cons] at readable
        exact .inr ⟨readable.1, before, found, after, rfl, readable.2, excessive⟩
  · rintro (excessive | ⟨readable, before, found, after, rfl, others, excessive⟩)
    · exact ⟨[], version, versions, rfl, by simp, excessive⟩
    · exact ⟨version :: before, found, after, rfl, List.forall_mem_cons.mpr ⟨readable, others⟩,
        excessive⟩

end KeySet

namespace KeySource

variable {keySet : KeySet}

theorem raisesOnly_readKeys (keyType : KeyType) (versions : List KeyVersion) :
    RaisesOnly [.returned .invalidKeySet, .stopped .capacityOverflow]
      (readKeys keyType versions (.stored keySet)).1 := by
  induction versions with
  | nil => exact raisesOnly_ok _
  | cons version versions inductionHypothesis =>
      rw [readKeys, keyData]
      rcases keySet.keyData_eq_ok_or version.number with ⟨data, found⟩ | missing
      · rw [found]
        dsimp only
        cases read : Key.read keyType data with
        | error error =>
            refine raisesOnly_error.mpr ?_
            rcases error.handle_eq_or (.unreadableVersion version.number) with
              ⟨reason, rfl, kept⟩ | ⟨-, replaced⟩
            · obtain ⟨rfl, -⟩ := Key.read_eq_stopped_iff.mp read
              simp [Error.ending]
            · simp [replaced, Error.ending]
        | ok key => exact raisesOnly_map.mpr inductionHypothesis
      · simp [missing, Error.ending]

theorem exists_readKeys_iff {versions : List KeyVersion} :
    (∃ keys, (readKeys keySet.metadata.keyType versions (.stored keySet)).1 = .ok keys) ↔
      ∀ version ∈ versions, keySet.Readable version := by
  induction versions with
  | nil => simp [readKeys]
  | cons version versions inductionHypothesis =>
      rw [List.forall_mem_cons, ← inductionHypothesis, readKeys, keyData, KeySet.Readable]
      cases keySet.keyData version.number with
      | error error => simp
      | ok data =>
          simp only [Except.ok.injEq, exists_and_left, exists_eq_left']
          cases Key.read keySet.metadata.keyType data with
          | error error => simp
          | ok key => simp [map_eq_ok]

theorem readKeys_eq_stopped_iff {versions : List KeyVersion} :
    (readKeys keySet.metadata.keyType versions (.stored keySet)).1 =
        .error (.stopped .capacityOverflow) ↔ keySet.Exceeds versions := by
  induction versions with
  | nil => simp [readKeys, KeySet.Exceeds]
  | cons version versions inductionHypothesis =>
      rw [KeySet.exceeds_cons_iff, ← inductionHypothesis, readKeys, keyData, KeySet.Readable,
        KeySet.Excessive]
      rcases keySet.keyData_eq_ok_or version.number with ⟨data, found⟩ | missing
      · have stopped : Key.read keySet.metadata.keyType data =
            .error (.stopped .capacityOverflow) ↔
              Cbor.Overflows keySet.metadata.keyType.partCount data :=
          Key.read_eq_stopped_iff.trans (and_iff_right rfl)
        simp only [found, Except.ok.injEq, exists_and_left, exists_eq_left', ← stopped]
        cases Key.read keySet.metadata.keyType data with
        | error error => simp [Error.handle_eq_stopped_iff]
        | ok key => simp [map_eq_error_iff]
      · simp [missing]

theorem raisesOnly_checkUse {metadata : Metadata} (valid : metadata.validate = .ok ())
    (purposes : List KeyPurpose) :
    RaisesOnly [.returned .invalidKeySet] (checkUse metadata purposes) := by
  rw [checkUse, valid]
  cases purposes.contains metadata.purpose <;> cases metadata.encrypted <;>
    simp [Error.ending, pure, Except.pure]

theorem opens_loadRing (valid : keySet.metadata.validate = .ok ()) (purposes : List KeyPurpose) :
    keySet.Opens purposes (loadRing (.stored keySet) purposes).1 := by
  have readable :
      (∃ keys, (readKeys keySet.metadata.keyType keySet.metadata.sortedVersions
        (.stored keySet)).1 = .ok keys) ↔
        ∀ version ∈ keySet.metadata.versions, keySet.Readable version := by
    simp only [exists_readKeys_iff, Metadata.mem_sortedVersions]
  have refusal := raisesOnly_checkUse valid purposes
  rw [loadRing, metadata]
  cases checked : checkUse keySet.metadata purposes with
  | error error =>
      rw [checked, raisesOnly_error, List.mem_singleton] at refusal
      have unfit : ¬ (keySet.metadata.purpose ∈ purposes ∧ keySet.metadata.encrypted = false) := by
        rintro ⟨purpose, plain⟩
        cases checked.symm.trans (checkUse_eq_ok_iff.mpr
          ⟨valid, List.contains_iff_mem.mpr purpose, plain⟩)
      refine ⟨iff_of_false ?_ ?_, iff_of_false ?_ ?_, raisesOnly_error.mpr ?_⟩
      · rintro ⟨ring, ⟨⟩⟩
      · exact fun serves => unfit ⟨serves.purpose, serves.plain⟩
      · rintro ⟨⟩
        cases refusal
      · exact fun overflows => unfit ⟨overflows.purpose, overflows.plain⟩
      · exact refusal ▸ List.mem_cons_self
  | ok nothing =>
      obtain ⟨-, purpose, plain⟩ := checkUse_eq_ok_iff.mp checked
      have member := List.contains_iff_mem.mp purpose
      refine ⟨?_, ?_, raisesOnly_map.mpr (raisesOnly_readKeys _ _)⟩
      · simp only [map_eq_ok]
        constructor
        · rintro ⟨ring, keys, read, -⟩
          exact ⟨member, plain, readable.mp ⟨keys, read⟩⟩
        · intro serves
          obtain ⟨keys, read⟩ := readable.mpr serves.readable
          exact ⟨_, keys, read, rfl⟩
      · dsimp only
        rw [map_eq_error_iff, readKeys_eq_stopped_iff]
        exact ⟨fun exceeds => ⟨member, plain, exceeds⟩, fun overflows => overflows.exceeds⟩

end KeySource

end VersionedKeys
