import VersionedKeys.KeySource
import VersionedKeys.Proofs.Key.Reading
import VersionedKeys.Proofs.Metadata.Order

/-!
# Loaded key rings

A loaded ring holds the versions of its key set in canonical order, each with
the key that its data is read as: `KeySource.loads_of_loadRing`.  The primary
version comes first, so its key is the first candidate for its hash:
`candidates_of_primary`.
-/

namespace VersionedKeys

namespace KeyRing

/-- A ring is in canonical order if its versions are. -/
def Canonical (ring : KeyRing) : Prop :=
  ring.keys.Pairwise fun left right => left.1.canonicalCompare right.1 ≠ .gt

/-- The primary version of a ring in canonical order is its first. -/
theorem exists_keys_of_primary {ring : KeyRing} (canonical : ring.Canonical) {key : Key}
    (primary : ring.primary = .ok key) :
    ∃ version rest, ring.keys = (version, key) :: rest ∧ version.status = .primary := by
  rw [KeyRing.primary] at primary
  split at primary
  · next version found equality =>
      cases primary
      have membership := List.mem_of_find?_eq_some equality
      have status : version.status = .primary := by simpa using List.find?_some equality
      rw [Canonical] at canonical
      cases keys : ring.keys with
      | nil => simp [keys] at membership
      | cons entry rest =>
          rw [keys, List.pairwise_cons] at canonical
          have first : entry.1.status = .primary := by
            rcases List.mem_cons.mp (keys ▸ membership) with rfl | later
            · exact status
            · have order := KeyVersion.canonicalCompare_ne_gt_iff.mp (canonical.1 _ later)
              cases entryStatus : entry.1.status <;>
                simp [entryStatus, status, KeyStatus.rank] at order ⊢
          refine ⟨entry.1, rest, ?_, first⟩
          rw [keys, List.find?_cons_of_pos (by simp [first])] at equality
          cases equality
          rfl
  · cases primary

/-- The key for everything new is the first to be tried on what it made. -/
theorem candidates_of_primary {ring : KeyRing} (canonical : ring.Canonical) {key : Key}
    (primary : ring.primary = .ok key) : ∃ rest, ring.candidates key.hash = key :: rest := by
  obtain ⟨version, rest, keys, status⟩ := exists_keys_of_primary canonical primary
  have usable : ring.isUsable version = true := by simp [isUsable, status]
  exact ⟨_, by simp [candidates, keys, usable]; rfl⟩

theorem isUsable_eq_true_iff {ring : KeyRing} {version : KeyVersion} :
    ring.isUsable version = true ↔
      version.status = .primary ∨ version.status = .active ∨ ring.allowInactive = true := by
  cases status : version.status <;> simp [isUsable, status]

theorem mem_candidates {ring : KeyRing} {hash : KeyHash} {key : Key} :
    key ∈ ring.candidates hash ↔
      key.hash = hash ∧ ∃ version, (version, key) ∈ ring.keys ∧ ring.isUsable version = true := by
  simp only [candidates, List.mem_filter, List.mem_map, beq_iff_eq, Prod.exists,
    exists_eq_right]
  exact and_comm

end KeyRing

namespace KeySource

theorem readKeys_cons_eq_ok {keyType : KeyType} {version : KeyVersion}
    {versions : List KeyVersion} {source after : KeySource} {keys : List (KeyVersion × Key)}
    (found : readKeys keyType (version :: versions) source = (.ok keys, after)) :
    ∃ data middle key rest, source.keyData version.number = (.ok data, middle) ∧
      Key.read keyType data = .ok key ∧ readKeys keyType versions middle = (.ok rest, after) ∧
      keys = (version, key) :: rest := by
  rw [readKeys] at found
  split at found
  · cases found
  · next data middle dataFound =>
      split at found
      · cases found
      · next key keyRead =>
          generalize later : readKeys keyType versions middle = result at found
          obtain ⟨outcome, final⟩ := result
          simp only [Prod.mk.injEq, Outcome.map_eq_ok] at found
          obtain ⟨⟨rest, rfl, rfl⟩, rfl⟩ := found
          exact ⟨data, middle, key, rest, dataFound, keyRead, later, rfl⟩

theorem of_readKeys {keyType : KeyType} {versions : List KeyVersion} {source after : KeySource}
    {keys : List (KeyVersion × Key)}
    (found : readKeys keyType versions source = (.ok keys, after)) :
    keys.map (·.1) = versions ∧ ∀ entry ∈ keys, entry.2.keyType = keyType := by
  induction versions generalizing source keys with
  | nil =>
      cases found
      simp
  | cons version versions inductionHypothesis =>
      obtain ⟨data, middle, key, rest, -, keyRead, later, rfl⟩ := readKeys_cons_eq_ok found
      obtain ⟨restVersions, restTypes⟩ := inductionHypothesis later
      refine ⟨by simp [restVersions], ?_⟩
      intro entry membership
      rcases List.mem_cons.mp membership with rfl | membership
      · exact Key.keyType_of_read keyRead
      · exact restTypes entry membership

theorem of_readKeys_stored {keyType : KeyType} {versions : List KeyVersion} {keySet : KeySet}
    {after : KeySource} {keys : List (KeyVersion × Key)}
    (found : readKeys keyType versions (.stored keySet) = (.ok keys, after)) :
    ∀ entry ∈ keys, ∃ data, keySet.keyData entry.1.number = .ok data ∧
      Key.read keyType data = .ok entry.2 := by
  induction versions generalizing keys with
  | nil =>
      cases found
      simp
  | cons version versions inductionHypothesis =>
      obtain ⟨data, middle, key, rest, dataFound, keyRead, later, rfl⟩ := readKeys_cons_eq_ok found
      rw [keyData, Prod.mk.injEq] at dataFound
      obtain ⟨dataFound, rfl⟩ := dataFound
      intro entry membership
      rcases List.mem_cons.mp membership with rfl | membership
      · exact ⟨data, dataFound, keyRead⟩
      · exact inductionHypothesis later entry membership

theorem checkUse_eq_ok_iff {metadata : Metadata} {purposes : List KeyPurpose} :
    checkUse metadata purposes = .ok () ↔
      metadata.validate = .ok () ∧ purposes.contains metadata.purpose = true ∧
        metadata.encrypted = false := by
  rw [checkUse]
  cases metadata.validate with
  | error error => simp
  | ok valid =>
      cases purposes.contains metadata.purpose with
      | false => simp
      | true => cases metadata.encrypted <;> simp [pure, Except.pure]

/-- A ring that is loaded from a source for one of the purposes. -/
structure Loads (source : KeySource) (purposes : List KeyPurpose) (ring : KeyRing) : Prop where
  valid : source.metadata.validate = .ok ()
  purpose : purposes.contains source.metadata.purpose = true
  plain : source.metadata.encrypted = false
  versions : ring.keys.map (·.1) = source.metadata.sortedVersions
  keyTypes : ∀ entry ∈ ring.keys, entry.2.keyType = source.metadata.keyType
  keys : ∀ keySet, source = .stored keySet → ∀ entry ∈ ring.keys,
    ∃ data, keySet.keyData entry.1.number = .ok data ∧
      Key.read keySet.metadata.keyType data = .ok entry.2

theorem loads_of_loadRing {source : KeySource} {purposes : List KeyPurpose} {ring : KeyRing}
    (loaded : (source.loadRing purposes).1 = .ok ring) : source.Loads purposes ring := by
  unfold loadRing at loaded
  simp only at loaded
  split at loaded
  · cases loaded
  · next checked =>
      generalize read : readKeys source.metadata.keyType source.metadata.sortedVersions source =
        result at loaded
      obtain ⟨outcome, after⟩ := result
      obtain ⟨keys, rfl, rfl⟩ := Outcome.map_eq_ok.mp loaded
      obtain ⟨versions, keyTypes⟩ := of_readKeys read
      obtain ⟨valid, purpose, plain⟩ := checkUse_eq_ok_iff.mp checked
      refine ⟨valid, purpose, plain, versions, keyTypes, ?_⟩
      rintro keySet rfl
      exact of_readKeys_stored read

namespace Loads

variable {source : KeySource} {purposes : List KeyPurpose} {ring : KeyRing}
  (loads : source.Loads purposes ring)

include loads

theorem canonical : ring.Canonical := by
  have sorted := source.metadata.pairwise_sortedVersions
  rw [← loads.versions, List.pairwise_map] at sorted
  exact sorted

theorem allowing (allowInactive : Bool) : source.Loads purposes { ring with allowInactive } :=
  ⟨loads.valid, loads.purpose, loads.plain, loads.versions, loads.keyTypes, loads.keys⟩

theorem supports {entry : KeyVersion × Key} (membership : entry ∈ ring.keys) :
    entry.2.keyType.supports source.metadata.purpose = true := by
  have valid := loads.valid
  rw [Metadata.validate] at valid
  split at valid
  · cases valid
  · next supported =>
      rw [loads.keyTypes entry membership]
      simpa using supported

end Loads

end KeySource

end VersionedKeys
