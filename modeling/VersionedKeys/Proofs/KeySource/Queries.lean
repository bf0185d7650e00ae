import VersionedKeys.KeySource
import VersionedKeys.Proofs.Outcomes

/-!
# Reading key sets

A key set is read by asking for its metadata and for the data of versions.  Layers remember
passwords, but nothing that shows: what is read does not depend on what has been read before
(`KeySource.answers_eq_map`), so key sets that look alike load the same rings
(`KeySource.LooksLike.loadRing_eq`).
-/

namespace VersionedKeys

theorem PasswordLock.unlock_again (lock : PasswordLock) :
    lock.unlock.2.unlock = (lock.unlock.1, lock.unlock.2) := by
  cases remembered : lock.remembered <;> simp [unlock, remembered]

namespace KeySource

/-- What a key set is asked for. -/
inductive Query where
  | metadata
  | keyData (number : UInt32)
  deriving DecidableEq, Repr

/-- What a key set answers. -/
inductive Answer where
  | metadata (metadata : Metadata)
  | keyData (outcome : Except Error Bytes)

def ask (source : KeySource) : Query → Answer × KeySource
  | .metadata => (.metadata source.metadata, source)
  | .keyData number => (source.keyData number).map .keyData id

/-- Ask for one thing after the other. -/
def askAll (source : KeySource) : List Query → List Answer × KeySource
  | [] => ([], source)
  | query :: queries =>
      let (answer, source) := source.ask query
      let (answers, source) := askAll source queries
      (answer :: answers, source)

/-- Two key sets have the same metadata and the same data of all versions. -/
structure LooksLike (left right : KeySource) : Prop where
  metadata : left.metadata = right.metadata
  keyData : ∀ number, (left.keyData number).1 = (right.keyData number).1

theorem LooksLike.symm {left right : KeySource} (alike : left.LooksLike right) :
    right.LooksLike left :=
  ⟨alike.metadata.symm, fun number => (alike.keyData number).symm⟩

theorem LooksLike.trans {left middle right : KeySource} (alike : left.LooksLike middle)
    (next : middle.LooksLike right) : left.LooksLike right :=
  ⟨alike.metadata.trans next.metadata, fun number =>
    (alike.keyData number).trans (next.keyData number)⟩

theorem LooksLike.refl (source : KeySource) : source.LooksLike source :=
  ⟨rfl, fun _ => rfl⟩

@[simp]
theorem metadata_keyData (source : KeySource) (number : UInt32) :
    (source.keyData number).2.metadata = source.metadata := by
  induction source with
  | stored keySet => rfl
  | wrapped inner crypter inductionHypothesis =>
      rw [keyData]
      generalize inner.keyData number = result at inductionHypothesis
      obtain ⟨outcome, after⟩ := result
      cases outcome <;> simp only [metadata, inductionHypothesis]
  | locked inner lock inductionHypothesis =>
      rw [keyData]
      generalize inner.keyData number = result at inductionHypothesis
      obtain ⟨outcome, after⟩ := result
      cases outcome with
      | error error => simp only [metadata, inductionHypothesis]
      | ok data =>
          dsimp only
          split
          · split <;> simp only [metadata, inductionHypothesis]
          · simp only [metadata, inductionHypothesis]

theorem keyData_wrapped (inner : KeySource) (crypter : Crypter) (number : UInt32) :
    (wrapped inner crypter).keyData number =
      ((inner.keyData number).1 >>= fun data =>
        if inner.metadata.encrypted then Decrypts.decrypt crypter data else .ok data,
      wrapped (inner.keyData number).2 crypter) := by
  have same := inner.metadata_keyData number
  rw [keyData]
  generalize inner.keyData number = result at same ⊢
  obtain ⟨outcome, after⟩ := result
  cases outcome with
  | error error => rfl
  | ok data => rw [← same]; rfl

/-- The data of a version is found in a key set that is marked as encrypted, and is a store. -/
def Seals (source : KeySource) (number : UInt32) (store : PasswordStore) : Prop :=
  source.metadata.encrypted = true ∧
    ∃ data, (source.keyData number).1 = .ok data ∧ PasswordStore.ofBytes data = .ok store

/-- The password is asked for exactly if there is a store to be decrypted with it. -/
theorem exists_keyData_locked (inner : KeySource) (lock : PasswordLock) (number : UInt32) :
    ∃ after,
      (locked inner lock).keyData number =
        ((inner.keyData number).1 >>= fun data =>
          if inner.metadata.encrypted then
            PasswordStore.ofBytes data >>= fun store => store.decrypt lock.unlock.1
          else .ok data,
        locked (inner.keyData number).2 after) ∧
      ((∃ store, inner.Seals number store) → after = lock.unlock.2) ∧
      ((¬ ∃ store, inner.Seals number store) → after = lock) := by
  have same := inner.metadata_keyData number
  simp only [Seals]
  rw [keyData]
  generalize inner.keyData number = result at same ⊢
  obtain ⟨outcome, after⟩ := result
  cases outcome with
  | error error => exact ⟨lock, rfl, by simp, fun _ => rfl⟩
  | ok data =>
      simp only [same, Outcome.ok_bind, Except.ok.injEq, exists_eq_left']
      cases inner.metadata.encrypted with
      | false => exact ⟨lock, rfl, by simp, fun _ => rfl⟩
      | true =>
          cases decoded : PasswordStore.ofBytes data with
          | error error => exact ⟨lock, rfl, by simp, fun _ => rfl⟩
          | ok store => exact ⟨lock.unlock.2, rfl, fun _ => rfl, by simp⟩

namespace LooksLike

variable {left right : KeySource} (alike : left.LooksLike right)

include alike

theorem wrapped (crypter : Crypter) :
    (KeySource.wrapped left crypter).LooksLike (.wrapped right crypter) where
  metadata := by simp only [KeySource.metadata, alike.metadata]
  keyData number := by simp only [keyData_wrapped, alike.keyData, alike.metadata]

/-- It is the password that counts, not whether it has been asked for. -/
theorem locked {leftLock rightLock : PasswordLock}
    (same : leftLock.unlock.1 = rightLock.unlock.1) :
    (KeySource.locked left leftLock).LooksLike (.locked right rightLock) where
  metadata := by simp only [KeySource.metadata, alike.metadata]
  keyData number := by
    obtain ⟨leftAfter, leftData, -⟩ := exists_keyData_locked left leftLock number
    obtain ⟨rightAfter, rightData, -⟩ := exists_keyData_locked right rightLock number
    rw [leftData, rightData]
    simp only [alike.keyData, alike.metadata, same]

end LooksLike

/-- Reading a version changes nothing that shows. -/
theorem looksLike_keyData (source : KeySource) (number : UInt32) :
    (source.keyData number).2.LooksLike source := by
  induction source with
  | stored keySet => exact .refl _
  | wrapped inner crypter inductionHypothesis =>
      rw [keyData_wrapped]
      exact inductionHypothesis.wrapped crypter
  | locked inner lock inductionHypothesis =>
      obtain ⟨after, read, sealed, unsealed⟩ := exists_keyData_locked inner lock number
      rw [read]
      refine inductionHypothesis.locked ?_
      by_cases seals : ∃ store, inner.Seals number store
      · rw [sealed seals, lock.unlock_again]
      · rw [unsealed seals]

/-- Key sets with the same data of all versions are read to the same keys. -/
theorem readKeys_eq_of_keyData {left right : KeySource}
    (data : ∀ number, (left.keyData number).1 = (right.keyData number).1) (keyType : KeyType)
    (versions : List KeyVersion) :
    (readKeys keyType versions left).1 = (readKeys keyType versions right).1 := by
  induction versions generalizing left right with
  | nil => rfl
  | cons version versions inductionHypothesis =>
      -- The rest is read from what the key sets have become, which still looks alike.
      have later := inductionHypothesis fun number =>
        ((left.looksLike_keyData version.number).keyData number).trans
          ((data number).trans ((right.looksLike_keyData version.number).keyData number).symm)
      have same := data version.number
      simp only [readKeys]
      generalize left.keyData version.number = leftResult at later same ⊢
      generalize right.keyData version.number = rightResult at later same ⊢
      obtain ⟨outcome, leftAfter⟩ := leftResult
      obtain ⟨rightOutcome, rightAfter⟩ := rightResult
      cases same
      cases outcome with
      | error error => rfl
      | ok data =>
          dsimp only at later ⊢
          cases Key.read keyType data with
          | error error => rfl
          | ok key => exact congrArg (·.map ((version, key) :: ·)) later

theorem looksLike_ask (source : KeySource) (query : Query) :
    (source.ask query).2.LooksLike source := by
  cases query with
  | metadata => exact .refl _
  | keyData number => exact source.looksLike_keyData number

namespace LooksLike

variable {left right : KeySource}

theorem answer_eq (alike : left.LooksLike right) (query : Query) :
    (left.ask query).1 = (right.ask query).1 := by
  cases query with
  | metadata => exact congrArg Answer.metadata alike.metadata
  | keyData number => exact congrArg Answer.keyData (alike.keyData number)

theorem answers_eq_map (alike : left.LooksLike right) (queries : List Query) :
    (left.askAll queries).1 = queries.map fun query => (right.ask query).1 := by
  induction queries generalizing left with
  | nil => rfl
  | cons query queries inductionHypothesis =>
      rw [askAll, List.map_cons, ← alike.answer_eq query,
        ← inductionHypothesis ((left.looksLike_ask query).trans alike)]

/-- Key sets that look alike load the same rings. -/
theorem loadRing_eq (alike : left.LooksLike right) (purposes : List KeyPurpose) :
    (left.loadRing purposes).1 = (right.loadRing purposes).1 := by
  have same := readKeys_eq_of_keyData alike.keyData right.metadata.keyType
    right.metadata.sortedVersions
  simp only [loadRing, alike.metadata]
  cases checkUse right.metadata purposes with
  | error error => rfl
  | ok nothing => simp only [same]

end LooksLike

/-- What is read does not depend on what has been read before. -/
theorem answers_eq_map (source : KeySource) (queries : List Query) :
    (source.askAll queries).1 = queries.map fun query => (source.ask query).1 :=
  (LooksLike.refl source).answers_eq_map queries

end KeySource

end VersionedKeys
