import VersionedKeys.Proofs.KeySource.Queries

/-!
# Asking for the password

A locked key set asks for its password when the first store is found that it is needed for, and
never again: `KeySource.password_asked_once`.
-/

namespace VersionedKeys.KeySource

/-- Something is asked for that takes the password: the data of a version that is a store. -/
def NeedsPassword (inner : KeySource) (query : Query) : Prop :=
  ∃ number store, query = .keyData number ∧ inner.Seals number store

theorem LooksLike.seals_iff {left right : KeySource} (alike : left.LooksLike right)
    {number : UInt32} {store : PasswordStore} :
    left.Seals number store ↔ right.Seals number store := by
  simp only [Seals, alike.metadata, alike.keyData]

theorem LooksLike.needsPassword_iff {left right : KeySource} (alike : left.LooksLike right)
    {query : Query} : left.NeedsPassword query ↔ right.NeedsPassword query := by
  simp only [NeedsPassword, alike.seals_iff]

theorem ask_keyData_of_seals {inner : KeySource} {number : UInt32} {store : PasswordStore}
    (seals : inner.Seals number store) (lock : PasswordLock) :
    ((locked inner lock).ask (.keyData number)).1 = .keyData (store.decrypt lock.unlock.1) := by
  obtain ⟨after, read, -⟩ := exists_keyData_locked inner lock number
  obtain ⟨encrypted, data, found, decoded⟩ := seals
  rw [ask, read, found]
  simp only [Outcome.ok_bind, encrypted, if_true, decoded, Prod.map_fst]

/-- What one query does to the lock. -/
theorem exists_ask_locked (inner : KeySource) (lock : PasswordLock) (query : Query) :
    ∃ innerAfter after, ((locked inner lock).ask query).2 = locked innerAfter after ∧
      innerAfter.LooksLike inner ∧
      (inner.NeedsPassword query → after = lock.unlock.2) ∧
      (¬ inner.NeedsPassword query → after = lock) := by
  cases query with
  | metadata => exact ⟨inner, lock, rfl, .refl _, by simp [NeedsPassword], fun _ => rfl⟩
  | keyData number =>
      have needs : inner.NeedsPassword (.keyData number) ↔ ∃ store, inner.Seals number store := by
        simp [NeedsPassword]
      obtain ⟨after, read, sealed, unsealed⟩ := exists_keyData_locked inner lock number
      rw [ask, read, needs]
      exact ⟨_, after, rfl, inner.looksLike_keyData number, sealed, unsealed⟩

/-- What any number of queries do to the lock: as much as one of them that needs the password,
if there is one. -/
theorem exists_askAll_locked (inner : KeySource) (lock : PasswordLock) (queries : List Query) :
    ∃ innerAfter after, ((locked inner lock).askAll queries).2 = locked innerAfter after ∧
      ((∃ query ∈ queries, inner.NeedsPassword query) → after = lock.unlock.2) ∧
      ((¬ ∃ query ∈ queries, inner.NeedsPassword query) → after = lock) := by
  induction queries generalizing inner lock with
  | nil => exact ⟨inner, lock, rfl, by simp, fun _ => rfl⟩
  | cons query queries inductionHypothesis =>
      obtain ⟨middle, middleLock, asked, alike, needed, unneeded⟩ :=
        exists_ask_locked inner lock query
      obtain ⟨innerAfter, after, askedAll, laterNeeded, laterUnneeded⟩ :=
        inductionHypothesis middle middleLock
      simp only [alike.needsPassword_iff] at laterNeeded laterUnneeded
      refine ⟨innerAfter, after, by simp only [askAll, asked, askedAll], ?_⟩
      simp only [List.mem_cons, exists_eq_or_imp]
      by_cases first : inner.NeedsPassword query
      -- The lock has the password from here on, and opening it again leaves it as it is.
      · rw [needed first] at laterNeeded laterUnneeded
        refine ⟨fun _ => ?_, fun none => absurd (.inl first) none⟩
        by_cases later : ∃ query ∈ queries, inner.NeedsPassword query
        · rw [laterNeeded later, lock.unlock_again]
        · exact laterUnneeded later
      · rw [unneeded first] at laterNeeded laterUnneeded
        exact ⟨fun needs => laterNeeded (needs.resolve_left first),
          fun none => laterUnneeded fun later => none (.inr later)⟩

/-- However a key set is locked and whatever it is asked for, the password is asked for at most
once, and exactly if the data of some version that is read is found in a set that is marked
as encrypted and is a store.  Every such version is decrypted with the first answer, and
every answer is the one that the query alone would get. -/
theorem password_asked_once (inner : KeySource) (prompt : Nat → String) (queries : List Query) :
    let start := locked inner { prompt }
    (∃ innerAfter after, (start.askAll queries).2 = locked innerAfter after ∧
      after.prompts ≤ 1 ∧
      (after.prompts = 1 ↔
        ∃ number store, Query.keyData number ∈ queries ∧ inner.Seals number store)) ∧
    (start.askAll queries).1 = queries.map (fun query => (start.ask query).1) ∧
    ∀ number store, inner.Seals number store →
      (start.ask (.keyData number)).1 = .keyData (store.decrypt (prompt 0)) := by
  intro start
  refine ⟨?_, start.answers_eq_map queries,
    fun number store seals => ask_keyData_of_seals seals _⟩
  obtain ⟨innerAfter, after, asked, needed, unneeded⟩ :=
    exists_askAll_locked inner { prompt } queries
  have needs : (∃ query ∈ queries, inner.NeedsPassword query) ↔
      ∃ number store, Query.keyData number ∈ queries ∧ inner.Seals number store := by
    constructor
    · rintro ⟨query, membership, number, store, rfl, seals⟩
      exact ⟨number, store, membership, seals⟩
    · rintro ⟨number, store, membership, seals⟩
      exact ⟨_, membership, number, store, rfl, seals⟩
  refine ⟨innerAfter, after, asked, ?_⟩
  rw [← needs]
  by_cases asksFor : ∃ query ∈ queries, inner.NeedsPassword query
  · have once : after.prompts = 1 := by
      rw [needed asksFor]
      rfl
    exact ⟨by omega, fun _ => asksFor, fun _ => once⟩
  · have never : after.prompts = 0 := by rw [unneeded asksFor]
    exact ⟨by omega, fun once => by omega, fun asks => absurd asks asksFor⟩

end VersionedKeys.KeySource
