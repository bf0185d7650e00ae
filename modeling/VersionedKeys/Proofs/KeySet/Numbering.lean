import VersionedKeys.Proofs.KeySet.Invariant

/-!
# The numbers of versions

A new version gets the number after the largest one listed, so its number is new
as long as the largest one stays.  The newest version may be removed like any
other, and then its number is given away again (`number_returns`).  The runs in
which that does not happen are exactly those after which all numbers are new,
however many versions are added (`neverReuses_iff_keepsNewest`).
-/

namespace VersionedKeys

namespace KeySet

theorem run_append (keySet : KeySet) (front back : List Operation) :
    keySet.run (front ++ back) = (keySet.run front).run back :=
  List.foldl_append

theorem nextNumber_of_apply {keySet : KeySet} {operation : Operation} {number : UInt32}
    (returned : (operation.apply keySet).1 = .ok (some number)) :
    keySet.metadata.nextNumber = .ok number ∧
      number ∈ (operation.apply keySet).2.metadata.numbers := by
  generalize outcome : operation.apply keySet = result at returned
  have effect := outcome ▸ effect_apply keySet operation
  cases effect with
  | failed => cases returned
  | added adds next =>
      cases returned
      refine ⟨next, ?_⟩
      rw [Metadata.numbers, List.map_append]
      exact List.mem_append_right _ (List.mem_singleton_self _)
  | restated known => cases returned
  | removed known unused => cases returned
  | encryptionSet empty => cases returned

/-- What an operation does to the largest number: it does not grow, or a new
version has the next one. -/
theorem lastNumber_apply (keySet : KeySet) (operation : Operation) :
    (operation.apply keySet).2.metadata.lastNumber ≤ keySet.metadata.lastNumber ∨
      ∃ number : UInt32, (operation.apply keySet).1 = .ok (some number) ∧
        (operation.apply keySet).2.metadata.lastNumber = number.toNat := by
  generalize outcome : operation.apply keySet = result
  have effect := outcome ▸ effect_apply keySet operation
  cases effect with
  | failed => exact .inl (Nat.le_refl _)
  | @added _ status number data adds next =>
      have last := Metadata.nextNumber_eq_ok_iff.mp next
      refine .inr ⟨number, rfl, Nat.le_antisymm ?_ (Metadata.le_lastNumber ?_)⟩
      · rw [Metadata.lastNumber_le_iff, Metadata.numbers, List.map_append, map_number_makeRoom]
        intro other listed
        rcases List.mem_append.mp listed with older | new
        · have bound := Metadata.le_lastNumber older
          omega
        · exact Nat.le_of_eq (congrArg UInt32.toNat (List.mem_singleton.mp new))
      · rw [Metadata.numbers, List.map_append]
        exact List.mem_append_right _ (List.mem_singleton_self _)
  | restated known =>
      refine .inl (Metadata.lastNumber_le_iff.mpr ?_)
      rw [Metadata.numbers, map_number_setStatus]
      exact fun _ => Metadata.le_lastNumber
  | removed known unused =>
      refine .inl (Metadata.lastNumber_le_iff.mpr ?_)
      intro other listed
      exact Metadata.le_lastNumber ((List.filter_sublist.map _).subset listed)
  | encryptionSet empty => exact .inl (Nat.le_refl _)

/-- No version that is added in a run has a number that was listed at an earlier
moment of it. -/
def NeverReuses (keySet : KeySet) (operations : List Operation) : Prop :=
  ∀ before operation after number, operations = before ++ operation :: after →
    (operation.apply (keySet.run before)).1 = .ok (some number) →
      ∀ moment, moment <+: before → number ∉ (keySet.run moment).metadata.numbers

/-- Every version that is removed in a run leaves a newer one behind. -/
def KeepsNewest (keySet : KeySet) (operations : List Operation) : Prop :=
  ∀ before number after, operations = before ++ .remove number :: after →
    ∀ added, ((Operation.remove number).apply (keySet.run before)).1 = .ok added →
      ∃ newer ∈ (keySet.run before).metadata.numbers, number < newer

section KeepsNewest

variable {keySet : KeySet} {front back : List Operation}

theorem KeepsNewest.of_append (keeps : keySet.KeepsNewest (front ++ back)) :
    keySet.KeepsNewest front ∧ (keySet.run front).KeepsNewest back := by
  constructor
  · rintro before number after rfl
    exact keeps before number (after ++ back) (by simp)
  · rintro before number after rfl added
    rw [← run_append]
    exact keeps (front ++ before) number after (by simp) added

theorem KeepsNewest.append (keeps : keySet.KeepsNewest front)
    (others : ∀ number, .remove number ∉ back) : keySet.KeepsNewest (front ++ back) := by
  intro before number after equality added removes
  rcases List.append_eq_append_iff.mp equality with ⟨middle, rfl, rest⟩ | ⟨middle, rfl, rest⟩
  · exact absurd (rest ▸ List.mem_append_right _ List.mem_cons_self) (others number)
  · cases middle with
    | nil =>
        rw [List.nil_append] at rest
        exact absurd (rest ▸ List.mem_cons_self) (others number)
    | cons operation middle =>
        obtain ⟨rfl, -⟩ := List.cons_eq_cons.mp rest
        exact keeps before number middle rfl added removes

end KeepsNewest

/-- The largest number does not get smaller as long as the newest version stays. -/
theorem lastNumber_le_apply {keySet : KeySet} {operation : Operation}
    (keeps : ∀ number, operation = .remove number →
      ∀ added, (operation.apply keySet).1 = .ok added →
        ∃ newer ∈ keySet.metadata.numbers, number < newer) :
    keySet.metadata.lastNumber ≤ (operation.apply keySet).2.metadata.lastNumber := by
  rw [Metadata.lastNumber_le_iff]
  intro other listed
  generalize outcome : operation.apply keySet = result at keeps
  have effect := outcome ▸ effect_apply keySet operation
  cases effect with
  | failed => exact Metadata.le_lastNumber listed
  | added adds next =>
      refine Metadata.le_lastNumber ?_
      rw [Metadata.numbers, List.map_append, map_number_makeRoom]
      exact List.mem_append_left _ listed
  | restated known =>
      refine Metadata.le_lastNumber ?_
      rw [Metadata.numbers, map_number_setStatus]
      exact listed
  | @removed number version known unused =>
      obtain ⟨newer, newerListed, larger⟩ := keeps number rfl none rfl
      have bound (kept : UInt32) (keptListed : kept ∈ keySet.metadata.numbers)
          (different : kept ≠ number) : kept.toNat ≤ Metadata.lastNumber { keySet.metadata with
            versions := keySet.metadata.versions.filter fun version =>
              version.number != number } := by
        obtain ⟨version, membership, rfl⟩ := Metadata.mem_numbers.mp keptListed
        exact Metadata.le_lastNumber
          (List.mem_map_of_mem (List.mem_filter.mpr ⟨membership, by simpa using different⟩))
      by_cases same : other = number
      · subst same
        have newerBound := bound newer newerListed (by grind)
        have below := UInt32.lt_iff_toNat_lt.mp larger
        exact Nat.le_trans (Nat.le_of_lt below) newerBound
      · exact bound other listed same
  | encryptionSet empty => exact Metadata.le_lastNumber listed

theorem KeepsNewest.lastNumber_le_run {keySet : KeySet} {operations : List Operation}
    (keeps : keySet.KeepsNewest operations) :
    keySet.metadata.lastNumber ≤ (keySet.run operations).metadata.lastNumber := by
  induction operations generalizing keySet with
  | nil => exact Nat.le_refl _
  | cons operation operations inductionHypothesis =>
      have split : keySet.KeepsNewest ([operation] ++ operations) := keeps
      calc
        keySet.metadata.lastNumber ≤ (operation.apply keySet).2.metadata.lastNumber := by
          apply lastNumber_le_apply
          rintro number rfl
          exact keeps [] number operations rfl
        _ ≤ ((operation.apply keySet).2.run operations).metadata.lastNumber :=
          inductionHypothesis split.of_append.2

theorem KeepsNewest.neverReuses {keySet : KeySet} {operations : List Operation}
    (keeps : keySet.KeepsNewest operations) : keySet.NeverReuses operations := by
  rintro before operation after number rfl returned moment ⟨between, rfl⟩ listed
  have later := keeps.of_append.1.of_append.2.lastNumber_le_run
  rw [← run_append] at later
  have last := Metadata.nextNumber_eq_ok_iff.mp (nextNumber_of_apply returned).1
  have bound := Metadata.le_lastNumber listed
  omega

/-- Numbers are given away one by one: a run that takes the largest number past
some number has given that number to a new version. -/
theorem exists_returned {keySet : KeySet} {operations : List Operation} {number : UInt32}
    (below : keySet.metadata.lastNumber < number.toNat)
    (reached : number.toNat ≤ (keySet.run operations).metadata.lastNumber) :
    ∃ before operation after, operations = before ++ operation :: after ∧
      (operation.apply (keySet.run before)).1 = .ok (some number) := by
  induction operations generalizing keySet with
  | nil => exact absurd reached (Nat.not_le_of_lt below)
  | cons operation operations inductionHypothesis =>
      by_cases still : (operation.apply keySet).2.metadata.lastNumber < number.toNat
      · obtain ⟨before, later, after, rfl, returned⟩ := inductionHypothesis still reached
        exact ⟨operation :: before, later, after, rfl, returned⟩
      · rcases lastNumber_apply keySet operation with smaller | ⟨added, returned, last⟩
        · omega
        · have next := Metadata.nextNumber_eq_ok_iff.mp (nextNumber_of_apply returned).1
          have same : added = number := UInt32.toNat_inj.mp (by omega)
          exact ⟨[], operation, operations, rfl, same ▸ returned⟩

theorem exists_lastNumber_run {keySet : KeySet} {bound : Nat} (fits : bound < UInt32.size)
    (status : KeyStatus) (data : Bytes) :
    ∃ count, bound ≤
      (keySet.run (List.replicate count (.addData status data))).metadata.lastNumber := by
  induction bound with
  | zero => exact ⟨0, Nat.zero_le _⟩
  | succ bound inductionHypothesis =>
      obtain ⟨count, reached⟩ := inductionHypothesis (by omega)
      by_cases beyond : bound + 1 ≤
          (keySet.run (List.replicate count (.addData status data))).metadata.lastNumber
      · exact ⟨count, beyond⟩
      · have next : (keySet.run (List.replicate count (.addData status data))).metadata.nextNumber =
            .ok (UInt32.ofNat (bound + 1)) := by
          rw [Metadata.nextNumber_eq_ok_iff, UInt32.toNat_ofNat_of_lt' fits]
          omega
        refine ⟨count + 1, ?_⟩
        have returned : ((Operation.addData status data).apply
            (keySet.run (List.replicate count (.addData status data)))).1 =
              .ok (some (UInt32.ofNat (bound + 1))) := by
          simp [Operation.apply, addData, next]
        have last := Metadata.le_lastNumber (nextNumber_of_apply returned).2
        rw [UInt32.toNat_ofNat_of_lt' fits] at last
        rw [List.replicate_succ', run_append]
        exact last

/-- Without its newest version a key set has smaller numbers only. -/
theorem lastNumber_remove_lt {keySet : KeySet} (sound : keySet.Sound) {number : UInt32}
    (newest : ∀ listed ∈ keySet.metadata.numbers, listed ≤ number) {added : Option UInt32}
    (removes : ((Operation.remove number).apply keySet).1 = .ok added) :
    number ∈ keySet.metadata.numbers ∧
      ((Operation.remove number).apply keySet).2.metadata.lastNumber < number.toNat := by
  generalize outcome : (Operation.remove number).apply keySet = result at removes
  have effect := outcome ▸ effect_apply keySet (.remove number)
  cases effect with
  | failed => cases removes
  | added adds next => cases adds
  | @removed _ version known unused =>
      have listed : number ∈ keySet.metadata.numbers :=
        Metadata.mem_numbers.mpr
          ⟨version, List.mem_of_find?_eq_some known, by simpa using List.find?_some known⟩
      have positive : number.toNat ≠ 0 := by
        intro zero
        obtain rfl : number = 0 := UInt32.toNat_inj.mp zero
        exact (Metadata.validate_eq_ok_iff.mp sound.valid).2.2.1 listed
      refine ⟨listed, Nat.lt_of_le_pred (Nat.pos_of_ne_zero positive) ?_⟩
      rw [Metadata.lastNumber_le_iff]
      intro other otherListed
      obtain ⟨kept, membership, rfl⟩ := Metadata.mem_numbers.mp otherListed
      obtain ⟨older, different⟩ := List.mem_filter.mp membership
      have bound := UInt32.le_iff_toNat_le.mp
        (newest _ (Metadata.mem_numbers.mpr ⟨kept, older, rfl⟩))
      have apart : kept.number.toNat ≠ number.toNat := by
        intro same
        simp [UInt32.toNat_inj.mp same] at different
      exact Nat.le_pred_of_lt (by omega)

/-- Once the newest version has been removed, some addition gives its number
again, whatever is done in between. -/
theorem number_returns {keySet : KeySet} (sound : keySet.Sound) {number : UInt32}
    (newest : ∀ listed ∈ keySet.metadata.numbers, listed ≤ number) {added : Option UInt32}
    (removes : ((Operation.remove number).apply keySet).1 = .ok added)
    (operations : List Operation) (status : KeyStatus) (data : Bytes) :
    ∃ count before operation after,
      operations ++ List.replicate count (.addData status data) = before ++ operation :: after ∧
        (operation.apply (((Operation.remove number).apply keySet).2.run before)).1 =
          .ok (some number) := by
  obtain ⟨-, below⟩ := lastNumber_remove_lt sound newest removes
  obtain ⟨count, reached⟩ : ∃ count, number.toNat ≤
      ((((Operation.remove number).apply keySet).2.run operations).run
        (List.replicate count (.addData status data))).metadata.lastNumber :=
    exists_lastNumber_run number.toNat_lt status data
  rw [← run_append] at reached
  obtain ⟨before, operation, after, equality, returned⟩ := exists_returned below reached
  exact ⟨count, before, operation, after, equality, returned⟩

/-- The numbers of added versions are new, in a run and however many versions are
added after it, exactly if the run never removes the newest version. -/
theorem neverReuses_iff_keepsNewest {start : KeySet} (reachable : Reachable start)
    (operations : List Operation) (status : KeyStatus) (data : Bytes) :
    (∀ count, start.NeverReuses (operations ++ List.replicate count (.addData status data))) ↔
      start.KeepsNewest operations := by
  constructor
  · rintro unused before number after rfl added removes
    by_contra none
    have newest (listed : UInt32) (membership : listed ∈ (start.run before).metadata.numbers) :
        listed ≤ number := by
      by_contra larger
      exact none ⟨listed, membership, UInt32.not_le.mp larger⟩
    have sound := (reachable.run before).sound
    obtain ⟨count, front, operation, back, equality, returned⟩ :=
      number_returns sound newest removes after status data
    refine unused count (before ++ .remove number :: front) operation back number ?_ ?_ before
      (List.prefix_append _ _) (lastNumber_remove_lt sound newest removes).1
    · simp [equality]
    · rw [run_append]
      exact returned
  · intro keeps count
    refine (keeps.append ?_).neverReuses
    intro number membership
    cases List.eq_of_mem_replicate membership

/-- The number of an older version, of which a newer one is left, stays unused. -/
theorem neverReuses_iff_keepsNewest_sample :
    Reachable Sample.unused ∧
      ∀ count, Sample.unused.NeverReuses
        ([.addData .inactive [1], .addData .primary [2], .remove 1] ++
          List.replicate count (.addData .active [3])) := by
  have reachable : Reachable Sample.unused := .made Sample.made_unused
  refine ⟨reachable, (neverReuses_iff_keepsNewest reachable _ .active [3]).mpr ?_⟩
  intro before number after equality added _
  obtain ⟨rfl, rfl⟩ : before = [.addData .inactive [1], .addData .primary [2]] ∧ number = 1 := by
    rcases before with _ | ⟨first, _ | ⟨second, _ | ⟨third, before⟩⟩⟩
    · simp at equality
    · simp at equality
    · simp only [List.cons_append, List.nil_append, List.cons.injEq,
        Operation.remove.injEq] at equality
      obtain ⟨rfl, rfl, rfl, -⟩ := equality
      exact ⟨rfl, rfl⟩
    · simp at equality
  exact ⟨2, by decide, by decide⟩

/-- The number of the newest version is given away again after its removal. -/
theorem newest_number_reused :
    Made Sample.unused ∧
      ¬ Sample.unused.NeverReuses
        [.addData .inactive [1], .remove 1, .addData .active [2]] := by
  refine ⟨Sample.made_unused, ?_⟩
  intro unused
  have returned : ((Operation.addData .active [2]).apply
      (Sample.unused.run [.addData .inactive [1], .remove 1])).1 = .ok (some 1) := rfl
  exact unused [.addData .inactive [1], .remove 1] (.addData .active [2]) [] 1 rfl returned
    [.addData .inactive [1]] ⟨[.remove 1], rfl⟩ (by decide)

end KeySet

end VersionedKeys
