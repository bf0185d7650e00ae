import VersionedKeys.Proofs.KeySet.Frame

/-!
# Data without a version

Operations add data with its version and remove both together, so they leave no data behind
(`keyData_apply_of_unlisted`).  The parts that a key set is restored from may hold data for
numbers that are not listed, and that stays until a version takes the number.  A key set that
has been empty never has such data, and one that has been restored exactly if every number in
its parts has been listed at some moment: `no_data_without_version_iff`.
-/

namespace VersionedKeys

namespace KeySet

/-- There is data for listed versions only. -/
def Tidy (keySet : KeySet) : Prop :=
  ∀ number, number ∉ keySet.metadata.numbers →
    ∃ error, keySet.keyData number = .error error ∧ error.kind = .invalidKeySet

/-- A number is listed before a run of operations, or after some of them. -/
def EverLists (keySet : KeySet) (operations : List Operation) (number : UInt32) : Prop :=
  ∃ moment, moment <+: operations ∧ number ∈ (keySet.run moment).metadata.numbers

theorem tidy_iff {keySet : KeySet} :
    keySet.Tidy ↔ ∀ number data, keySet.keyData number = .ok data →
      number ∈ keySet.metadata.numbers := by
  constructor
  · intro tidy number data found
    by_contra unlisted
    obtain ⟨error, missing, -⟩ := tidy number unlisted
    cases found.symm.trans missing
  · intro listed number unlisted
    rcases keySet.keyData_eq_ok_or number with ⟨data, found⟩ | missing
    · exact absurd (listed number data found) unlisted
    · exact ⟨_, missing, rfl⟩

/-- A number that is not listed after an operation has lost its version and its data, or it
had no version before and its data is what it was. -/
theorem keyData_apply_of_unlisted (keySet : KeySet) (operation : Operation) {number : UInt32}
    (unlisted : number ∉ (operation.apply keySet).2.metadata.numbers) :
    (number ∈ keySet.metadata.numbers ∧
      (operation.apply keySet).2.keyData number = .error (.keySet (.unknownVersion number))) ∨
    (number ∉ keySet.metadata.numbers ∧
      (operation.apply keySet).2.keyData number = keySet.keyData number) := by
  generalize outcome : operation.apply keySet = result at unlisted
  have effect := outcome ▸ effect_apply keySet operation
  cases effect with
  | failed => exact .inr ⟨unlisted, rfl⟩
  | added adds next =>
      rw [Metadata.numbers, List.map_append, map_number_makeRoom, List.mem_append,
        not_or] at unlisted
      exact .inr ⟨unlisted.1, keyData_cons_of_ne (by simpa using unlisted.2) _ _⟩
  | restated known =>
      rw [Metadata.numbers, map_number_setStatus] at unlisted
      exact .inr ⟨unlisted, rfl⟩
  | @removed removed version known unused =>
      by_cases same : number = removed
      · subst same
        exact .inl ⟨Metadata.mem_numbers_iff_version?.mpr ⟨version, known⟩, keyData_filter_self _⟩
      · refine .inr ⟨?_, keyData_filter_of_ne same _⟩
        intro listed
        obtain ⟨kept, membership, rfl⟩ := Metadata.mem_numbers.mp listed
        exact unlisted (List.mem_map_of_mem (List.mem_filter.mpr ⟨membership, by simpa using same⟩))
  | encryptionSet empty => exact .inr ⟨unlisted, rfl⟩

section Runs

variable {keySet : KeySet} {number : UInt32}

theorem EverLists.of_run {operations : List Operation}
    (listed : number ∈ (keySet.run operations).metadata.numbers) :
    keySet.EverLists operations number :=
  ⟨operations, List.prefix_rfl, listed⟩

theorem everLists_cons {operation : Operation} {operations : List Operation} :
    keySet.EverLists (operation :: operations) number ↔
      number ∈ keySet.metadata.numbers ∨
        (operation.apply keySet).2.EverLists operations number := by
  constructor
  · rintro ⟨moment, before, listed⟩
    rcases List.prefix_cons_iff.mp before with rfl | ⟨later, rfl, rest⟩
    · exact .inl listed
    · exact .inr ⟨later, rest, listed⟩
  · rintro (listed | ⟨moment, before, listed⟩)
    · exact ⟨[], List.nil_prefix, listed⟩
    · exact ⟨operation :: moment, (List.prefix_cons_inj operation).mpr before, listed⟩

/-- What is left for a number without a version was there before the run, and no version has
had the number since. -/
theorem keyData_run_of_unlisted {operations : List Operation}
    (unlisted : number ∉ (keySet.run operations).metadata.numbers) {data : Bytes} :
    (keySet.run operations).keyData number = .ok data ↔
      keySet.keyData number = .ok data ∧ ¬ keySet.EverLists operations number := by
  induction operations generalizing keySet with
  | nil =>
      have never : ¬ keySet.EverLists [] number := by
        rintro ⟨moment, before, listed⟩
        rw [List.prefix_nil.mp before] at listed
        exact unlisted listed
      exact ⟨fun found => ⟨found, never⟩, And.left⟩
  | cons operation operations inductionHypothesis =>
      have later : ((operation.apply keySet).2.run operations).keyData number = .ok data ↔
          (operation.apply keySet).2.keyData number = .ok data ∧
            ¬ (operation.apply keySet).2.EverLists operations number :=
        inductionHypothesis unlisted
      refine later.trans ?_
      rw [everLists_cons, not_or]
      -- A number that is listed right after the operation counts as listed whatever was before.
      by_cases listed : number ∈ (operation.apply keySet).2.metadata.numbers
      · have lists : (operation.apply keySet).2.EverLists operations number :=
          ⟨[], List.nil_prefix, listed⟩
        simp [lists]
      · rcases keySet.keyData_apply_of_unlisted operation listed with
          ⟨before, gone⟩ | ⟨before, same⟩
        · simp [gone, before]
        · simp [same, before]

theorem tidy_run_iff {operations : List Operation} :
    (keySet.run operations).Tidy ↔
      ∀ number data, keySet.keyData number = .ok data → keySet.EverLists operations number := by
  rw [tidy_iff]
  constructor
  · intro listed number data found
    by_contra never
    have unlisted : number ∉ (keySet.run operations).metadata.numbers := fun last =>
      never (.of_run last)
    exact unlisted (listed number data ((keyData_run_of_unlisted unlisted).mpr ⟨found, never⟩))
  · intro lists number data found
    by_contra unlisted
    obtain ⟨before, never⟩ := (keyData_run_of_unlisted unlisted).mp found
    exact never (lists number data before)

end Runs

theorem keyData_of_create {name : String} {purpose : KeyPurpose} {keyType : KeyType}
    {keySet : KeySet} (created : create name purpose keyType = .ok keySet) (number : UInt32) :
    keySet.keyData number = .error (.keySet (.unknownVersion number)) := by
  obtain ⟨⟨⟩, -, equality⟩ := Outcome.bind_eq_ok.mp created
  cases equality
  rfl

theorem eq_of_ofParts {metadata : Metadata} {data : List (UInt32 × Bytes)} {keySet : KeySet}
    (restored : ofParts metadata data = .ok keySet) : keySet = ⟨metadata, data.reverse⟩ := by
  obtain ⟨⟨⟩, -, rest⟩ := Outcome.bind_eq_ok.mp restored
  dsimp only at rest
  split at rest
  · cases rest
  · cases rest
    rfl

theorem exists_keyData_of_ofParts {metadata : Metadata} {data : List (UInt32 × Bytes)}
    {keySet : KeySet} (restored : ofParts metadata data = .ok keySet) {number : UInt32} :
    (∃ found, keySet.keyData number = .ok found) ↔ ∃ entry ∈ data, entry.1 = number := by
  rw [eq_of_ofParts restored]
  simp only [keyData_eq_ok_iff, ← Option.isSome_iff_exists, dataFor?, Option.isSome_map,
    List.find?_isSome, List.mem_reverse, beq_iff_eq]

/-- A key set that has been empty holds no data without a version, whatever is done to it.
One that has been restored from its parts holds none exactly if all numbers in the parts have been
listed by then: what is left over is found under its number until a version gets it. -/
theorem no_data_without_version_iff (keySet : KeySet) (operations : List Operation) :
    (∀ name purpose keyType, create name purpose keyType = .ok keySet →
      (keySet.run operations).Tidy) ∧
    ∀ metadata data, ofParts metadata data = .ok keySet →
      ((keySet.run operations).Tidy ↔ ∀ entry ∈ data, keySet.EverLists operations entry.1) ∧
      ∀ number, number ∉ (keySet.run operations).metadata.numbers →
        ∀ found, (keySet.run operations).keyData number = .ok found ↔
          keySet.keyData number = .ok found ∧ ¬ keySet.EverLists operations number := by
  constructor
  · intro name purpose keyType created
    refine tidy_run_iff.mpr ?_
    intro number data found
    cases found.symm.trans (keyData_of_create created number)
  · intro metadata data restored
    refine ⟨tidy_run_iff.trans ?_, fun number unlisted found => keyData_run_of_unlisted unlisted⟩
    constructor
    · intro lists entry membership
      obtain ⟨found, stored⟩ := (exists_keyData_of_ofParts restored).mpr ⟨entry, membership, rfl⟩
      exact lists entry.1 found stored
    · intro lists number found stored
      obtain ⟨entry, membership, rfl⟩ := (exists_keyData_of_ofParts restored).mp ⟨found, stored⟩
      exact lists entry membership

end KeySet

namespace Sample

/-- Metadata with one version that is not in use. -/
def listedOnce : Metadata :=
  { name := "sample", purpose := .decryptAndEncrypt, keyType := .aes,
    versions := [⟨1, .inactive, false⟩] }

/-- A key set with data for a number that is not listed. -/
def leftover : KeySet := ⟨listedOnce, [(2, [9]), (1, [7])]⟩

theorem ofParts_leftover : KeySet.ofParts listedOnce [(1, [7]), (2, [9])] = .ok leftover := rfl

end Sample

/-- Left over data goes with the version that gets its number. -/
theorem KeySet.no_data_without_version_iff_sample :
    ofParts Sample.listedOnce [(1, [7]), (2, [9])] = .ok Sample.leftover ∧
      ¬ (Sample.leftover.run [.remove 1]).Tidy ∧
      (Sample.leftover.run [.addData .inactive [3], .remove 2]).Tidy := by
  have leaves := fun operations =>
    (no_data_without_version_iff Sample.leftover operations).2 _ _ Sample.ofParts_leftover
  refine ⟨Sample.ofParts_leftover, ?_, (leaves _).1.mpr ?_⟩
  · intro tidy
    obtain ⟨moment, before, listed⟩ := (leaves [.remove 1]).1.mp tidy (2, [9]) (by decide)
    rcases List.prefix_cons_iff.mp before with rfl | ⟨later, rfl, rest⟩
    · exact absurd listed (by decide)
    · rw [List.prefix_nil.mp rest] at listed
      exact absurd listed (by decide)
  · intro entry membership
    have listed : entry.1 = 1 ∨ entry.1 = 2 := by
      rcases List.mem_cons.mp membership with rfl | later
      · exact .inl rfl
      · exact .inr (congrArg Prod.fst (List.mem_singleton.mp later))
    refine ⟨[.addData .inactive [3]], ⟨[.remove 2], rfl⟩, ?_⟩
    rcases listed with number | number <;> rw [number] <;> decide

/-- A key set finds data for a number that it does not list, and has never listed. -/
theorem KeySet.data_found_without_version :
    ofParts Sample.listedOnce [(1, [7]), (2, [9])] = .ok Sample.leftover ∧
      2 ∉ Sample.leftover.metadata.numbers ∧ Sample.leftover.keyData 2 = .ok [9] ∧
      ¬ Sample.leftover.Tidy := by
  have found : Sample.leftover.keyData 2 = .ok [9] := rfl
  have unlisted : 2 ∉ Sample.leftover.metadata.numbers := by decide
  exact ⟨Sample.ofParts_leftover, unlisted, found,
    fun tidy => unlisted (tidy_iff.mp tidy 2 [9] found)⟩

end VersionedKeys
