import VersionedKeys.Proofs.KeySet.Operations
import VersionedKeys.Proofs.Outcomes

/-!
# Rules that key sets keep to

However a key set has come about, its metadata is valid and there is data for
every version it lists (`Reachable.sound`).  A version that is added gets a
number above all others, and if it becomes primary it is the only one
(`Reachable.keeps_rules`).
-/

namespace VersionedKeys

namespace KeySet

/-- A key set as it is made, empty or from its parts. -/
inductive Made : KeySet → Prop where
  | created {name : String} {purpose : KeyPurpose} {keyType : KeyType} {keySet : KeySet}
      (accepted : create name purpose keyType = .ok keySet) : Made keySet
  | restored {metadata : Metadata} {data : List (UInt32 × Bytes)} {keySet : KeySet}
      (accepted : ofParts metadata data = .ok keySet) : Made keySet

/-- A key set that operations lead to, whether or not they succeed. -/
inductive Reachable : KeySet → Prop where
  | made {keySet : KeySet} (made : Made keySet) : Reachable keySet
  | changed {keySet : KeySet} (reachable : Reachable keySet) (operation : Operation) :
      Reachable (operation.apply keySet).2

theorem Reachable.run {keySet : KeySet} (reachable : Reachable keySet)
    (operations : List Operation) : Reachable (keySet.run operations) := by
  induction operations generalizing keySet with
  | nil => exact reachable
  | cons operation operations inductionHypothesis =>
      exact inductionHypothesis (reachable.changed operation)

theorem keyData_eq_ok_iff {keySet : KeySet} {number : UInt32} {data : Bytes} :
    keySet.keyData number = .ok data ↔ dataFor? keySet.data number = some data := by
  rw [keyData]
  cases dataFor? keySet.data number <;> simp

theorem keyData_eq_ok_or (keySet : KeySet) (number : UInt32) :
    (∃ data, keySet.keyData number = .ok data) ∨
      keySet.keyData number = .error (.keySet (.unknownVersion number)) := by
  rw [keyData]
  cases dataFor? keySet.data number with
  | none => exact .inr rfl
  | some data => exact .inl ⟨data, rfl⟩

/-- Valid metadata, and data for every listed version. -/
structure Sound (keySet : KeySet) : Prop where
  valid : keySet.metadata.validate = .ok ()
  stored : ∀ number ∈ keySet.metadata.numbers, ∃ data, keySet.keyData number = .ok data

theorem Made.sound {keySet : KeySet} (made : Made keySet) : keySet.Sound := by
  cases made with
  | created accepted =>
      obtain ⟨⟨⟩, valid, equality⟩ := Outcome.bind_eq_ok.mp accepted
      cases equality
      refine ⟨valid, ?_⟩
      intro number listed
      cases listed
  | restored accepted =>
      obtain ⟨⟨⟩, valid, rest⟩ := Outcome.bind_eq_ok.mp accepted
      dsimp only at rest
      split at rest
      · cases rest
      · next complete =>
          cases rest
          refine ⟨valid, ?_⟩
          intro number listed
          obtain ⟨version, membership, rfl⟩ := Metadata.mem_numbers.mp listed
          have found := List.find?_eq_none.mp complete version membership
          rw [Bool.not_eq_true, Option.isNone_eq_false_iff, Option.isSome_iff_exists] at found
          obtain ⟨data, found⟩ := found
          exact ⟨data, keyData_eq_ok_iff.mpr found⟩

section Versions

variable {versions : List KeyVersion} {number : UInt32} {status : KeyStatus}

@[simp]
theorem makeRoom_of_ne (other : status ≠ .primary) : makeRoom status versions = versions := by
  rw [makeRoom, if_neg other]

theorem status_ne_of_mem_makeRoom {version : KeyVersion}
    (listed : version ∈ makeRoom .primary versions) : version.status ≠ .primary := by
  obtain ⟨older, -, rfl⟩ := List.mem_map.mp listed
  split
  · simp
  · assumption

/-- Of versions with different numbers at most one is primary, if only that with
a certain number may be. -/
theorem countP_primary_le_one (distinct : (versions.map (·.number)).Nodup)
    (only : ∀ version ∈ versions, version.status = .primary → version.number = number) :
    versions.countP (fun version => version.status == .primary) ≤ 1 := by
  calc
    versions.countP (fun version => version.status == .primary)
        ≤ versions.countP (fun version => version.number == number) := by
      apply List.countP_mono_left
      intro version listed primary
      simpa using only version listed (by simpa using primary)
    _ = (versions.map (·.number)).count number := by
      rw [List.count, List.countP_map]
      rfl
    _ ≤ 1 := List.nodup_iff_count_le_one.mp distinct number

theorem primary_iff_of_mem_append {version : KeyVersion} (fresh : number ∉ versions.map (·.number))
    (listed : version ∈ makeRoom .primary versions ++ [⟨number, .primary, false⟩]) :
    version.status = .primary ↔ version.number = number := by
  rcases List.mem_append.mp listed with older | added
  · have different : version.number ≠ number := by
      rintro rfl
      refine fresh ?_
      rw [← map_number_makeRoom .primary versions]
      exact List.mem_map_of_mem older
    simp [different, status_ne_of_mem_makeRoom older]
  · rw [List.mem_singleton.mp added]
    simp

theorem number_of_primary_of_mem_map {version : KeyVersion}
    (listed : version ∈ (makeRoom .primary versions).map fun version =>
      if version.number = number then { version with status := .primary } else version)
    (primary : version.status = .primary) : version.number = number := by
  obtain ⟨older, membership, rfl⟩ := List.mem_map.mp listed
  split at primary
  · next same => rw [if_pos same]; exact same
  · exact absurd primary (status_ne_of_mem_makeRoom membership)

end Versions

namespace Sound

variable {keySet : KeySet}

theorem added (sound : keySet.Sound) {status : KeyStatus} {number : UInt32} (data : Bytes)
    (next : keySet.metadata.nextNumber = .ok number) :
    Sound ⟨{ keySet.metadata with
        versions := makeRoom status keySet.metadata.versions ++ [⟨number, status, false⟩] },
      (number, data) :: keySet.data⟩ := by
  obtain ⟨suited, single, positive, distinct⟩ := Metadata.validate_eq_ok_iff.mp sound.valid
  have fresh : number ∉ keySet.metadata.numbers := by
    intro listed
    exact absurd (Metadata.lt_of_nextNumber next listed) (UInt32.lt_irrefl number)
  have numbers : (makeRoom status keySet.metadata.versions ++
        [KeyVersion.mk number status false]).map (·.number) =
      keySet.metadata.numbers ++ [number] := by
    rw [List.map_append, map_number_makeRoom]
    rfl
  have nodup : (keySet.metadata.numbers ++ [number]).Nodup :=
    List.nodup_append.mpr ⟨distinct, List.nodup_singleton number, by grind⟩
  constructor
  · refine Metadata.validate_eq_ok_iff.mpr ⟨suited, ?_, ?_, ?_⟩
    · by_cases primary : status = .primary
      · subst primary
        exact countP_primary_le_one (numbers ▸ nodup) fun _ listed =>
          (primary_iff_of_mem_append fresh listed).mp
      · rw [makeRoom_of_ne primary, List.countP_append]
        simpa [primary] using single
    · have nonzero : number ≠ 0 := by
        rintro rfl
        have last := Metadata.nextNumber_eq_ok_iff.mp next
        simp at last
      rw [Metadata.numbers, numbers]
      simp [positive, nonzero.symm]
    · rw [Metadata.numbers, numbers]
      exact nodup
  · intro other listed
    rw [Metadata.numbers, numbers] at listed
    by_cases same : number = other
    · exact ⟨data, keyData_eq_ok_iff.mpr (by simp [dataFor?, same])⟩
    · have older : other ∈ keySet.metadata.numbers := by grind
      obtain ⟨stored, found⟩ := sound.stored other older
      refine ⟨stored, keyData_eq_ok_iff.mpr ?_⟩
      rw [dataFor?_cons_of_ne same]
      exact keyData_eq_ok_iff.mp found

theorem restated (sound : keySet.Sound) (number : UInt32) (status : KeyStatus) :
    Sound { keySet with metadata := { keySet.metadata with
      versions := (makeRoom status keySet.metadata.versions).map fun version =>
        if version.number = number then { version with status } else version } } := by
  obtain ⟨suited, single, positive, distinct⟩ := Metadata.validate_eq_ok_iff.mp sound.valid
  have numbers := map_number_setStatus number status keySet.metadata.versions
  constructor
  · refine Metadata.validate_eq_ok_iff.mpr ⟨suited, ?_, ?_, ?_⟩
    · by_cases primary : status = .primary
      · subst primary
        exact countP_primary_le_one (numbers ▸ distinct) fun _ => number_of_primary_of_mem_map
      · rw [makeRoom_of_ne primary, List.countP_map]
        refine Nat.le_trans (List.countP_mono_left ?_) single
        intro version _ isPrimary
        rw [Function.comp_apply] at isPrimary
        split at isPrimary
        · simp [primary] at isPrimary
        · exact isPrimary
    · rw [Metadata.numbers, numbers]
      exact positive
    · rw [Metadata.numbers, numbers]
      exact distinct
  · intro other listed
    rw [Metadata.numbers, numbers] at listed
    exact sound.stored other listed

theorem removed (sound : keySet.Sound) (number : UInt32) :
    Sound ⟨{ keySet.metadata with
        versions := keySet.metadata.versions.filter fun version => version.number != number },
      keySet.data.filter fun entry => entry.1 != number⟩ := by
  obtain ⟨suited, single, positive, distinct⟩ := Metadata.validate_eq_ok_iff.mp sound.valid
  have sublist : (keySet.metadata.versions.filter fun version =>
      version.number != number).Sublist keySet.metadata.versions := List.filter_sublist
  constructor
  · refine Metadata.validate_eq_ok_iff.mpr ⟨suited, ?_, ?_, ?_⟩
    · exact Nat.le_trans (sublist.countP_le) single
    · exact fun listed => positive ((sublist.map _).subset listed)
    · exact distinct.sublist (sublist.map _)
  · intro other listed
    obtain ⟨version, membership, rfl⟩ := Metadata.mem_numbers.mp listed
    obtain ⟨older, different⟩ := List.mem_filter.mp membership
    obtain ⟨data, found⟩ := sound.stored _ (Metadata.mem_numbers.mpr ⟨version, older, rfl⟩)
    refine ⟨data, keyData_eq_ok_iff.mpr ?_⟩
    rw [dataFor?_filter_of_ne (by simpa using different)]
    exact keyData_eq_ok_iff.mp found

theorem apply (sound : keySet.Sound) (operation : Operation) :
    (operation.apply keySet).2.Sound := by
  generalize outcome : operation.apply keySet = result
  have effect := outcome ▸ effect_apply keySet operation
  cases effect with
  | failed => exact sound
  | @added _ _ _ data _ next => exact sound.added data next
  | @restated number status _ _ => exact sound.restated number status
  | @removed number _ _ _ => exact sound.removed number
  | encryptionSet _ => exact ⟨sound.valid, sound.stored⟩

end Sound

theorem Reachable.sound {keySet : KeySet} (reachable : Reachable keySet) : keySet.Sound := by
  induction reachable with
  | made made => exact made.sound
  | changed _ operation inductionHypothesis => exact inductionHypothesis.apply operation

/-- A successful addition takes the next number. -/
theorem exists_added {keySet : KeySet} {operation : Operation} {status : KeyStatus}
    (adds : operation.addedStatus? = some status) {added? : Option UInt32}
    (succeeds : (operation.apply keySet).1 = .ok added?) :
    ∃ number data, added? = some number ∧ keySet.metadata.nextNumber = .ok number ∧
      (operation.apply keySet).2 = ⟨{ keySet.metadata with
          versions := makeRoom status keySet.metadata.versions ++ [⟨number, status, false⟩] },
        (number, data) :: keySet.data⟩ := by
  generalize outcome : operation.apply keySet = result at succeeds
  have effect := outcome ▸ effect_apply keySet operation
  cases effect with
  | failed => cases succeeds
  | added found next =>
      cases found.symm.trans adds
      cases succeeds
      exact ⟨_, _, rfl, next, rfl⟩
  | restated _ => cases adds
  | removed _ _ => cases adds
  | encryptionSet _ => cases adds

/-- What holds of a version that has just been added. -/
structure Added (before after : KeySet) (status : KeyStatus) (number : UInt32) : Prop where
  bounded : number.toNat ≤ UInt32.size - 1
  newest : ∀ older ∈ before.metadata.numbers, older < number
  listed : after.metadata.version? number = some ⟨number, status, false⟩
  primary : status = .primary → ∀ version ∈ after.metadata.versions,
    version.status = .primary ↔ version.number = number

theorem Sound.exists_added {keySet : KeySet} (sound : keySet.Sound) {operation : Operation}
    {status : KeyStatus} (adds : operation.addedStatus? = some status) {added? : Option UInt32}
    (succeeds : (operation.apply keySet).1 = .ok added?) :
    ∃ number, added? = some number ∧ Added keySet (operation.apply keySet).2 status number := by
  obtain ⟨number, data, returned, next, after⟩ := KeySet.exists_added adds succeeds
  have newest (older : UInt32) (listed : older ∈ keySet.metadata.numbers) : older < number :=
    Metadata.lt_of_nextNumber next listed
  have fresh : number ∉ keySet.metadata.numbers := fun listed =>
    UInt32.lt_irrefl number (newest number listed)
  refine ⟨number, returned, ?_, newest, ?_, ?_⟩
  · exact Nat.le_pred_of_lt number.toNat_lt
  · have valid := (sound.apply operation).valid
    rw [after] at valid ⊢
    exact Metadata.version?_eq_some_of_mem valid
      (List.mem_append_right _ (List.mem_singleton_self _))
  · rintro rfl version listed
    rw [after] at listed
    exact primary_iff_of_mem_append fresh listed

/-- Whatever operations lead to a key set, it is valid and complete, and a version
that is added to it is above all versions it lists and has the status that was
asked for, alone if that is to be primary. -/
theorem Reachable.keeps_rules {keySet : KeySet} (reachable : Reachable keySet) :
    keySet.metadata.validate = .ok () ∧
    keySet.metadata.keyType.supports keySet.metadata.purpose = true ∧
    keySet.metadata.versions.countP (fun version => version.status == .primary) ≤ 1 ∧
    (∀ number ∈ keySet.metadata.numbers, 1 ≤ number) ∧ keySet.metadata.numbers.Nodup ∧
    (∀ number ∈ keySet.metadata.numbers, ∃ data, keySet.keyData number = .ok data) ∧
    ∀ operation status, Operation.addedStatus? operation = some status →
      ∀ added?, (operation.apply keySet).1 = .ok added? →
        ∃ number, added? = some number ∧
          Added keySet (operation.apply keySet).2 status number := by
  have sound := reachable.sound
  obtain ⟨suited, single, positive, distinct⟩ := Metadata.validate_eq_ok_iff.mp sound.valid
  refine ⟨sound.valid, suited, single, ?_, distinct, sound.stored, ?_⟩
  · intro number listed
    have nonzero : number ≠ 0 := by
      rintro rfl
      exact positive listed
    grind
  · intro operation status adds added? succeeds
    exact sound.exists_added adds succeeds

end KeySet

namespace Sample

def unused : KeySet := ⟨{ name := "sample", purpose := .decryptAndEncrypt, keyType := .aes }, []⟩

theorem made_unused : KeySet.Made unused := by
  have accepted : KeySet.create "sample" .decryptAndEncrypt .aes = .ok unused := rfl
  exact .created accepted

end Sample

/-- The second primary version of a key set. -/
theorem KeySet.Reachable.keeps_rules_sample :
    Reachable (Sample.unused.run [.addData .primary [1]]) ∧
      Added (Sample.unused.run [.addData .primary [1]])
        (Sample.unused.run [.addData .primary [1], .addData .primary [2]]) .primary 2 := by
  have reachable := (Reachable.made Sample.made_unused).run [.addData .primary [1]]
  obtain ⟨-, -, -, -, -, -, adds⟩ := reachable.keeps_rules
  obtain ⟨number, returned, added⟩ := adds (.addData .primary [2]) .primary rfl (some 2) rfl
  cases returned
  exact ⟨reachable, added⟩

end VersionedKeys
