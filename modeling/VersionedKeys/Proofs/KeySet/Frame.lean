import VersionedKeys.Proofs.Key.Generation
import VersionedKeys.Proofs.KeySet.Invariant
import VersionedKeys.Proofs.PasswordStore

/-!
# What operations change

An operation is refused for the reasons that `Operation.RefusedBy` lists, and then
changes nothing.  One that succeeds changes what it names; apart from that the
primary version makes room for a new one, and all else stays as it is
(`Reachable.changes_only_named`).
-/

namespace VersionedKeys

/-- What becomes of a version when another one gets a status. -/
def KeyVersion.yieldTo (status : KeyStatus) (version : KeyVersion) : KeyVersion :=
  if status = .primary ∧ version.status = .primary then { version with status := .active }
  else version

@[simp]
theorem KeyVersion.number_yieldTo (status : KeyStatus) (version : KeyVersion) :
    (version.yieldTo status).number = version.number := by
  rw [yieldTo]
  split <;> rfl

@[simp]
theorem KeyVersion.exportable_yieldTo (status : KeyStatus) (version : KeyVersion) :
    (version.yieldTo status).exportable = version.exportable := by
  rw [yieldTo]
  split <;> rfl

theorem KeyVersion.yieldTo_with_status (status : KeyStatus) (version : KeyVersion) :
    { version.yieldTo status with status } = { version with status } := by
  rw [yieldTo]
  split <;> rfl

namespace Metadata

variable {metadata : Metadata} {number : UInt32}

theorem mem_numbers_iff_version? :
    number ∈ metadata.numbers ↔ ∃ version, metadata.version? number = some version := by
  rw [version?, ← Option.isSome_iff_exists, List.find?_isSome, mem_numbers]
  simp

/-- A version of valid metadata stands among versions of other numbers. -/
theorem exists_versions_eq (valid : metadata.validate = .ok ()) {version : KeyVersion}
    (known : metadata.version? number = some version) :
    ∃ front back, metadata.versions = front ++ version :: back ∧ version.number = number ∧
      ∀ other ∈ front ++ back, other.number ≠ number := by
  obtain ⟨same, front, back, equality, -⟩ := List.find?_eq_some_iff_append.mp known
  have same : version.number = number := by simpa using same
  have distinct := (validate_eq_ok_iff.mp valid).2.2.2
  rw [numbers, equality, List.map_append, List.map_cons, List.nodup_middle,
    List.nodup_cons, ← List.map_append] at distinct
  refine ⟨front, back, equality, same, ?_⟩
  intro other listed equal
  exact distinct.1 (List.mem_map.mpr ⟨other, listed, equal.trans same.symm⟩)

/-- Numbers run out when the largest one is given away. -/
theorem fails_nextNumber :
    Outcome.Fails metadata.nextNumber ↔ UInt32.ofNat (UInt32.size - 1) ∈ metadata.numbers := by
  have size : UInt32.size = 4294967296 := rfl
  have exhausted : Outcome.Fails metadata.nextNumber ↔
      ¬ metadata.lastNumber ≤ UInt32.size - 2 := by
    rw [nextNumber]
    split
    · simp only [Outcome.not_fails_ok, false_iff]
      omega
    · simp only [Outcome.fails_error, true_iff]
      omega
  rw [exhausted, lastNumber_le_iff]
  constructor
  · intro large
    simp only [not_forall] at large
    obtain ⟨number, listed, above⟩ := large
    have bound : number.toNat < UInt32.size := number.toNat_lt
    have largest : number = UInt32.ofNat (UInt32.size - 1) := by
      apply UInt32.toNat_inj.mp
      rw [UInt32.toNat_ofNat_of_lt' (by decide)]
      omega
    exact largest ▸ listed
  · intro listed bounded
    have bound := bounded _ listed
    rw [UInt32.toNat_ofNat_of_lt' (by decide)] at bound
    omega

end Metadata

namespace KeySet

theorem makeRoom_eq_map (status : KeyStatus) (versions : List KeyVersion) :
    makeRoom status versions = versions.map (·.yieldTo status) := by
  by_cases primary : status = .primary
  · simp [makeRoom, demotePrimary, KeyVersion.yieldTo, primary]
  · simp [makeRoom, KeyVersion.yieldTo, primary]

section Refusal

variable (keySet : KeySet)

/-- No version can be added because the largest number is in use. -/
def Full : Prop := UInt32.ofNat (UInt32.size - 1) ∈ keySet.metadata.numbers

/-- The reasons for which operations fail. -/
def Operation.RefusedBy : Operation → Prop
  | addData _ _ => keySet.Full
  | addKey _ key =>
      key.keyType ≠ keySet.metadata.keyType ∨ keySet.metadata.encrypted = true ∨ keySet.Full
  | generateKey _ size random =>
      Outcome.Fails (Key.generate keySet.metadata.keyType size random).1 ∨
        keySet.metadata.encrypted = true ∨ keySet.Full
  | addEncryptedKey _ key encrypt random =>
      key.keyType ≠ keySet.metadata.keyType ∨ keySet.metadata.encrypted = false ∨
        Outcome.Fails (encrypt key.toBytes random).1 ∨ keySet.Full
  | setStatus number _ => number ∉ keySet.metadata.numbers
  | remove number =>
      number ∉ keySet.metadata.numbers ∨
        ∃ version, keySet.metadata.version? number = some version ∧ version.status ≠ .inactive
  | setEncrypted _ => keySet.metadata.versions ≠ []

theorem fails_addData {status : KeyStatus} {data : Bytes} :
    Outcome.Fails (keySet.addData status data).1 ↔ keySet.Full := by
  rw [Full, ← Metadata.fails_nextNumber, addData]
  cases keySet.metadata.nextNumber <;> simp

theorem fails_addKey {status : KeyStatus} {key : Key} :
    Outcome.Fails (keySet.addKey status key).1 ↔
      key.keyType ≠ keySet.metadata.keyType ∨ keySet.metadata.encrypted = true ∨
        keySet.Full := by
  rw [addKey, checkPlain, checkType]
  by_cases foreign : key.keyType = keySet.metadata.keyType
  · by_cases encrypted : keySet.metadata.encrypted = true
    · simp [foreign, encrypted]
    · simp [foreign, encrypted, fails_addData]
  · simp [foreign]

theorem fails_addEncryptedKey {status : KeyStatus} {key : Key}
    {encrypt : Bytes → Random → Except Error Bytes × Random} {random : Random} :
    Outcome.Fails (keySet.addEncryptedKey status key encrypt random).1.1 ↔
      key.keyType ≠ keySet.metadata.keyType ∨ keySet.metadata.encrypted = false ∨
        Outcome.Fails (encrypt key.toBytes random).1 ∨ keySet.Full := by
  rw [addEncryptedKey, checkEncrypted, checkType]
  by_cases foreign : key.keyType = keySet.metadata.keyType
  · by_cases encrypted : keySet.metadata.encrypted = true
    · obtain ⟨result, after⟩ := encrypt key.toBytes random
      cases result with
      | error error => simp [foreign, encrypted]
      | ok data => simp [foreign, encrypted, fails_addData]
    · simp [foreign, encrypted]
  · simp [foreign]

theorem fails_generateKey {status : KeyStatus} {size : Nat} {random : Random} :
    Outcome.Fails (keySet.generateKey status size random).1.1 ↔
      Outcome.Fails (Key.generate keySet.metadata.keyType size random).1 ∨
        keySet.metadata.encrypted = true ∨ keySet.Full := by
  rw [generateKey]
  generalize made : Key.generate keySet.metadata.keyType size random = result
  obtain ⟨result, after⟩ := result
  cases result with
  | error error => simp
  | ok key =>
      have suited : key.keyType = keySet.metadata.keyType :=
        Key.keyType_of_generate (congrArg Prod.fst made)
      simp [fails_addKey, suited]

theorem fails_apply (operation : Operation) :
    Outcome.Fails (operation.apply keySet).1 ↔ operation.RefusedBy keySet := by
  cases operation with
  | addData status data => exact Outcome.fails_map.trans keySet.fails_addData
  | addKey status key => exact Outcome.fails_map.trans keySet.fails_addKey
  | generateKey status size random => exact Outcome.fails_map.trans keySet.fails_generateKey
  | addEncryptedKey status key encrypt random =>
      exact Outcome.fails_map.trans keySet.fails_addEncryptedKey
  | setStatus number status =>
      rw [Operation.RefusedBy, Metadata.mem_numbers_iff_version?, Operation.apply, setStatus]
      cases keySet.metadata.version? number <;> simp
  | remove number =>
      rw [Operation.RefusedBy, Metadata.mem_numbers_iff_version?, Operation.apply, remove]
      cases keySet.metadata.version? number with
      | none => simp
      | some version =>
          by_cases unused : version.status = .inactive
          · simp [unused]
          · simp [unused]
  | setEncrypted encrypted =>
      rw [Operation.RefusedBy, Operation.apply, setEncrypted]
      by_cases empty : keySet.metadata.versions = []
      · simp [empty]
      · simp [empty]

/-- A key is not added under a password for the reasons for which it is not added
in other ways, or because there are to be no iterations. -/
theorem refusedBy_addPasswordKey {status : KeyStatus} {key : Key} {password : String}
    {iterations : UInt32} {random : Random} :
    (Operation.addPasswordKey status key password iterations random).RefusedBy keySet ↔
      key.keyType ≠ keySet.metadata.keyType ∨ keySet.metadata.encrypted = false ∨
        iterations = 0 ∨ keySet.Full := by
  have fails : Outcome.Fails (encryptUnderPassword password iterations key.toBytes random).1 ↔
      iterations = 0 := by
    rw [encryptUnderPassword, Prod.map_fst, Outcome.fails_map, PasswordStore.fails_encrypt]
  rw [Operation.addPasswordKey, Operation.RefusedBy, fails]

end Refusal

/-- One version is added at the end, and the primary one makes room for it. -/
structure Adds (before after : KeySet) (status : KeyStatus) (number : UInt32) : Prop where
  versions : after.metadata.versions =
    before.metadata.versions.map (·.yieldTo status) ++ [⟨number, status, false⟩]
  keyData : ∀ other, other ≠ number → after.keyData other = before.keyData other
  encrypted : after.metadata.encrypted = before.metadata.encrypted

/-- One version gets another status, and the primary one makes room for it. -/
structure Restates (before after : KeySet) (number : UInt32) (status : KeyStatus) : Prop where
  versions : ∃ front version back, version.number = number ∧
    before.metadata.versions = front ++ version :: back ∧
    after.metadata.versions =
      front.map (·.yieldTo status) ++ { version with status } :: back.map (·.yieldTo status)
  keyData : after.keyData = before.keyData
  encrypted : after.metadata.encrypted = before.metadata.encrypted

/-- One version goes, with its data. -/
structure Removes (before after : KeySet) (number : UInt32) : Prop where
  versions : ∃ front version back, version.number = number ∧ version.status = .inactive ∧
    before.metadata.versions = front ++ version :: back ∧
    after.metadata.versions = front ++ back
  gone : after.keyData number = .error (.keySet (.unknownVersion number))
  keyData : ∀ other, other ≠ number → after.keyData other = before.keyData other
  encrypted : after.metadata.encrypted = before.metadata.encrypted

/-- There are no versions, and it is said whether their data is encrypted. -/
structure SetsEncrypted (before after : KeySet) (encrypted : Bool) : Prop where
  empty : before.metadata.versions = []
  versions : after.metadata.versions = []
  keyData : after.keyData = before.keyData
  encrypted : after.metadata.encrypted = encrypted

/-- What an operation changes, beside giving a number. -/
def Operation.Changes (before after : KeySet) (added? : Option UInt32) : Operation → Prop
  | addData status _ | addKey status _ | generateKey status _ _ | addEncryptedKey status _ _ _ =>
      ∃ number, added? = some number ∧ Adds before after status number
  | setStatus number status => added? = none ∧ Restates before after number status
  | remove number => added? = none ∧ Removes before after number
  | setEncrypted encrypted => added? = none ∧ SetsEncrypted before after encrypted

/-- What no operation changes. -/
structure Preserves (before after : KeySet) : Prop where
  name : after.metadata.name = before.metadata.name
  purpose : after.metadata.purpose = before.metadata.purpose
  keyType : after.metadata.keyType = before.metadata.keyType
  keyData : ∀ number ∈ before.metadata.numbers, number ∈ after.metadata.numbers →
    after.keyData number = before.keyData number
  exportable : ∀ old ∈ before.metadata.versions, ∀ new ∈ after.metadata.versions,
    new.number = old.number → new.exportable = old.exportable

section Effects

variable {keySet : KeySet} {number : UInt32}

theorem keyData_cons_of_ne {other : UInt32} (different : other ≠ number) (metadata : Metadata)
    (added : Bytes) : keyData ⟨metadata, (number, added) :: keySet.data⟩ other =
      keySet.keyData other := by
  rw [keyData, dataFor?_cons_of_ne different.symm, keyData]

theorem keyData_filter_of_ne {other : UInt32} (different : other ≠ number)
    (metadata : Metadata) :
    keyData ⟨metadata, keySet.data.filter fun entry => entry.1 != number⟩ other =
      keySet.keyData other := by
  rw [keyData, dataFor?_filter_of_ne different, keyData]

theorem keyData_filter_self (metadata : Metadata) :
    keyData ⟨metadata, keySet.data.filter fun entry => entry.1 != number⟩ number =
      .error (.keySet (.unknownVersion number)) := by
  have gone : dataFor? (keySet.data.filter fun entry => entry.1 != number) number = none := by
    rw [dataFor?, List.find?_filter]
    simp
  rw [keyData, gone]

theorem restates_of_known (valid : keySet.metadata.validate = .ok ()) {version : KeyVersion}
    (known : keySet.metadata.version? number = some version) (status : KeyStatus) :
    Restates keySet { keySet with metadata := { keySet.metadata with
      versions := (makeRoom status keySet.metadata.versions).map fun version =>
        if version.number = number then { version with status } else version } }
      number status := by
  obtain ⟨front, back, equality, same, others⟩ := Metadata.exists_versions_eq valid known
  have kept (versions : List KeyVersion) (different : ∀ other ∈ versions, other.number ≠ number) :
      ((versions.map (·.yieldTo status)).map fun version =>
        if version.number = number then { version with status } else version) =
        versions.map (·.yieldTo status) := by
    rw [List.map_map]
    refine List.map_congr_left fun other listed => ?_
    rw [Function.comp_apply, if_neg (by simpa using different other listed)]
  refine ⟨⟨front, version, back, same, equality, ?_⟩, rfl, rfl⟩
  dsimp only
  rw [makeRoom_eq_map, equality, List.map_append, List.map_cons, List.map_append, List.map_cons,
    kept front fun other listed => others other (List.mem_append_left _ listed),
    kept back fun other listed => others other (List.mem_append_right _ listed),
    if_pos (by simpa using same), KeyVersion.yieldTo_with_status]

theorem removes_of_known (valid : keySet.metadata.validate = .ok ()) {version : KeyVersion}
    (known : keySet.metadata.version? number = some version)
    (unused : version.status = .inactive) :
    Removes keySet ⟨{ keySet.metadata with
        versions := keySet.metadata.versions.filter fun version => version.number != number },
      keySet.data.filter fun entry => entry.1 != number⟩ number := by
  obtain ⟨front, back, equality, same, others⟩ := Metadata.exists_versions_eq valid known
  have kept (versions : List KeyVersion) (different : ∀ other ∈ versions, other.number ≠ number) :
      (versions.filter fun version => version.number != number) = versions := by
    refine List.filter_eq_self.mpr fun other listed => ?_
    simpa using different other listed
  refine ⟨⟨front, version, back, same, unused, equality, ?_⟩, keyData_filter_self _,
    fun other different => keyData_filter_of_ne different _, rfl⟩
  dsimp only
  rw [equality, List.filter_append, List.filter_cons_of_neg (by simpa using same),
    kept front fun other listed => others other (List.mem_append_left _ listed),
    kept back fun other listed => others other (List.mem_append_right _ listed)]

theorem changes_of_ok (valid : keySet.metadata.validate = .ok ()) {operation : Operation}
    {added? : Option UInt32} (succeeds : (operation.apply keySet).1 = .ok added?) :
    operation.Changes keySet (operation.apply keySet).2 added? := by
  generalize outcome : operation.apply keySet = result at succeeds
  have effect := outcome ▸ effect_apply keySet operation
  cases effect with
  | failed => cases succeeds
  | @added _ status number data adds next =>
      cases succeeds
      have change : Adds keySet ⟨{ keySet.metadata with
          versions := makeRoom status keySet.metadata.versions ++ [⟨number, status, false⟩] },
          (number, data) :: keySet.data⟩ status number :=
        ⟨by rw [makeRoom_eq_map], fun other different => keyData_cons_of_ne different _ _, rfl⟩
      cases operation with
      | addData _ _ | addKey _ _ | generateKey _ _ _ | addEncryptedKey _ _ _ _ =>
          cases adds
          exact ⟨number, rfl, change⟩
      | setStatus _ _ | remove _ | setEncrypted _ => cases adds
  | restated known =>
      cases succeeds
      exact ⟨rfl, restates_of_known valid known _⟩
  | removed known unused =>
      cases succeeds
      exact ⟨rfl, removes_of_known valid known unused⟩
  | encryptionSet empty =>
      cases succeeds
      exact ⟨rfl, empty, empty, rfl, rfl⟩

theorem exportable_eq_of_origin (valid : keySet.metadata.validate = .ok ()) {after : KeySet}
    (origin : ∀ new ∈ after.metadata.versions, new.number ∈ keySet.metadata.numbers →
      ∃ old ∈ keySet.metadata.versions,
        old.number = new.number ∧ old.exportable = new.exportable) :
    ∀ old ∈ keySet.metadata.versions, ∀ new ∈ after.metadata.versions,
      new.number = old.number → new.exportable = old.exportable := by
  intro old oldListed new newListed same
  have known : new.number ∈ keySet.metadata.numbers :=
    Metadata.mem_numbers.mpr ⟨old, oldListed, same.symm⟩
  obtain ⟨source, listed, number, flag⟩ := origin new newListed known
  rw [← flag, Metadata.eq_of_number valid listed oldListed (number.trans same)]

theorem preserves_apply (valid : keySet.metadata.validate = .ok ()) (operation : Operation) :
    Preserves keySet (operation.apply keySet).2 := by
  generalize outcome : operation.apply keySet = result
  have effect := outcome ▸ effect_apply keySet operation
  cases effect with
  | failed =>
      refine ⟨rfl, rfl, rfl, fun _ _ _ => rfl, exportable_eq_of_origin valid ?_⟩
      intro new listed _
      exact ⟨new, listed, rfl, rfl⟩
  | added adds next =>
      refine ⟨rfl, rfl, rfl, ?_, exportable_eq_of_origin valid ?_⟩
      · intro number listed _
        have older := Metadata.lt_of_nextNumber next listed
        exact keyData_cons_of_ne (by grind) _ _
      · intro new listed known
        rw [makeRoom_eq_map] at listed
        rcases List.mem_append.mp listed with older | newest
        · obtain ⟨old, oldListed, rfl⟩ := List.mem_map.mp older
          exact ⟨old, oldListed, by simp, by simp⟩
        · obtain rfl := List.mem_singleton.mp newest
          exact absurd (Metadata.lt_of_nextNumber next known) (UInt32.lt_irrefl _)
  | restated known =>
      refine ⟨rfl, rfl, rfl, fun _ _ _ => rfl, exportable_eq_of_origin valid ?_⟩
      intro new listed _
      rw [makeRoom_eq_map] at listed
      obtain ⟨demoted, demotedListed, rfl⟩ := List.mem_map.mp listed
      obtain ⟨old, oldListed, rfl⟩ := List.mem_map.mp demotedListed
      refine ⟨old, oldListed, ?_, ?_⟩
      · split <;> simp
      · split <;> simp
  | removed known unused =>
      refine ⟨rfl, rfl, rfl, ?_, exportable_eq_of_origin valid ?_⟩
      · intro number _ listed
        obtain ⟨version, membership, rfl⟩ := Metadata.mem_numbers.mp listed
        exact keyData_filter_of_ne (by simpa using (List.mem_filter.mp membership).2) _
      · intro new listed _
        exact ⟨new, (List.mem_filter.mp listed).1, rfl, rfl⟩
  | encryptionSet empty =>
      refine ⟨rfl, rfl, rfl, fun _ _ _ => rfl, exportable_eq_of_origin valid ?_⟩
      intro new listed _
      exact ⟨new, listed, rfl, rfl⟩

theorem eq_of_fails {operation : Operation} {error : Error}
    (fails : (operation.apply keySet).1 = .error error) : (operation.apply keySet).2 = keySet := by
  generalize outcome : operation.apply keySet = result at fails
  have effect := outcome ▸ effect_apply keySet operation
  cases effect with
  | failed => rfl
  | added _ _ | restated _ | removed _ _ | encryptionSet _ => cases fails

end Effects

/-- An operation that is refused changes nothing, and one that succeeds changes only
what it names. -/
theorem Reachable.changes_only_named {keySet : KeySet} (reachable : Reachable keySet)
    (operation : Operation) :
    (Outcome.Fails (operation.apply keySet).1 ↔ operation.RefusedBy keySet) ∧
    (∀ status key password iterations random,
      (Operation.addPasswordKey status key password iterations random).RefusedBy keySet ↔
        key.keyType ≠ keySet.metadata.keyType ∨ keySet.metadata.encrypted = false ∨
          iterations = 0 ∨ keySet.Full) ∧
    (∀ error, (operation.apply keySet).1 = .error error →
      (operation.apply keySet).2 = keySet) ∧
    ∀ added?, (operation.apply keySet).1 = .ok added? →
      operation.Changes keySet (operation.apply keySet).2 added? ∧
        Preserves keySet (operation.apply keySet).2 := by
  have valid := reachable.sound.valid
  refine ⟨keySet.fails_apply operation, ?_, fun _ => eq_of_fails, ?_⟩
  · intro status key password iterations random
    exact keySet.refusedBy_addPasswordKey
  · intro added? succeeds
    exact ⟨changes_of_ok valid succeeds, preserves_apply valid operation⟩

/-- A version takes the place of the primary one, which cannot be removed. -/
theorem Reachable.changes_only_named_sample :
    Reachable (Sample.unused.run [.addData .primary [1], .addData .active [2]]) ∧
      Restates (Sample.unused.run [.addData .primary [1], .addData .active [2]])
        (Sample.unused.run [.addData .primary [1], .addData .active [2], .setStatus 2 .primary])
        2 .primary ∧
      Outcome.Fails ((Operation.remove 1).apply
        (Sample.unused.run [.addData .primary [1], .addData .active [2]])).1 := by
  have reachable :=
    (Reachable.made Sample.made_unused).run [.addData .primary [1], .addData .active [2]]
  obtain ⟨-, -, -, changes⟩ := reachable.changes_only_named (.setStatus 2 .primary)
  obtain ⟨⟨-, restates⟩, -⟩ := changes none rfl
  refine ⟨reachable, restates, (reachable.changes_only_named (.remove 1)).1.mpr (.inr ?_)⟩
  exact ⟨⟨1, .primary, false⟩, by decide, by decide⟩

end KeySet

end VersionedKeys
