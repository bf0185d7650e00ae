import VersionedKeys.KeySet
import VersionedKeys.Proofs.KeySet.Validity

/-!
# Runs of operations

Whatever is done to a key set has one of five effects (`effect_apply`).  A
version that is not removed keeps its number and its data through every one of
them, so it holds the same key after a whole run: `Holds.run`.
-/

namespace VersionedKeys.KeySet

inductive Operation where
  | addData (status : KeyStatus) (data : Bytes)
  | addKey (status : KeyStatus) (key : Key)
  | generateKey (status : KeyStatus) (size : Nat) (random : Random)
  /-- The key is encrypted in any way, with other keys or under a password. -/
  | addEncryptedKey (status : KeyStatus) (key : Key)
      (encrypt : Bytes → Random → Except Error Bytes × Random) (random : Random)
  | setStatus (number : UInt32) (status : KeyStatus)
  | remove (number : UInt32)
  | setEncrypted (encrypted : Bool)

namespace Operation

def addedStatus? : Operation → Option KeyStatus
  | addData status _ | addKey status _ | generateKey status _ _ | addEncryptedKey status _ _ _ =>
      some status
  | setStatus _ _ | remove _ | setEncrypted _ => none

/-- Carry out an operation.  Those that add a version give its number. -/
def apply (keySet : KeySet) : Operation → Except Error (Option UInt32) × KeySet
  | addData status data => (keySet.addData status data).map (·.map some) id
  | addKey status key => (keySet.addKey status key).map (·.map some) id
  | generateKey status size random =>
      (keySet.generateKey status size random).1.map (·.map some) id
  | addEncryptedKey status key encrypt random =>
      (keySet.addEncryptedKey status key encrypt random).1.map (·.map some) id
  | setStatus number status => (keySet.setStatus number status).map (·.map fun _ => none) id
  | remove number => (keySet.remove number).map (·.map fun _ => none) id
  | setEncrypted encrypted => (keySet.setEncrypted encrypted).map (·.map fun _ => none) id

/-- Add a key whose data is encrypted under a password, as `KeySet.addPasswordKey` does. -/
def addPasswordKey (status : KeyStatus) (key : Key) (password : String) (iterations : UInt32)
    (random : Random) : Operation :=
  .addEncryptedKey status key (encryptUnderPassword password iterations) random

end Operation

/-- The effects that operations have on a key set. -/
inductive Effect (keySet : KeySet) : Operation → Except Error (Option UInt32) × KeySet → Prop
  | failed {operation : Operation} {error : Error} : Effect keySet operation (.error error, keySet)
  | added {operation : Operation} {status : KeyStatus} {number : UInt32} {data : Bytes}
      (adds : operation.addedStatus? = some status)
      (next : keySet.metadata.nextNumber = .ok number) :
      Effect keySet operation (.ok (some number),
        ⟨{ keySet.metadata with
            versions := makeRoom status keySet.metadata.versions ++ [⟨number, status, false⟩] },
          (number, data) :: keySet.data⟩)
  | restated {number : UInt32} {status : KeyStatus} {version : KeyVersion}
      (known : keySet.metadata.version? number = some version) :
      Effect keySet (.setStatus number status) (.ok none,
        { keySet with metadata := { keySet.metadata with
            versions := (makeRoom status keySet.metadata.versions).map fun version =>
              if version.number = number then { version with status } else version } })
  | removed {number : UInt32} {version : KeyVersion}
      (known : keySet.metadata.version? number = some version)
      (unused : version.status = .inactive) :
      Effect keySet (.remove number) (.ok none,
        ⟨{ keySet.metadata with
            versions := keySet.metadata.versions.filter fun version => version.number != number },
          keySet.data.filter fun entry => entry.1 != number⟩)
  | encryptionSet {encrypted : Bool} (empty : keySet.metadata.versions = []) :
      Effect keySet (.setEncrypted encrypted) (.ok none,
        { keySet with metadata := { keySet.metadata with encrypted } })

section Effects

variable (keySet : KeySet)

theorem effect_addData {operation : Operation} {status : KeyStatus}
    (adds : operation.addedStatus? = some status) (data : Bytes) :
    Effect keySet operation ((keySet.addData status data).map (·.map some) id) := by
  unfold addData
  split
  · exact .failed
  · next next => exact .added adds next

theorem effect_addKey {operation : Operation} {status : KeyStatus}
    (adds : operation.addedStatus? = some status) (key : Key) :
    Effect keySet operation ((keySet.addKey status key).map (·.map some) id) := by
  unfold addKey
  split
  · exact .failed
  · exact effect_addData keySet adds key.toBytes

theorem effect_apply (operation : Operation) :
    Effect keySet operation (operation.apply keySet) := by
  cases operation with
  | addData status data => exact effect_addData keySet rfl data
  | addKey status key => exact effect_addKey keySet rfl key
  | generateKey status size random =>
      rw [Operation.apply, generateKey]
      split
      · exact .failed
      · next key _ _ => exact effect_addKey keySet rfl key
  | addEncryptedKey status key encrypt random =>
      rw [Operation.apply, addEncryptedKey]
      split
      · exact .failed
      · split
        · exact .failed
        · next data _ _ => exact effect_addData keySet rfl data
  | setStatus number status =>
      rw [Operation.apply, setStatus]
      split
      · exact .failed
      · next known => exact .restated known
  | remove number =>
      rw [Operation.apply, remove]
      split
      · exact .failed
      · next known =>
          split
          · next unused => exact .removed known unused
          · exact .failed
  | setEncrypted encrypted =>
      rw [Operation.apply, setEncrypted]
      split
      · next empty => exact .encryptionSet (List.isEmpty_iff.mp empty)
      · exact .failed

end Effects

@[simp]
theorem map_number_makeRoom (status : KeyStatus) (versions : List KeyVersion) :
    (makeRoom status versions).map (·.number) = versions.map (·.number) := by
  rw [makeRoom]
  split
  · rw [demotePrimary, List.map_map]
    refine List.map_congr_left fun version _ => ?_
    rw [Function.comp_apply]
    split <;> rfl
  · rfl

theorem map_number_setStatus (number : UInt32) (status : KeyStatus) (versions : List KeyVersion) :
    ((makeRoom status versions).map fun version =>
        if version.number = number then { version with status } else version).map (·.number) =
      versions.map (·.number) := by
  rw [← map_number_makeRoom status versions, List.map_map]
  refine List.map_congr_left fun version _ => ?_
  rw [Function.comp_apply]
  split <;> rfl

theorem dataFor?_cons_of_ne {number other : UInt32} (different : number ≠ other) (added : Bytes)
    (data : List (UInt32 × Bytes)) :
    dataFor? ((number, added) :: data) other = dataFor? data other := by
  rw [dataFor?, List.find?_cons_of_neg (by simpa using different), dataFor?]

theorem dataFor?_filter_of_ne {number other : UInt32} (different : other ≠ number)
    (data : List (UInt32 × Bytes)) :
    dataFor? (data.filter fun entry => entry.1 != number) other = dataFor? data other := by
  rw [dataFor?, dataFor?, List.find?_filter]
  congr 2
  funext entry
  by_cases same : entry.1 = other
  · simp [same, different]
  · simp [same]

/-- A version of the number holds the key: it is listed, and its data is read as
the key. -/
def Holds (keySet : KeySet) (number : UInt32) (key : Key) : Prop :=
  number ∈ keySet.metadata.numbers ∧
    ∃ data, keySet.keyData number = .ok data ∧ Key.read keySet.metadata.keyType data = .ok key

theorem Holds.key_eq {keySet : KeySet} {number : UInt32} {left right : Key}
    (leftHeld : keySet.Holds number left) (rightHeld : keySet.Holds number right) :
    left = right := by
  obtain ⟨-, data, found, read⟩ := leftHeld
  obtain ⟨-, other, otherFound, otherRead⟩ := rightHeld
  cases found.symm.trans otherFound
  exact Except.ok.inj (read.symm.trans otherRead)

theorem Holds.of_same {before after : KeySet} {number : UInt32} {key : Key}
    (holds : before.Holds number key) (keyType : after.metadata.keyType = before.metadata.keyType)
    (listed : number ∈ after.metadata.numbers)
    (data : dataFor? after.data number = dataFor? before.data number) :
    after.Holds number key := by
  obtain ⟨-, found⟩ := holds
  refine ⟨listed, ?_⟩
  rw [keyData, data, keyType]
  exact found

/-- An operation leaves alone the key of a version that it does not remove. -/
theorem Holds.apply {keySet : KeySet} {number : UInt32} {key : Key}
    (holds : keySet.Holds number key) {operation : Operation}
    (keeps : operation = .remove number → ∀ added, (operation.apply keySet).1 ≠ .ok added) :
    (operation.apply keySet).2.Holds number key := by
  have listed := holds.1
  generalize outcome : operation.apply keySet = result at keeps
  have effect := outcome ▸ effect_apply keySet operation
  cases effect with
  | failed => exact holds
  | added adds next =>
      -- The new entry stands before the old ones, but under a number of its own.
      have older := Metadata.lt_of_nextNumber next listed
      refine holds.of_same rfl ?_ (dataFor?_cons_of_ne (by grind) _ _)
      rw [Metadata.numbers, List.map_append, map_number_makeRoom]
      exact List.mem_append_left _ listed
  | restated known =>
      refine holds.of_same rfl ?_ rfl
      rw [Metadata.numbers, map_number_setStatus]
      exact listed
  | @removed other version known unused =>
      have different : number ≠ other := by
        rintro rfl
        exact keeps rfl none rfl
      refine holds.of_same rfl ?_ (dataFor?_filter_of_ne different _)
      obtain ⟨kept, membership, rfl⟩ := Metadata.mem_numbers.mp listed
      exact Metadata.mem_numbers.mpr
        ⟨kept, List.mem_filter.mpr ⟨membership, by simpa using different⟩, rfl⟩
  | encryptionSet empty => exact holds

/-- Carry out operations one after another, whether or not they succeed. -/
def run (keySet : KeySet) (operations : List Operation) : KeySet :=
  operations.foldl (fun keySet operation => (operation.apply keySet).2) keySet

/-- No removal of the version succeeds in a run of operations. -/
def Keeps (keySet : KeySet) (number : UInt32) (operations : List Operation) : Prop :=
  ∀ before after, operations = before ++ .remove number :: after →
    ∀ added, ((Operation.remove number).apply (keySet.run before)).1 ≠ .ok added

/-- A version that is not removed holds its key through a whole run. -/
theorem Holds.run {keySet : KeySet} {number : UInt32} {key : Key}
    (holds : keySet.Holds number key) {operations : List Operation}
    (keeps : keySet.Keeps number operations) : (keySet.run operations).Holds number key := by
  induction operations generalizing keySet with
  | nil => exact holds
  | cons operation operations inductionHypothesis =>
      refine inductionHypothesis (holds.apply ?_) ?_
      · rintro rfl
        exact keeps [] operations rfl
      · intro before after equality
        exact keeps (operation :: before) after (by rw [equality, List.cons_append])

end VersionedKeys.KeySet
