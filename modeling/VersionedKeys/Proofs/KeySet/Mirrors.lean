import Mathlib.Data.List.Forall2
import VersionedKeys.Proofs.KeySet.Invariant
import VersionedKeys.Proofs.Outcomes

/-!
# Plain and encrypted key sets

A plain key set and one whose data is encrypted, on which the same is done, stay each other's
mirror images: the same versions, and data that is decrypted to that of the plain one.  One
change keeps them so (`Mirrors.apply`), and with it any number of changes (`Mirrors.run`).
-/

namespace VersionedKeys

namespace KeySet

/-- What is done to a key set, whether or not its data is encrypted. -/
inductive Change where
  | add (status : KeyStatus) (key : Key)
  | setStatus (number : UInt32) (status : KeyStatus)
  | remove (number : UInt32)

namespace Change

/-- The change of a key set whose data is plain. -/
def plain : Change → Operation
  | add status key => .addKey status key
  | setStatus number status => .setStatus number status
  | remove number => .remove number

/-- The change of a key set whose data is encrypted. -/
def sealed (encrypt : Bytes → Random → Except Error Bytes × Random) (random : Random) :
    Change → Operation
  | add status key => .addEncryptedKey status key encrypt random
  | setStatus number status => .setStatus number status
  | remove number => .remove number

end Change

/-- All operations of a run succeed. -/
def Succeeds (keySet : KeySet) : List Operation → Prop
  | [] => True
  | operation :: operations =>
      (∃ added, (operation.apply keySet).1 = .ok added) ∧
        Succeeds (operation.apply keySet).2 operations

/-- Two key sets differ in that the data of the second is encrypted. -/
structure Mirrors (reveal : Bytes → Except Error Bytes) (plain sealed : KeySet) : Prop where
  isPlain : plain.metadata.encrypted = false
  metadata : sealed.metadata = { plain.metadata with encrypted := true }
  data : List.Forall₂ (fun left right => left.1 = right.1 ∧ reveal right.2 = .ok left.2)
    plain.data sealed.data

namespace Mirrors

variable {reveal : Bytes → Except Error Bytes}

/-- Two outcomes are the same, and leave key sets that mirror each other. -/
def Along {Result : Type} (reveal : Bytes → Except Error Bytes)
    (plain sealed : Except Error Result × KeySet) : Prop :=
  plain.1 = sealed.1 ∧ Mirrors reveal plain.2 sealed.2

theorem Along.map {Result Other : Type} {plain sealed : Except Error Result × KeySet}
    (along : Along reveal plain sealed) (change : Result → Other) :
    Along reveal (plain.map (·.map change) id) (sealed.map (·.map change) id) :=
  ⟨congrArg (·.map change) along.1, along.2⟩

section Changes

variable {plain sealed : KeySet} (mirrors : Mirrors reveal plain sealed)

include mirrors

theorem nextNumber_eq : sealed.metadata.nextNumber = plain.metadata.nextNumber := by
  rw [mirrors.metadata]
  rfl

theorem version?_eq (number : UInt32) :
    sealed.metadata.version? number = plain.metadata.version? number := by
  rw [mirrors.metadata]
  rfl

/-- Data that is added to both is added under the same number. -/
theorem addData (status : KeyStatus) {plainData sealedData : Bytes}
    (revealed : reveal sealedData = .ok plainData) :
    Along reveal (plain.addData status plainData) (sealed.addData status sealedData) := by
  rw [KeySet.addData, KeySet.addData, mirrors.nextNumber_eq]
  cases plain.metadata.nextNumber with
  | error error => exact ⟨rfl, mirrors⟩
  | ok number =>
      refine ⟨rfl, mirrors.isPlain, ?_, .cons ⟨rfl, revealed⟩ mirrors.data⟩
      simp only [mirrors.metadata]

theorem setStatus (number : UInt32) (status : KeyStatus) :
    Along reveal (plain.setStatus number status) (sealed.setStatus number status) := by
  rw [KeySet.setStatus, KeySet.setStatus, mirrors.version?_eq]
  cases plain.metadata.version? number with
  | none => exact ⟨rfl, mirrors⟩
  | some version =>
      refine ⟨rfl, mirrors.isPlain, ?_, mirrors.data⟩
      simp only [mirrors.metadata]

theorem remove (number : UInt32) :
    Along reveal (plain.remove number) (sealed.remove number) := by
  rw [KeySet.remove, KeySet.remove, mirrors.version?_eq]
  cases plain.metadata.version? number with
  | none => exact ⟨rfl, mirrors⟩
  | some version =>
      dsimp only
      split
      · refine ⟨rfl, mirrors.isPlain, ?_, List.rel_filter ?_ mirrors.data⟩
        · simp only [mirrors.metadata]
        · rintro ⟨leftNumber, leftData⟩ ⟨rightNumber, rightData⟩ ⟨rfl, -⟩
          exact Iff.rfl
      · exact ⟨rfl, mirrors⟩

/-- A key that can be added encrypted can be added as it is. -/
theorem addKey (status : KeyStatus) (key : Key)
    {encrypt : Bytes → Random → Except Error Bytes × Random} {random : Random}
    (inverts : ∀ data, (encrypt key.toBytes random).1 = .ok data → reveal data = .ok key.toBytes)
    {number : UInt32}
    (added : (sealed.addEncryptedKey status key encrypt random).1.1 = .ok number) :
    Along reveal (plain.addKey status key)
      (sealed.addEncryptedKey status key encrypt random).1 := by
  have sameType : sealed.metadata.keyType = plain.metadata.keyType := by rw [mirrors.metadata]
  rw [addEncryptedKey, checkEncrypted, checkType, sameType] at added ⊢
  rw [KeySet.addKey, checkPlain, checkType, mirrors.isPlain]
  -- Both sides check the type and the mark, but only one encrypts, which can fail as well.
  by_cases suited : key.keyType = plain.metadata.keyType
  · generalize encrypt key.toBytes random = result at inverts added ⊢
    obtain ⟨outcome, after⟩ := result
    have encrypted : sealed.metadata.encrypted = true := by rw [mirrors.metadata]
    cases outcome with
    | error error => simp [suited, encrypted] at added
    | ok data => simpa [suited, encrypted] using mirrors.addData status (inverts data rfl)
  · simp [suited] at added

/-- A change that succeeds where data is encrypted has the same outcome where it is plain. -/
theorem apply (change : Change) {encrypt : Bytes → Random → Except Error Bytes × Random}
    {random : Random}
    (inverts : ∀ status key, change = .add status key → ∀ data,
      (encrypt key.toBytes random).1 = .ok data → reveal data = .ok key.toBytes)
    {added : Option UInt32}
    (succeeds : ((change.sealed encrypt random).apply sealed).1 = .ok added) :
    Along reveal (change.plain.apply plain) ((change.sealed encrypt random).apply sealed) := by
  cases change with
  | add status key =>
      obtain ⟨number, made, -⟩ := Outcome.map_eq_ok.mp succeeds
      exact (mirrors.addKey status key (inverts status key rfl) made).map some
  | setStatus number status => exact (mirrors.setStatus number status).map _
  | remove number => exact (mirrors.remove number).map _

end Changes

/-- What succeeds where data is encrypted succeeds where it is plain, and leaves mirror
images. -/
theorem run {plain sealed : KeySet} (mirrors : Mirrors reveal plain sealed)
    {Draw : Type} (encrypt : Draw → Bytes → Random → Except Error Bytes × Random)
    (random : Draw → Random) {changes : List (Change × Draw)}
    (inverts : ∀ entry ∈ changes, ∀ status key, entry.1 = .add status key → ∀ data,
      (encrypt entry.2 key.toBytes (random entry.2)).1 = .ok data →
        reveal data = .ok key.toBytes)
    (succeeds : sealed.Succeeds
      (changes.map fun entry => entry.1.sealed (encrypt entry.2) (random entry.2))) :
    plain.Succeeds (changes.map fun entry => entry.1.plain) ∧
      Mirrors reveal (plain.run (changes.map fun entry => entry.1.plain))
        (sealed.run
          (changes.map fun entry => entry.1.sealed (encrypt entry.2) (random entry.2))) := by
  induction changes generalizing plain sealed with
  | nil => exact ⟨trivial, mirrors⟩
  | cons entry changes inductionHypothesis =>
      obtain ⟨⟨added, first⟩, later⟩ := succeeds
      obtain ⟨same, after⟩ := mirrors.apply entry.1 (inverts entry List.mem_cons_self) first
      have rest := inductionHypothesis after
        (fun other membership => inverts other (List.mem_cons_of_mem _ membership)) later
      exact ⟨⟨⟨added, same.trans first⟩, rest.1⟩, rest.2⟩

/-- Data of a version is found on both sides or on neither. -/
theorem dataFor?_cases {left right : List (UInt32 × Bytes)}
    (data : List.Forall₂ (fun left right => left.1 = right.1 ∧ reveal right.2 = .ok left.2)
      left right) (number : UInt32) :
    (∃ plainData sealedData, KeySet.dataFor? left number = some plainData ∧
      KeySet.dataFor? right number = some sealedData ∧ reveal sealedData = .ok plainData) ∨
    KeySet.dataFor? left number = none ∧ KeySet.dataFor? right number = none := by
  induction data with
  | nil => exact .inr ⟨rfl, rfl⟩
  | @cons first second left right related later inductionHypothesis =>
      obtain ⟨firstNumber, plainData⟩ := first
      obtain ⟨secondNumber, sealedData⟩ := second
      obtain ⟨rfl, revealed⟩ := related
      by_cases same : firstNumber = number
      · subst same
        exact .inl ⟨plainData, sealedData, by simp [KeySet.dataFor?], by simp [KeySet.dataFor?],
          revealed⟩
      · rw [dataFor?_cons_of_ne same, dataFor?_cons_of_ne same]
        exact inductionHypothesis

theorem keyData_eq {plain sealed : KeySet} (mirrors : Mirrors reveal plain sealed)
    (number : UInt32) : (sealed.keyData number >>= reveal) = plain.keyData number := by
  rw [keyData, keyData]
  rcases dataFor?_cases mirrors.data number with
    ⟨plainData, sealedData, plainFound, sealedFound, revealed⟩ | ⟨plainMissing, sealedMissing⟩
  · simp only [plainFound, sealedFound, Outcome.ok_bind, revealed]
  · simp only [plainMissing, sealedMissing, Outcome.error_bind]

/-- A key set that is made stays plain, or is marked while there is nothing in it. -/
theorem of_create {name : String} {purpose : KeyPurpose} {keyType : KeyType} {fresh : KeySet}
    (created : create name purpose keyType = .ok fresh) :
    Mirrors reveal fresh (fresh.setEncrypted true).2 := by
  obtain ⟨nothing, -, made⟩ := Outcome.bind_eq_ok.mp created
  cases made
  exact ⟨rfl, rfl, .nil⟩

end Mirrors

end KeySet

end VersionedKeys
