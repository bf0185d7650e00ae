import VersionedKeys.Proofs.KeySet.Validity
import VersionedKeys.Proofs.Metadata.Maps
import VersionedKeys.Proofs.Metadata.Values

/-!
# Metadata as bytes

All metadata is decoded from its bytes (`decode_toBytes`), so that reading it back depends on
nothing but the rules that every key set follows: `reads_exactly_valid`.
-/

namespace VersionedKeys

open Cbor

namespace Metadata

/-- Items are written behind a header with their number. -/
theorem listForm_encodeHeader {Item : Type} {container : Option Nat → Header} {major : Nat}
    {Form : Item → Bytes → Prop} {items : List Item} {written : List Bytes}
    (few : written.length < 2 ^ 64) (below : major < 7)
    (made : ∀ count, Header.ofArgument? major (some count) = some (container (some count)))
    (forms : List.Forall₂ Form items written) :
    ListForm container Form items (encodeHeader major written.length ++ written.flatten) :=
  ⟨written, forms, .of_form (.definite (headerForm_encodeHeader few below (made _)))⟩

/-- Fields are written as a map whose entries are their names and values. -/
theorem listForm_writeFields {Entry : Type} {Form : Entry → Bytes → Prop} {entries : List Entry}
    {fields : List (String × Bytes)} (few : fields.length < 2 ^ 64)
    (forms : List.Forall₂ (fun entry field => Form entry (writeText field.1 ++ field.2)) entries
      fields) :
    ListForm .map Form entries (writeFields fields) := by
  have written := listForm_encodeHeader (by rwa [List.length_map]) (show 5 < 7 by decide)
    (fun _ => rfl) (List.forall₂_map_right_iff.mpr forms)
  rwa [List.length_map, ← List.flatMap_def] at written

theorem labelForm_writeText {label : String} (short : (Utf8.encode label).length ≤ stringCapacity) :
    LabelForm label (writeText label) := by
  refine .of_form (textForm_writeText ?_)
  rw [stringCapacity] at short
  omega

end Metadata

open Metadata

namespace KeyVersion

/-- The fields of a version in the order they are written in. -/
def ownEntries (version : KeyVersion) : List Entry :=
  [.number version.number, .status version.status, .exportable version.exportable]

theorem gives_ownEntries (version : KeyVersion) : Gives version.ownEntries version :=
  ⟨rfl, rfl, rfl⟩

theorem mapForm_writeFields (version : KeyVersion) :
    MapForm version.ownEntries (writeFields version.fields) := by
  refine listForm_writeFields (show 3 < 2 ^ 64 by decide) ?_
  refine .cons ?_ (.cons ?_ (.cons ?_ .nil))
  · exact .number (labelForm_writeText (by decide)) (.of_form (numberForm_writeNumber _))
  · exact .status (labelForm_writeText (by decide)) (.of_form (textForm_tag _))
  · exact .exportable (labelForm_writeText (by decide)) (.of_form (boolForm_writeBool _))

end KeyVersion

namespace Metadata

/-- The fields of metadata in the order they are written in. -/
def ownEntries (metadata : Metadata) : List Entry :=
  [.name metadata.name, .purpose metadata.purpose, .keyType metadata.keyType,
    .encrypted metadata.encrypted, .versions (metadata.versions.map KeyVersion.ownEntries)]

theorem gives_ownEntries (metadata : Metadata) : Gives metadata.ownEntries metadata := by
  refine ⟨rfl, rfl, rfl, rfl, _, rfl, List.forall₂_map_left_iff.mpr ?_⟩
  exact List.forall₂_same.mpr fun version _ => version.gives_ownEntries

theorem listForm_versions {versions : List KeyVersion} (few : versions.length < 2 ^ 64) :
    ListForm .array KeyVersion.MapForm (versions.map KeyVersion.ownEntries)
      (writeArray versions.length ++
        versions.flatMap fun version => writeFields version.fields) := by
  have forms : List.Forall₂ KeyVersion.MapForm (versions.map KeyVersion.ownEntries)
      (versions.map fun version => writeFields version.fields) := by
    refine List.forall₂_map_left_iff.mpr (List.forall₂_map_right_iff.mpr ?_)
    exact List.forall₂_same.mpr fun version _ => version.mapForm_writeFields
  have written := listForm_encodeHeader (by rwa [List.length_map]) (show 4 < 7 by decide)
    (fun _ => rfl) forms
  rwa [List.length_map, ← List.flatMap_def] at written

/-- What is written as metadata is a map of its fields, if its name and its versions can be
counted. -/
theorem mapForm_toBytes {metadata : Metadata} (small : (Utf8.encode metadata.name).length < 2 ^ 64)
    (few : metadata.versions.length < 2 ^ 64) : MapForm metadata.ownEntries metadata.toBytes := by
  refine listForm_writeFields (show 5 < 2 ^ 64 by decide) ?_
  refine .cons ?_ (.cons ?_ (.cons ?_ (.cons ?_ (.cons ?_ .nil))))
  · exact .name (labelForm_writeText (by decide)) (.of_form (segmentedForm_writeText small))
  · exact .purpose (labelForm_writeText (by decide)) (.of_form (textForm_tag _))
  · exact .keyType (labelForm_writeText (by decide)) (.of_form (textForm_tag _))
  · exact .encrypted (labelForm_writeText (by decide)) (.of_form (boolForm_writeBool _))
  · exact .versions (labelForm_writeText (by decide)) (listForm_versions few)

/-- Metadata is decoded from its bytes, whether it follows the rules or not, and what follows
them does not count. -/
theorem decode_toBytes {metadata : Metadata} (small : (Utf8.encode metadata.name).length < 2 ^ 64)
    (few : metadata.versions.length < 2 ^ 64) (rest : Bytes) :
    decode (metadata.toBytes ++ rest) = .ok metadata := by
  rw [decode_eq_ofEntries (mapForm_toBytes small few), ofEntries_eq_ok_iff]
  exact metadata.gives_ownEntries

/-- The rules that every key set follows. -/
structure Valid (metadata : Metadata) : Prop where
  suited : metadata.keyType.supports metadata.purpose = true
  /-- At most one version is primary. -/
  single : metadata.versions.countP (fun version => version.status == .primary) ≤ 1
  numbered : ∀ version ∈ metadata.versions, version.number ≠ 0
  distinct : metadata.versions.Pairwise fun left right => left.number ≠ right.number

theorem validate_eq_ok_iff_valid {metadata : Metadata} :
    metadata.validate = .ok () ↔ metadata.Valid := by
  have numbered : 0 ∉ metadata.numbers ↔ ∀ version ∈ metadata.versions, version.number ≠ 0 := by
    simp only [mem_numbers, not_exists, not_and, ne_eq]
  have distinct : metadata.numbers.Nodup ↔
      metadata.versions.Pairwise fun left right => left.number ≠ right.number :=
    List.pairwise_map
  rw [validate_eq_ok_iff, numbered, distinct]
  constructor
  · rintro ⟨suited, single, numbered, distinct⟩
    exact ⟨suited, single, numbered, distinct⟩
  · rintro ⟨suited, single, numbered, distinct⟩
    exact ⟨suited, single, numbered, distinct⟩

theorem exists_keySet_of_checkNumbers {seen : List UInt32} {versions : List KeyVersion}
    {error : Error} (refused : checkNumbers seen versions = .error error) :
    ∃ fault, error = .keySet fault := by
  induction versions generalizing seen with
  | nil => cases refused
  | cons version versions inductionHypothesis =>
      rw [checkNumbers] at refused
      split at refused
      · cases refused
        exact ⟨_, rfl⟩
      · split at refused
        · cases refused
          exact ⟨_, rfl⟩
        · exact inductionHypothesis refused

/-- Metadata is refused for a fault of the key set. -/
theorem exists_keySet_of_validate {metadata : Metadata} {error : Error}
    (refused : metadata.validate = .error error) : ∃ fault, error = .keySet fault := by
  rw [validate] at refused
  split at refused
  · cases refused
    exact ⟨_, rfl⟩
  · split at refused
    · cases refused
      exact ⟨_, rfl⟩
    · exact exists_keySet_of_checkNumbers refused

/-- Metadata is read back from its bytes, whatever follows them, if it follows the rules, and
is refused with the fault that validation finds otherwise; all this if the bytes of its name and
its versions can be counted.  What is read, from any bytes, follows the rules. -/
theorem reads_exactly_valid :
    (∀ metadata : Metadata, (Utf8.encode metadata.name).length < 2 ^ 64 →
      metadata.versions.length < 2 ^ 64 → ∀ rest,
        (metadata.Valid → ofBytes (metadata.toBytes ++ rest) = .ok metadata) ∧
        (¬ metadata.Valid → ∃ fault, metadata.validate = .error (.keySet fault) ∧
          ofBytes (metadata.toBytes ++ rest) = .error (.keySet fault))) ∧
    ∀ bytes metadata, ofBytes bytes = .ok metadata → metadata.Valid := by
  constructor
  · intro metadata small few rest
    rw [ofBytes, decode_toBytes small few, Outcome.mapError_ok, Outcome.ok_bind]
    constructor
    · intro valid
      rw [validate_eq_ok_iff_valid.mpr valid, Outcome.ok_bind]
    · intro invalid
      cases outcome : metadata.validate with
      | ok done => exact absurd (validate_eq_ok_iff_valid.mp outcome) invalid
      | error error =>
          obtain ⟨fault, rfl⟩ := exists_keySet_of_validate outcome
          exact ⟨fault, rfl, rfl⟩
  · intro bytes metadata found
    obtain ⟨decoded, -, checked⟩ := Outcome.bind_eq_ok.mp found
    obtain ⟨done, valid, same⟩ := Outcome.bind_eq_ok.mp checked
    cases same
    exact validate_eq_ok_iff_valid.mp valid

end Metadata

namespace Sample

/-- Metadata with a name of characters of one to four bytes. -/
def multibyte : Metadata where
  name := "clé 鍵 🔑"
  purpose := .signAndVerify
  keyType := .hmacSha1
  versions := [⟨2, .primary, false⟩, ⟨4294967295, .inactive, true⟩]

/-- Metadata that lists the version zero. -/
def misnumbered : Metadata := { multibyte with versions := [⟨0, .active, false⟩] }

theorem valid_multibyte : multibyte.Valid :=
  ⟨by decide, by decide, by decide, by decide⟩

end Sample

theorem Metadata.reads_exactly_valid_sample :
    Metadata.ofBytes (Sample.multibyte.toBytes ++ [0]) = .ok Sample.multibyte ∧
      Metadata.ofBytes Sample.misnumbered.toBytes = .error (.keySet .versionZero) ∧
      Sample.multibyte.Valid := by
  obtain ⟨written, read⟩ := Metadata.reads_exactly_valid
  have restored := (written Sample.multibyte (by decide) (by decide) [0]).1 Sample.valid_multibyte
  obtain ⟨fault, found, refused⟩ := (written Sample.misnumbered (by decide) (by decide) []).2
    fun valid => valid.numbered _ List.mem_cons_self rfl
  cases found
  rw [List.append_nil] at refused
  exact ⟨restored, refused, read _ _ restored⟩

end VersionedKeys
