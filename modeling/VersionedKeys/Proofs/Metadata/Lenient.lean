import VersionedKeys.Proofs.Metadata.Codec

/-!
# Metadata from other writers

However the fields of metadata are written, and whatever else stands among them, it is read exactly
if each of its fields is given once: `Metadata.decoding_depends_on_fields`.
-/

namespace VersionedKeys

open Cbor

namespace Metadata

/-- Decoding depends on nothing but the fields.  In every encoding of entries in a map, whatever
their order, with containers of definite or indefinite length, headers of any width, the name in any
segments, tags in front of values, keys and containers, and entries under other keys that can be
passed over, metadata is read exactly if each of its fields and of the fields of its versions is
given once, and it follows the rules.  If one of the fields is missing, or given more than once,
that is the fault. -/
theorem decoding_depends_on_fields {entries : List Entry} {bytes : Bytes}
    (form : MapForm entries bytes) (rest : Bytes) :
    (∀ metadata, ofBytes (bytes ++ rest) = .ok metadata ↔
      Gives entries metadata ∧ metadata.Valid) ∧
    (Miscounts entries → ∃ fault, Fault.OfFields fault ∧
      ofBytes (bytes ++ rest) = .error (.keySet (.undecodableMetadata fault))) := by
  rw [ofBytes, decode_eq_ofEntries form]
  constructor
  · intro metadata
    simp only [Outcome.bind_eq_ok, Outcome.mapError_eq_ok, ofEntries_eq_ok_iff]
    constructor
    · rintro ⟨_, gives, _, valid, ⟨⟩⟩
      exact ⟨gives, validate_eq_ok_iff_valid.mp valid⟩
    · rintro ⟨gives, valid⟩
      exact ⟨metadata, gives, (), validate_eq_ok_iff_valid.mpr valid, rfl⟩
  · intro miscounts
    obtain ⟨fault, ofFields, refused⟩ := exists_ofFields_of_miscounts miscounts
    refine ⟨fault, ofFields, ?_⟩
    rw [refused]
    rfl

end Metadata

namespace Sample

/-- Metadata with one version. -/
def lone : Metadata where
  name := "ab"
  purpose := .signAndVerify
  keyType := .hmacSha1
  versions := [⟨1, .primary, false⟩]

/-- A version in a map that is left to a stop, with a number in more bytes than it needs. -/
def loneVersion : Bytes :=
  [0xBF] ++ ([writeText "exportable" ++ [0xF4], writeText "versionNumber" ++ [0x19, 0, 1],
    writeText "status" ++ writeText "PRIMARY"].flatten ++ [0xFF])

/-- The fields in another order, among them an array that is ignored, with tags in front of the
name, which comes in two segments. -/
def scattered : List (Metadata.Entry × Bytes) :=
  [(.ignored, writeText "note" ++ [0x9F, 0x20, 0xFF]),
    (.versions [[.exportable false, .number 1, .status .primary]],
      writeText "versions" ++ ([0x81] ++ loneVersion)),
    (.encrypted false, writeText "encrypted" ++ [0xF4]),
    (.name "ab", ([0xC1] ++ writeText "name") ++
      ([0xD8, 0x20] ++ [0x7F, 0x61, 0x61, 0x78, 1, 0x62, 0xFF])),
    (.keyType .hmacSha1, writeText "type" ++ writeText "HMAC_SHA1"),
    (.purpose .signAndVerify, writeText "purpose" ++ writeText "SIGN_AND_VERIFY")]

/-- Entries in a map that is left to a stop. -/
def mapOf (entries : List (Metadata.Entry × Bytes)) : Bytes :=
  [0xBF] ++ ((entries.map (·.2)).flatten ++ [0xFF])

open Metadata

theorem mapForm_loneVersion :
    KeyVersion.MapForm [.exportable false, .number 1, .status .primary] loneVersion := by
  refine ⟨_, ?_, .of_form (.indefinite (.unargued (show 5 < 7 by decide) rfl))⟩
  refine .cons ?_ (.cons ?_ (.cons ?_ .nil))
  · exact .exportable (labelForm_writeText (by decide)) (.of_form (boolForm_writeBool false))
  · exact .number (labelForm_writeText (by decide))
      (.of_form (.argued (show 0 < 7 by decide) rfl (@ArgumentForm.behind 0 25 [0, 1] (by decide))))
  · exact .status (labelForm_writeText (by decide)) (.of_form (textForm_tag KeyStatus.primary))

theorem ignorable_note : Ignorable (nestingLimit - 1) [0x9F, 0x20, 0xFF] := by
  have number : Ignorable 254 [0x20] :=
    .negative (.argued (show 1 < 7 by decide) rfl (.inFirst (show 0 < 24 by decide)))
  have list : ContainerForm .array [[0x20]] [0x9F, 0x20, 0xFF] :=
    .indefinite (.unargued (show 4 < 7 by decide) rfl)
  exact .array (List.forall_mem_singleton.mpr number) list

theorem segmentedForm_name : SegmentedForm "ab" [0x7F, 0x61, 0x61, 0x78, 1, 0x62, 0xFF] := by
  have first : StringForm .text [0x61, 0x61] [[0x61]] :=
    @StringForm.definite .text [0x61] [0x61] (@ArgumentForm.inFirst 3 1 (by decide))
  have second : StringForm .text [0x78, 1, 0x62] [[0x62]] :=
    @StringForm.definite .text [0x78, 1] [0x62] (@ArgumentForm.behind 3 24 [1] (by decide))
  refine ⟨[[0x61], [0x62]], ?_, ?_, by decide⟩
  · refine @StringForm.segmented .text [([0x61, 0x61], [[0x61]]), ([0x78, 1, 0x62], [[0x62]])] ?_
    intro item membership
    obtain rfl | rfl := List.mem_pair.mp membership
    · exact first
    · exact second
  · intro content membership
    obtain rfl | rfl := List.mem_pair.mp membership
    · exact ⟨"a", by decide⟩
    · exact ⟨"b", by decide⟩

theorem forms_scattered : ∀ entry ∈ scattered, entry.1.Form entry.2 := by
  have tag : Tags [0xC1] :=
    .cons (show 1 ≠ 2 ∧ 1 ≠ 3 by decide)
      (.argued (show 6 < 7 by decide) rfl (.inFirst (show 1 < 24 by decide))) .nil
  have wideTag : Tags [0xD8, 0x20] :=
    .cons (show 32 ≠ 2 ∧ 32 ≠ 3 by decide)
      (.argued (show 6 < 7 by decide) rfl (@ArgumentForm.behind 6 24 [0x20] (by decide))) .nil
  have name : TextForm "name" (writeText "name") := textForm_writeText (by decide)
  have versions : ListForm .array KeyVersion.MapForm
      [[.exportable false, .number 1, .status .primary]] ([0x81] ++ loneVersion) := by
    have head : HeaderForm (.array (some 1)) [0x81] :=
      .argued (show 4 < 7 by decide) rfl (.inFirst (show 1 < 24 by decide))
    have list : ContainerForm .array [loneVersion] ([0x81] ++ [loneVersion].flatten) :=
      .definite head
    rw [List.flatten_cons, List.flatten_nil, List.append_nil] at list
    exact ⟨[loneVersion], .cons mapForm_loneVersion .nil, .of_form list⟩
  simp only [scattered, List.forall_mem_cons]
  refine ⟨?_, ?_, ?_, ?_, ?_, ?_, by simp⟩
  · exact @Entry.Form.ignored "note" _ _ (by decide) (by decide) (labelForm_writeText (by decide))
      ignorable_note
  · exact .versions (labelForm_writeText (by decide)) versions
  · exact .encrypted (labelForm_writeText (by decide)) (.of_form (boolForm_writeBool false))
  · exact .name ⟨_, _, tag, name, rfl⟩ ⟨_, _, wideTag, segmentedForm_name, rfl⟩
  · exact .keyType (labelForm_writeText (by decide)) (.of_form (textForm_tag KeyType.hmacSha1))
  · exact .purpose (labelForm_writeText (by decide))
      (.of_form (textForm_tag KeyPurpose.signAndVerify))

theorem mapForm_mapOf {entries : List (Metadata.Entry × Bytes)}
    (forms : ∀ entry ∈ entries, entry.1.Form entry.2) :
    Metadata.MapForm (entries.map (·.1)) (mapOf entries) := by
  refine ⟨entries.map (·.2), ?_, .of_form (.indefinite (.unargued (show 5 < 7 by decide) rfl))⟩
  exact List.forall₂_map_left_iff.mpr (List.forall₂_map_right_iff.mpr
    (List.forall₂_same.mpr forms))

end Sample

/-- Scattered fields, and the same with the name once more. -/
theorem Metadata.decoding_depends_on_fields_sample :
    Metadata.ofBytes (Sample.mapOf Sample.scattered ++ [0]) = .ok Sample.lone ∧
    ∃ fault, Fault.OfFields fault ∧
      Metadata.ofBytes (Sample.mapOf (Sample.scattered ++ Sample.scattered) ++ [0]) =
        .error (.keySet (.undecodableMetadata fault)) := by
  constructor
  · refine ((decoding_depends_on_fields (Sample.mapForm_mapOf Sample.forms_scattered) [0]).1
      Sample.lone).mpr ⟨⟨rfl, rfl, rfl, rfl, _, rfl, ?_⟩, ?_⟩
    · exact .cons ⟨rfl, rfl, rfl⟩ .nil
    · exact ⟨by decide, by decide, by decide, by decide⟩
  · have twice : ∀ entry ∈ Sample.scattered ++ Sample.scattered, entry.1.Form entry.2 := by
      intro entry membership
      exact Sample.forms_scattered entry ((List.mem_append.mp membership).elim id id)
    exact (decoding_depends_on_fields (Sample.mapForm_mapOf twice) [0]).2 (.name (by decide))

end VersionedKeys
