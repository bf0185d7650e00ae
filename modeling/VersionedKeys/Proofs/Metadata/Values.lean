import VersionedKeys.Metadata.Encoding
import VersionedKeys.Proofs.Metadata.Forms

/-!
# Values of metadata as they are written

What is written has one of the forms that are read: headers are the shortest, texts come in one
piece, and there are no tags.
-/

namespace VersionedKeys.Metadata

open Cbor

theorem BehindTags.of_form {Form : Bytes → Prop} {item : Bytes} (form : Form item) :
    BehindTags Form item :=
  ⟨[], item, .nil, form, rfl⟩

theorem headerForm_encodeHeader {major argument : Nat} {header : Header}
    (small : argument < 2 ^ 64) (below : major < 7)
    (made : Header.ofArgument? major (some argument) = some header) :
    HeaderForm header (encodeHeader major argument) :=
  .argued below made (argumentForm_encodeHeader major small)

section Texts

variable {text : String} (small : (Utf8.encode text).length < 2 ^ 64)

include small

theorem textForm_writeText : TextForm text (writeText text) :=
  ⟨_, headerForm_encodeHeader small (show 3 < 7 by decide) rfl, rfl⟩

theorem segmentedForm_writeText : SegmentedForm text (writeText text) := by
  refine ⟨[Utf8.encode text], .definite (argumentForm_encodeHeader 3 small), ?_, ?_⟩
  · exact List.forall_mem_singleton.mpr ⟨text, rfl⟩
  · rw [List.flatten_cons, List.flatten_nil, List.append_nil]

end Texts

theorem textForm_tag {Choice : Type} [Tagged Choice] [Tagged.Lawful Choice] (choice : Choice) :
    TextForm (Tagged.tag choice) (writeText (Tagged.tag choice)) :=
  textForm_writeText (Tagged.length_encode_tag_lt choice)

theorem boolForm_writeBool (value : Bool) : BoolForm value (writeBool value) := by
  cases value with
  | false => exact .other (.inFirst (show 20 < 24 by decide))
  | true => exact .other (.inFirst (show 21 < 24 by decide))

theorem numberForm_writeNumber (number : UInt32) :
    NumberForm number (writeNumber number.toUInt64) := by
  refine headerForm_encodeHeader number.toUInt64.toNat_lt (show 0 < 7 by decide) ?_
  rw [UInt32.toNat_toUInt64]
  rfl

end VersionedKeys.Metadata
