import VersionedKeys.Proofs.Cbor.Items

/-!
# Tags that are read back

The values of a choice have different tags, and all of them are listed, so that a tag tells
the value: `parse_tag`.  Tags are short texts, which are read back from containers:
`readText_writeText_tag`.
-/

namespace VersionedKeys.Tagged

/-- Every value of a choice is found by its tag, which is a short text. -/
class Lawful (Choice : Type) [Tagged Choice] : Prop where
  ofTag?_tag : ∀ choice : Choice, ofTag? (tag choice) = some choice
  length_encode_tag_le : ∀ choice : Choice, (Utf8.encode (tag choice)).length ≤ 19

instance : Lawful KeyType :=
  ⟨fun keyType => by cases keyType <;> decide, fun keyType => by cases keyType <;> decide⟩

instance : Lawful KeyPurpose :=
  ⟨fun purpose => by cases purpose <;> decide, fun purpose => by cases purpose <;> decide⟩

instance : Lawful KeyStatus :=
  ⟨fun status => by cases status <;> decide, fun status => by cases status <;> decide⟩

variable {Choice : Type} [Tagged Choice] [Lawful Choice]

theorem parse_tag (choice : Choice) : Tagged.parse (tag choice) = .ok choice := by
  rw [Tagged.parse, Lawful.ofTag?_tag]

theorem parse_eq_ok_iff {text : String} {choice : Choice} :
    Tagged.parse text = .ok choice ↔ text = tag choice := by
  constructor
  · intro parsed
    rw [Tagged.parse] at parsed
    split at parsed
    · next found =>
        cases parsed
        have same := List.find?_some found
        exact (eq_of_beq same).symm
    · cases parsed
  · rintro rfl
    exact parse_tag choice

theorem length_encode_tag_lt (choice : Choice) : (Utf8.encode (tag choice)).length < 2 ^ 64 := by
  have short := Lawful.length_encode_tag_le choice
  omega

theorem readText_writeText_tag (choice : Choice) (element : String) (rest : Bytes)
    (offset : Nat) :
    Cbor.readText element ⟨Cbor.writeText (tag choice) ++ rest, offset⟩ =
      .ok (tag choice, ⟨rest, offset + (Cbor.writeText (tag choice)).length⟩) :=
  Cbor.readText_writeText element rest offset (length_encode_tag_lt choice)

end VersionedKeys.Tagged
