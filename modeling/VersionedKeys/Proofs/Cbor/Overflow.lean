import VersionedKeys.Proofs.Cbor.Reading
import VersionedKeys.Proofs.Kinds

/-!
# Byte strings that announce too much

Before a byte string is read a buffer is asked for that is as large as its header says.  Where the
header says more than any buffer can hold, and the bytes are not there, reading does not come back.
Arrays of byte strings for which this happens are described by `Overflows`, and there are no others:
`decodeByteStrings_eq_stopped_iff`.
-/

namespace VersionedKeys.Cbor

open Header Outcome

/-- A byte string begins whose header announces more than a buffer can hold. -/
def Excess (bytes : Bytes) : Prop :=
  ∃ length head following, ArgumentForm StringKind.bytes.major length head ∧
    bytes = head ++ following ∧ AnnouncesTooMuch (some length) following

/-- Of as many byte strings as are expected, some are there, and the next one is excessive. -/
inductive ExcessAmong : (expected : Nat) → Bytes → Prop where
  | here {expected : Nat} {bytes : Bytes} (excess : Excess bytes) : ExcessAmong (expected + 1) bytes
  | later {expected : Nat} {form rest : Bytes} {contents : List Bytes}
      (string : StringForm .bytes form contents) (later : ExcessAmong expected rest) :
      ExcessAmong (expected + 1) (form ++ rest)

/-- An array of as many byte strings as are expected, of which one is excessive. -/
def Overflows (expected : Nat) (bytes : Bytes) : Prop :=
  ∃ head strings, ArgumentForm 4 expected head ∧ bytes = head ++ strings ∧
    ExcessAmong expected strings

section Readers

variable {Value : Type} {element : String} {reader next : Reader} {reason : Stop}

theorem returns_inElement (outcome : Except Fault Value) : Returns (inElement element outcome) :=
  returns_mapError (by simp)

/-- The header of a byte string is all that decides whether a buffer is too large. -/
theorem readBytes_eq_stopped_iff :
    readBytes element reader = .error (.stopped reason) ↔
      reason = .capacityOverflow ∧ Excess reader.rest := by
  rw [readBytes, bind_eq_stopped_iff]
  constructor
  · rintro (stopped | ⟨⟨header, after⟩, pulled, stopped⟩)
    · exact absurd stopped (returns_inElement _ _)
    · dsimp only at stopped
      split at stopped
      · next length? =>
          split at stopped
          · next tooMuch =>
              cases stopped
              have announces : StringKind.bytes.announced? (.bytes length?) = some length? := rfl
              obtain ⟨head, split, -, announced⟩ :=
                exists_form_of_announced (mapError_eq_ok.mp pulled) announces
              cases length? with
              | none => cases tooMuch.1
              | some length => exact ⟨rfl, length, head, after.rest, announced, split, tooMuch⟩
          · exact absurd stopped (returns_inElement _ _)
      · cases stopped
  · rintro ⟨rfl, length, head, following, announced, split, tooMuch⟩
    have pulled := announced.pull_string following reader.offset
    rw [← split] at pulled
    exact .inr ⟨_, mapError_eq_ok.mpr pulled, if_pos tooMuch⟩

theorem readByteStrings_eq_stopped_iff {count : Nat} :
    readByteStrings element count reader = .error (.stopped reason) ↔
      reason = .capacityOverflow ∧ ExcessAmong count reader.rest := by
  induction count generalizing reader with
  | zero =>
      constructor
      · rintro ⟨⟩
      · rintro ⟨-, ⟨⟩⟩
  | succ count inductionHypothesis =>
      rw [readByteStrings, bind_eq_stopped_iff, readBytes_eq_stopped_iff]
      constructor
      · rintro (⟨rfl, excess⟩ | ⟨⟨part, after⟩, read, stopped⟩)
        · exact ⟨rfl, .here excess⟩
        · obtain ⟨form, contents, string, -, split, -⟩ := readBytes_eq_ok_iff.mp read
          rcases bind_eq_stopped_iff.mp stopped with stopped | ⟨parts, -, ⟨⟩⟩
          obtain ⟨rfl, later⟩ := inductionHypothesis.mp stopped
          exact ⟨rfl, split ▸ .later string later⟩
      · rintro ⟨rfl, among⟩
        generalize input : reader.rest = bytes at among
        cases among with
        | here excess => exact .inl ⟨rfl, excess⟩
        | @later _ form rest contents string later =>
            have read : readBytes element reader =
                .ok (contents.flatten, ⟨rest, reader.offset + form.length⟩) :=
              readBytes_eq_ok_iff.mpr ⟨form, contents, string, rfl, input, rfl⟩
            have stopped : readByteStrings element count ⟨rest, reader.offset + form.length⟩ =
                .error (.stopped .capacityOverflow) := inductionHypothesis.mpr ⟨rfl, later⟩
            exact .inr ⟨_, read, bind_eq_stopped_iff.mpr (.inl stopped)⟩

/-- The header of an array of the right number of items is read, in any of its forms. -/
theorem readArray_eq_ok_iff {count : Nat} :
    readArray element count reader = .ok next ↔
      ∃ head, ArgumentForm 4 count head ∧ reader.rest = head ++ next.rest ∧
        next.offset = reader.offset + head.length := by
  rw [readArray, bind_eq_ok]
  constructor
  · rintro ⟨⟨header, after⟩, pulled, found⟩
    obtain ⟨head, written, split, behind⟩ := exists_headerForm_of_pull (mapError_eq_ok.mp pulled)
    dsimp only at found
    split at found
    · split at found
      · next same =>
          cases found
          exact ⟨head, same ▸ written.argumentForm rfl, split, behind⟩
      · cases found
    · cases found
    · cases found
  · rintro ⟨head, counted, split, behind⟩
    have pulled := HeaderForm.pull (.argued (by decide) rfl counted) next.rest reader.offset
    rw [← split, ← behind] at pulled
    exact ⟨_, mapError_eq_ok.mpr pulled, if_pos rfl⟩

/-- A number is read, in any of its forms. -/
theorem readNumber_eq_ok_iff {value : UInt64} :
    readNumber element reader = .ok (value, next) ↔
      ∃ argument form, ArgumentForm 0 argument form ∧ UInt64.ofNat argument = value ∧
        reader.rest = form ++ next.rest ∧ next.offset = reader.offset + form.length := by
  rw [readNumber, bind_eq_ok]
  constructor
  · rintro ⟨⟨header, after⟩, pulled, found⟩
    obtain ⟨form, written, split, behind⟩ := exists_headerForm_of_pull (mapError_eq_ok.mp pulled)
    dsimp only at found
    split at found
    · cases found
      exact ⟨_, form, written.argumentForm rfl, rfl, split, behind⟩
    · cases found
  · rintro ⟨argument, form, written, rfl, split, behind⟩
    have pulled := HeaderForm.pull (.argued (by decide) rfl written) next.rest reader.offset
    rw [← split, ← behind] at pulled
    exact ⟨_, mapError_eq_ok.mpr pulled, rfl⟩

theorem returns_readText : Returns (readText element reader) := by
  rw [readText]
  refine (returns_inElement _).bind ?_
  rintro ⟨header, after⟩
  dsimp only
  split
  · exact returns_inElement _
  · simp

theorem returns_readNumber : Returns (readNumber element reader) := by
  rw [readNumber]
  refine (returns_inElement _).bind ?_
  rintro ⟨header, after⟩
  dsimp only
  split <;> simp

theorem returns_readArray (count : Nat) : Returns (readArray element count reader) := by
  rw [readArray]
  refine (returns_inElement _).bind ?_
  rintro ⟨header, after⟩
  dsimp only
  split
  · split <;> simp
  · simp
  · simp

end Readers

/-- Decoding an array of byte strings does not come back exactly if one of them announces more
than a buffer can hold. -/
theorem decodeByteStrings_eq_stopped_iff {element : String} {bytes : Bytes} {count : Nat}
    {reason : Stop} :
    decodeByteStrings element bytes count = .error (.stopped reason) ↔
      reason = .capacityOverflow ∧ Overflows count bytes := by
  rw [decodeByteStrings, bind_eq_stopped_iff]
  constructor
  · rintro (stopped | ⟨after, counted, stopped⟩)
    · exact absurd stopped (returns_readArray count reason)
    · obtain ⟨head, argument, split, -⟩ := readArray_eq_ok_iff.mp counted
      obtain ⟨rfl, among⟩ := readByteStrings_eq_stopped_iff.mp stopped
      exact ⟨rfl, head, after.rest, argument, split, among⟩
  · rintro ⟨rfl, head, strings, argument, rfl, among⟩
    have counted : readArray element count (.ofBytes (head ++ strings)) =
        .ok ⟨strings, head.length⟩ :=
      readArray_eq_ok_iff.mpr ⟨head, argument, rfl, (Nat.zero_add _).symm⟩
    exact .inr ⟨_, counted, readByteStrings_eq_stopped_iff.mpr ⟨rfl, among⟩⟩

/-- Eight bytes of the header are enough, after a byte string that is there. -/
example :
    decodeByteStrings "key" [0x82, 0x41, 7, 0x5B, 255, 255, 255, 255, 255, 255, 255, 255] 2 =
      .error (.stopped .capacityOverflow) := by
  rfl

end VersionedKeys.Cbor
