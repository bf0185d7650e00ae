import VersionedKeys.Cbor.Item
import VersionedKeys.Proofs.Cbor.Headers
import VersionedKeys.Proofs.Text.Utf8

/-!
# Items that are read back

Every item is read back as it was written, and what follows it is left, with one law for each
kind of item.  So are arrays of byte strings: `decodeByteStrings_writeByteStrings`.
-/

namespace VersionedKeys.Cbor

theorem length_writeBytes_le (value : Bytes) (short : value.length < 256) :
    (writeBytes value).length ≤ 2 + value.length := by
  have width : shortestWidth value.length ≤ 1 := by
    unfold shortestWidth
    split_ifs <;> omega
  rw [writeBytes, List.length_append, length_encodeHeader _ (by omega)]
  omega

theorem not_announcesTooMuch {length : Nat} {following : Bytes}
    (present : length ≤ following.length) : ¬ AnnouncesTooMuch (some length) following :=
  fun muchAnnounced => Nat.not_le.mpr muchAnnounced.2 present

section Items

variable (element : String) (rest : Bytes) (offset : Nat)

theorem readArray_writeArray {count : Nat} (small : count < 2 ^ 64) :
    readArray element count ⟨writeArray count ++ rest, offset⟩ =
      .ok ⟨rest, offset + (writeArray count).length⟩ := by
  rw [readArray, writeArray, pull_encodeHeader small (by decide) rfl]
  exact if_pos rfl

theorem readArray_writeArray_of_ne {count written : Nat} (small : written < 2 ^ 64)
    (different : written ≠ count) :
    readArray element count ⟨writeArray written ++ rest, offset⟩ =
      .error (.malformed (.expectedItems element count)) := by
  rw [readArray, writeArray, pull_encodeHeader small (by decide) rfl]
  exact if_neg different

theorem readNumber_writeNumber (value : UInt64) :
    readNumber element ⟨writeNumber value ++ rest, offset⟩ =
      .ok (value, ⟨rest, offset + (writeNumber value).length⟩) := by
  rw [readNumber, writeNumber, pull_encodeHeader value.toNat_lt (by decide) rfl]
  simp only [inElement, Outcome.mapError_ok, Outcome.ok_bind, UInt64.ofNat_toNat]

/-- A string in one piece is one segment. -/
theorem exists_scan_eq {kind : StringKind} {reader next : Reader} {header : Header}
    {content : Bytes} (pulled : reader.pull = .ok (header, next))
    (announced : kind.announced? header = some (some content.length))
    (front : next.rest = content ++ rest) :
    ∃ start, scan kind reader =
      ([⟨start, content.length, content⟩], .ok ⟨rest, next.offset + content.length⟩) := by
  have taken : next.rest.take content.length = content := by rw [front, List.take_left]
  have left : next.rest.drop content.length = rest := by rw [front, List.drop_left]
  refine ⟨next.offset - (1 + shortestWidth content.length), ?_⟩
  rw [scan, scanWithin, pulled]
  simp only [announced, if_true, taken, Nat.lt_irrefl, if_false, Reader.skip, left]

theorem readBytes_writeBytes {value : Bytes} (small : value.length < 2 ^ 64) :
    readBytes element ⟨writeBytes value ++ rest, offset⟩ =
      .ok (value, ⟨rest, offset + (writeBytes value).length⟩) := by
  have pulled := pull_encodeHeader small (show 2 < 7 by decide) rfl (value ++ rest) offset
  have announced : StringKind.bytes.announced? (.bytes (some value.length)) =
      some (some value.length) := rfl
  obtain ⟨start, scanned⟩ := exists_scan_eq rest pulled announced rfl
  have present : value.length ≤ (value ++ rest).length := List.length_append ▸ Nat.le_add_right _ _
  rw [readBytes, writeBytes, List.append_assoc, pulled]
  simp only [inElement, Outcome.mapError_ok, Outcome.ok_bind, not_announcesTooMuch present,
    if_false, Reader.bytes, scanned, Outcome.map_ok, List.flatMap_cons, List.flatMap_nil,
    List.append_nil, List.length_append, Nat.add_assoc]

/-- A text is decoded whole, whatever the pieces it is taken in: the bytes that a piece leaves
are the beginning of a character, and are decoded with the next piece. -/
theorem decodePieces_eq {segment : Segment} {capacity : Nat} (room : 4 ≤ capacity) {bound : Nat}
    {carried content : Bytes} {chars : List Char}
    (whole : carried ++ content = chars.flatMap String.utf8EncodeChar)
    (incomplete : Utf8.decodeChar? carried = none) (short : carried.length ≤ 3)
    (enough : content.length < bound) :
    decodePieces segment capacity bound carried content.length content = .ok chars := by
  induction bound generalizing carried content chars with
  | zero => omega
  | succ bound inductionHypothesis =>
      rw [decodePieces]
      by_cases done : content.length = 0
      · have nothing : chars = [] := by
          obtain rfl := List.eq_nil_of_length_eq_zero done
          rw [List.append_nil] at whole
          cases chars with
          | nil => rfl
          | cons char chars =>
              rw [whole, List.flatMap_cons, Utf8.decodeChar?_encodeChar] at incomplete
              cases incomplete
        subst nothing
        obtain ⟨rfl, -⟩ := List.append_eq_nil_iff.mp whole
        rw [if_pos done]
        rfl
      · obtain ⟨size, chosen⟩ : ∃ size, size = min content.length (capacity - carried.length) :=
          ⟨_, rfl⟩
        have taken : (content.take size).length = size := by
          rw [List.length_take]
          omega
        have halves : (carried ++ content.take size) ++ content.drop size =
            chars.flatMap String.utf8EncodeChar := by
          rw [List.append_assoc, List.take_append_drop, whole]
        obtain ⟨before, after, tail, rfl, decoded, following, none, few⟩ :=
          Utf8.exists_decodePrefix_eq halves
        have later := inductionHypothesis following none few (by
          rw [List.length_drop]
          omega)
        rw [List.length_drop] at later
        simp only [if_neg done, ← chosen, taken, Nat.lt_irrefl, if_false, decoded,
          if_neg (Nat.not_lt.mpr few), later, Outcome.ok_bind]

theorem pull_writeText {text : String} (small : (Utf8.encode text).length < 2 ^ 64) :
    Reader.pull ⟨writeText text ++ rest, offset⟩ =
      .ok (.text (some (Utf8.encode text).length), ⟨Utf8.encode text ++ rest,
        offset + (encodeHeader 3 (Utf8.encode text).length).length⟩) := by
  rw [writeText, List.append_assoc]
  exact pull_encodeHeader small (by decide) rfl (Utf8.encode text ++ rest) offset

/-- A text is read back, in pieces that have room for any character. -/
theorem text_writeText {capacity : Nat} (room : 4 ≤ capacity) {text : String}
    (small : (Utf8.encode text).length < 2 ^ 64) :
    Reader.text ⟨writeText text ++ rest, offset⟩ capacity =
      .ok (text, ⟨rest, offset + (writeText text).length⟩) := by
  have announced : StringKind.text.announced? (.text (some (Utf8.encode text).length)) =
      some (some (Utf8.encode text).length) := rfl
  obtain ⟨start, scanned⟩ :=
    exists_scan_eq rest (pull_writeText rest offset small) announced rfl
  have decoded : Segment.decode ⟨start, (Utf8.encode text).length, Utf8.encode text⟩ capacity =
      .ok text.toList :=
    decodePieces_eq room rfl rfl (Nat.zero_le 3) (by dsimp only; omega)
  rw [Reader.text, scanned]
  simp only [List.mapM_cons, List.mapM_nil, decoded, Outcome.ok_bind, pure_bind,
    List.flatten_cons, List.flatten_nil, List.append_nil, writeText, List.length_append,
    Nat.add_assoc, String.ofList_toList]

theorem readText_writeText {text : String} (small : (Utf8.encode text).length < 2 ^ 64) :
    readText element ⟨writeText text ++ rest, offset⟩ =
      .ok (text, ⟨rest, offset + (writeText text).length⟩) := by
  have found := text_writeText rest offset (show 4 ≤ textCapacity by decide) small
  rw [readText, found, pull_writeText rest offset small]
  simp only [inElement, Outcome.mapError_ok, Outcome.ok_bind]

theorem readByteStrings_flatMap {parts : List Bytes}
    (small : ∀ part ∈ parts, part.length < 2 ^ 64) :
    readByteStrings element parts.length ⟨parts.flatMap writeBytes ++ rest, offset⟩ =
      .ok parts := by
  induction parts generalizing offset with
  | nil => rfl
  | cons part parts inductionHypothesis =>
      have later := inductionHypothesis (offset + (writeBytes part).length) fun other membership =>
        small other (List.mem_cons_of_mem _ membership)
      rw [List.length_cons, readByteStrings, List.flatMap_cons, List.append_assoc,
        readBytes_writeBytes _ _ _ (small part List.mem_cons_self)]
      simp only [Outcome.ok_bind, later]

/-- An array of byte strings is read back, and what follows it does not count. -/
theorem decodeByteStrings_writeByteStrings {parts : List Bytes} (few : parts.length < 2 ^ 64)
    (small : ∀ part ∈ parts, part.length < 2 ^ 64) :
    decodeByteStrings element (writeByteStrings parts ++ rest) parts.length = .ok parts := by
  rw [decodeByteStrings, writeByteStrings, List.append_assoc, Reader.ofBytes,
    readArray_writeArray _ _ _ few, Outcome.ok_bind, readByteStrings_flatMap _ _ _ small]

/-- An array of another number of parts is refused. -/
theorem decodeByteStrings_writeByteStrings_of_ne {parts : List Bytes} {count : Nat}
    (few : parts.length < 2 ^ 64) (different : parts.length ≠ count) :
    decodeByteStrings element (writeByteStrings parts ++ rest) count =
      .error (.malformed (.expectedItems element count)) := by
  rw [decodeByteStrings, writeByteStrings, List.append_assoc, Reader.ofBytes,
    readArray_writeArray_of_ne _ _ _ few different, Outcome.error_bind]

end Items

end VersionedKeys.Cbor
