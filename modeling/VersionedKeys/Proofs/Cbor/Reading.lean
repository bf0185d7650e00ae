import Mathlib.Data.Set.List
import VersionedKeys.Proofs.Cbor.Strings

/-!
# Strings that are read

The readers of strings accept exactly the forms of `StringForm`, and give what their segments hold:
`readBytes_eq_ok_iff` and `readText_eq_ok_iff`.  A segment of a text is decoded as a whole, wherever
its characters fall on the boundaries of pieces (`Segment.decode_eq_ok_iff`): what is decoded in
pieces are the bytes of its characters (`eq_of_decodePieces`), and those of any characters are
decoded (`decodePieces_eq`).
-/

namespace VersionedKeys.Cbor

open String (utf8EncodeChar)

/-- What is decoded in pieces, whatever their capacity, are the bytes of the characters. -/
theorem eq_of_decodePieces {segment : Segment} {capacity bound remaining : Nat}
    {carried content : Bytes} {chars : List Char} (sized : content.length = remaining)
    (decoded : decodePieces segment capacity bound carried remaining content = .ok chars) :
    carried ++ content = chars.flatMap utf8EncodeChar := by
  induction bound generalizing carried remaining content chars with
  | zero => cases decoded
  | succ bound inductionHypothesis =>
      rw [decodePieces] at decoded
      split at decoded
      · next finished =>
          obtain rfl := List.eq_nil_of_length_eq_zero (sized.trans finished)
          split at decoded
          · next nothing =>
              cases decoded
              rw [List.isEmpty_iff.mp nothing]
              rfl
          · cases decoded
      · simp only at decoded
        generalize min remaining (capacity - carried.length) = size at decoded
        split at decoded
        · cases decoded
        · generalize found : Utf8.decodePrefix (carried ++ content.take size) = result at decoded
          obtain ⟨before, tail⟩ := result
          simp only at decoded
          split at decoded
          · cases decoded
          · obtain ⟨following, later, made⟩ := Outcome.bind_eq_ok.mp decoded
            cases made
            have rest := inductionHypothesis (by rw [List.length_drop, sized]) later
            have front := Utf8.eq_append_of_decodePrefix found
            rw [List.flatMap_append, ← rest, ← List.append_assoc, ← front, List.append_assoc,
              List.take_append_drop]

/-- A segment that is all there is decoded as if it were not taken in pieces. -/
theorem Segment.decode_eq_ok_iff {segment : Segment} (complete : segment.Complete) {capacity : Nat}
    (room : 4 ≤ capacity) {chars : List Char} :
    segment.decode capacity = .ok chars ↔ segment.content = chars.flatMap utf8EncodeChar := by
  rw [Segment.decode, ← complete]
  constructor
  · intro decoded
    exact eq_of_decodePieces rfl decoded
  · intro whole
    exact decodePieces_eq room whole rfl (Nat.zero_le 3) (by omega)

/-- Segments that are all there are decoded to the characters of each. -/
theorem mapM_decode_eq_ok_iff {segments : List Segment}
    (complete : ∀ segment ∈ segments, segment.Complete) {capacity : Nat} (room : 4 ≤ capacity)
    {parts : List (List Char)} :
    segments.mapM (·.decode capacity) = .ok parts ↔
      segments.map (·.content) = parts.map (·.flatMap utf8EncodeChar) := by
  induction segments generalizing parts with
  | nil => cases parts <;> simp [pure, Except.pure]
  | cons segment segments inductionHypothesis =>
      have first := complete segment List.mem_cons_self
      have others := fun {parts} => @inductionHypothesis
        (fun segment membership => complete segment (List.mem_cons_of_mem _ membership)) parts
      rw [List.mapM_cons, Outcome.bind_eq_ok, List.map_cons]
      constructor
      · rintro ⟨chars, decoded, continued⟩
        obtain ⟨later, decodedLater, made⟩ := Outcome.bind_eq_ok.mp continued
        cases made
        rw [List.map_cons, ← others.mp decodedLater,
          ← (Segment.decode_eq_ok_iff first room).mp decoded]
      · intro same
        cases parts with
        | nil => cases same
        | cons chars later =>
            rw [List.map_cons, List.cons.injEq] at same
            refine ⟨chars, (Segment.decode_eq_ok_iff first room).mpr same.1, ?_⟩
            rw [others.mpr same.2]
            rfl

section Forms

variable {form : Bytes} {contents : List Bytes}

/-- A byte string is read in whatever segments it comes. -/
theorem StringForm.bytes_eq (written : StringForm .bytes form contents) (rest : Bytes)
    (offset : Nat) :
    Reader.bytes ⟨form ++ rest, offset⟩ =
      .ok (contents.flatten, ⟨rest, offset + form.length⟩) := by
  obtain ⟨segments, rfl, -, scanned⟩ := written.exists_scan rest offset
  simp only [Reader.bytes, scanned, Outcome.map_ok, List.flatMap_def]

/-- A text is read in whatever segments it comes, if each of them is text. -/
theorem StringForm.text_eq (written : StringForm .text form contents)
    (valid : ∀ content ∈ contents, Utf8.Valid content) {value : String}
    (whole : contents.flatten = Utf8.encode value) {capacity : Nat} (room : 4 ≤ capacity)
    (rest : Bytes) (offset : Nat) :
    Reader.text ⟨form ++ rest, offset⟩ capacity =
      .ok (value, ⟨rest, offset + form.length⟩) := by
  obtain ⟨segments, rfl, complete, scanned⟩ := written.exists_scan rest offset
  obtain ⟨parts, decoded⟩ : segments.map (·.content) ∈
      Set.range (List.map fun chars : List Char => chars.flatMap utf8EncodeChar) := by
    rw [Set.range_list_map]
    intro content membership
    exact (valid content membership).exists_chars
  simp only [Reader.text, scanned, (mapM_decode_eq_ok_iff complete room).mpr decoded.symm,
    Outcome.ok_bind]
  rw [← decoded, ← Utf8.encode_ofList_flatten, Utf8.encode_inj] at whole
  rw [whole]

end Forms

section Readers

variable {element : String} {bytes : Bytes} {offset : Nat} {next : Reader}

/-- A byte string is read to what its segments hold, and no other bytes are read as one. -/
theorem readBytes_eq_ok_iff {value : Bytes} :
    readBytes element ⟨bytes, offset⟩ = .ok (value, next) ↔
      ∃ form contents, StringForm .bytes form contents ∧ contents.flatten = value ∧
        bytes = form ++ next.rest ∧ next.offset = offset + form.length := by
  rw [readBytes, Outcome.bind_eq_ok]
  constructor
  · rintro ⟨⟨header, after⟩, -, found⟩
    dsimp only at found
    split at found
    · split at found
      · cases found
      · rw [inElement, Outcome.mapError_eq_ok, Reader.bytes] at found
        cases scanned : scan .bytes ⟨bytes, offset⟩ with
        | mk segments ended =>
            rw [scanned] at found
            obtain ⟨place, rfl, read⟩ := Outcome.map_eq_ok.mp found
            cases read
            obtain ⟨form, remaining, split, behind, -⟩ := exists_remaining_of_scanWithin scanned
            exact ⟨form, _, remaining, (List.flatMap_def ..).symm, split, behind⟩
    · cases found
  · rintro ⟨form, contents, written, rfl, rfl, behind⟩
    obtain ⟨length?, after, pulled, announced⟩ := written.exists_pull next.rest offset
    refine ⟨_, Outcome.mapError_eq_ok.mpr pulled, ?_⟩
    simp only [StringKind.header, if_neg announced, inElement, Outcome.mapError_eq_ok,
      written.bytes_eq, ← behind]

/-- Lists of segments nest, and the lengths in them need not be in the shortest form. -/
example :
    readBytes "key" ⟨[0x5F, 0x41, 1, 0x5F, 0x58, 1, 2, 0xFF, 0x40, 0xFF, 3], 0⟩ =
      .ok ([1, 2], ⟨[3], 10⟩) := by
  rfl

/-- A text is read to what its segments hold, if that is text in each of them, and no other bytes
are read as one. -/
theorem readText_eq_ok_iff {value : String} :
    readText element ⟨bytes, offset⟩ = .ok (value, next) ↔
      ∃ form contents, StringForm .text form contents ∧
        (∀ content ∈ contents, Utf8.Valid content) ∧ contents.flatten = Utf8.encode value ∧
        bytes = form ++ next.rest ∧ next.offset = offset + form.length := by
  have room : 4 ≤ textCapacity := by decide
  rw [readText, Outcome.bind_eq_ok]
  constructor
  · rintro ⟨⟨header, after⟩, -, found⟩
    dsimp only at found
    split at found
    · rw [inElement, Outcome.mapError_eq_ok, Reader.text] at found
      cases scanned : scan .text ⟨bytes, offset⟩ with
      | mk segments ended =>
          simp only [scanned] at found
          obtain ⟨parts, decoded, found⟩ := Outcome.bind_eq_ok.mp found
          obtain ⟨place, rfl, read⟩ := Outcome.bind_eq_ok.mp found
          cases read
          obtain ⟨form, remaining, split, behind, complete⟩ :=
            exists_remaining_of_scanWithin scanned
          have contents := (mapM_decode_eq_ok_iff complete room).mp decoded
          refine ⟨form, _, remaining, ?_, ?_, split, behind⟩
          · rw [contents]
            intro content membership
            obtain ⟨chars, -, rfl⟩ := List.mem_map.mp membership
            exact ⟨String.ofList chars, Utf8.encode_ofList chars⟩
          · rw [contents, Utf8.encode_ofList_flatten]
    · cases found
  · rintro ⟨form, contents, written, valid, whole, rfl, behind⟩
    obtain ⟨length?, after, pulled, -⟩ := written.exists_pull next.rest offset
    refine ⟨_, Outcome.mapError_eq_ok.mpr pulled, ?_⟩
    simp only [StringKind.header, inElement, Outcome.mapError_eq_ok,
      written.text_eq valid whole room, ← behind]

end Readers

/-- The readers of strings accept exactly their grammar: a string in one piece behind a header of
any width, or strings between an opening and a stop, to any depth.  A text has to be text in each of
its segments, and the pieces that a segment is taken in do not matter. -/
theorem strings_read_exactly (element : String) (bytes : Bytes) (offset : Nat) :
    (∀ value next, readBytes element ⟨bytes, offset⟩ = .ok (value, next) ↔
      ∃ form contents, StringForm .bytes form contents ∧ contents.flatten = value ∧
        bytes = form ++ next.rest ∧ next.offset = offset + form.length) ∧
    (∀ value next, readText element ⟨bytes, offset⟩ = .ok (value, next) ↔
      ∃ form contents, StringForm .text form contents ∧
        (∀ content ∈ contents, Utf8.Valid content) ∧ contents.flatten = Utf8.encode value ∧
        bytes = form ++ next.rest ∧ next.offset = offset + form.length) ∧
    ∀ start content chars,
      Segment.decode ⟨start, content.length, content⟩ textCapacity = .ok chars ↔
        content = Utf8.encode (String.ofList chars) := by
  refine ⟨fun value next => readBytes_eq_ok_iff, fun value next => readText_eq_ok_iff, ?_⟩
  intro start content chars
  have complete : Segment.Complete ⟨start, content.length, content⟩ := rfl
  rw [Utf8.encode_ofList]
  exact Segment.decode_eq_ok_iff complete (by decide)

end VersionedKeys.Cbor
