import VersionedKeys.Proofs.Cbor.Items

/-!
# Input that is cut off

Of a proper beginning of an item a reader finds that it ends, and nothing else: `EndsEarly`, with
one law for each kind of item.  So it does of a proper beginning of several items that are read
one after the other: `EndsEarly.bind`, and `undecodable_bind` where they are different elements.
-/

namespace VersionedKeys.Cbor

open Header

/-- A string of two parts is cut within the first of them, or after it. -/
theorem cut_append {written later front back : Bytes} (cut : front ++ back = written ++ later) :
    (∃ between, front ++ between = written ∧ between ≠ []) ∨
      ∃ rest, front = written ++ rest ∧ rest ++ back = later := by
  rcases List.append_eq_append_iff.mp cut with ⟨between, whole, behind⟩ | ⟨rest, split, whole⟩
  · by_cases none : between = []
    · subst none
      exact .inr ⟨[], by rw [whole, List.append_nil, List.append_nil], behind⟩
    · exact .inl ⟨between, whole.symm, none⟩
  · exact .inr ⟨rest, split, whole.symm⟩

/-- The reading of some element ends in a fault of the encoding. -/
def Undecodable {Value : Type} (outcome : Except Error Value) : Prop :=
  ∃ element fault, outcome = .error (.decoding element fault)

/-- Every proper beginning of some bytes is undecodable. -/
def NeedsAll {Value : Type} (read : Reader → Except Error Value) (written : Bytes) : Prop :=
  ∀ front back offset, front ++ back = written → back ≠ [] → Undecodable (read ⟨front, offset⟩)

/-- Of every proper beginning of some bytes a reader finds that it ends. -/
def EndsEarly {Value : Type} (element : String) (read : Reader → Except Error Value)
    (written : Bytes) : Prop :=
  ∀ front back offset, front ++ back = written → back ≠ [] →
    read ⟨front, offset⟩ = .error (.decoding element .endOfInput)

section Undecodable

variable {Value Other : Type}

theorem EndsEarly.needsAll {element : String} {read : Reader → Except Error Value}
    {written : Bytes} (ends : EndsEarly element read written) : NeedsAll read written :=
  fun front back offset cut missing =>
    ⟨element, .endOfInput, ends front back offset cut missing⟩

theorem Undecodable.bind {outcome : Except Error Value} (undecodable : Undecodable outcome)
    (next : Value → Except Error Other) : Undecodable (outcome >>= next) := by
  obtain ⟨element, fault, rfl⟩ := undecodable
  exact ⟨element, fault, rfl⟩

theorem Undecodable.map {outcome : Except Error Value} (undecodable : Undecodable outcome)
    (change : Value → Other) : Undecodable (outcome.map change) := by
  obtain ⟨element, fault, rfl⟩ := undecodable
  exact ⟨element, fault, rfl⟩

/-- The input ends among the bytes of what is read first, or after them, among those of what
is read next. -/
theorem undecodable_bind {first : Reader → Except Error Value} {next : Value → Except Error Other}
    {value : Bytes → Value} {written later front back : Bytes} {offset : Nat}
    (needs : NeedsAll first written)
    (readBack : ∀ rest, first ⟨written ++ rest, offset⟩ = .ok (value rest))
    (cut : front ++ back = written ++ later)
    (follows : ∀ rest, rest ++ back = later → Undecodable (next (value rest))) :
    Undecodable (first ⟨front, offset⟩ >>= next) := by
  rcases cut_append cut with ⟨between, within, missing⟩ | ⟨rest, rfl, whole⟩
  · exact (needs front between offset within missing).bind next
  · rw [readBack, Outcome.ok_bind]
    exact follows rest whole

/-- What is done with a value that is not there does not count. -/
theorem EndsEarly.before {element : String} {read : Reader → Except Error Value} {written : Bytes}
    (ends : EndsEarly element read written) (next : Value → Except Error Other) :
    EndsEarly element (fun reader => read reader >>= next) written := by
  intro front back offset cut missing
  dsimp only
  rw [ends front back offset cut missing, Outcome.error_bind]

theorem EndsEarly.map {element : String} {read : Reader → Except Error Value} {written : Bytes}
    (ends : EndsEarly element read written) (change : Value → Other) :
    EndsEarly element (fun reader => (read reader).map change) written := by
  intro front back offset cut missing
  dsimp only
  rw [ends front back offset cut missing, Outcome.map_error]

theorem endsEarly_nil {element : String} {read : Reader → Except Error Value} :
    EndsEarly element read [] := by
  intro front back offset cut missing
  exact absurd (List.append_eq_nil_iff.mp cut).2 missing

/-- The input ends within what is read first, or within what is read next. -/
theorem EndsEarly.bind {element : String} {first : Reader → Except Error Value}
    {next : Value → Except Error Other} {value : Reader → Value} {written later : Bytes}
    (ends : EndsEarly element first written)
    (readBack : ∀ rest offset,
      first ⟨written ++ rest, offset⟩ = .ok (value ⟨rest, offset + written.length⟩))
    (follows : EndsEarly element (fun reader => next (value reader)) later) :
    EndsEarly element (fun reader => first reader >>= next) (written ++ later) := by
  intro front back offset cut missing
  dsimp only
  rcases cut_append cut with ⟨between, within, some⟩ | ⟨rest, rfl, whole⟩
  · rw [ends front between offset within some, Outcome.error_bind]
  · rw [readBack, Outcome.ok_bind]
    exact follows rest back _ whole missing

end Undecodable

/-- A header needs all its bytes. -/
theorem pull_of_cut {major argument : Nat} (small : argument < 2 ^ 64) {front back : Bytes}
    (cut : front ++ back = encodeHeader major argument) (missing : back ≠ []) (offset : Nat) :
    Reader.pull ⟨front, offset⟩ = .error .endOfInput := by
  obtain ⟨low, lowBelow, written, width, -⟩ := exists_encodeHeader_eq major small
  cases front with
  | nil => rfl
  | cons first digits =>
      rw [written, List.cons_append, List.cons.injEq] at cut
      obtain ⟨rfl, digitsCut⟩ := cut
      have lowFound : (UInt8.ofNat (major * 32 + low)).toNat % 32 = low := by
        rw [UInt8.toNat_ofNat']
        omega
      have fewer : digits.length < shortestWidth argument := by
        have length := congrArg List.length digitsCut
        rw [List.length_append, Bytes.length_ofNat] at length
        have positive := List.length_pos_iff.mpr missing
        omega
      rw [Reader.pull]
      simp only [lowFound, width]
      rw [if_neg (by omega), if_pos (by rw [List.length_take]; omega)]

/-- Of a string that is cut off, either the header is not there, or its segment ends with the
input. -/
theorem pull_or_scan_of_cut {kind : StringKind} {major : Nat} {header : Header} {value : Bytes}
    (small : value.length < 2 ^ 64) (below : major < 7)
    (formed : ofArgument? major (some value.length) = some header)
    (announced : kind.announced? header = some (some value.length)) {front back : Bytes}
    (cut : front ++ back = encodeHeader major value.length ++ value) (missing : back ≠ [])
    (offset : Nat) :
    Reader.pull ⟨front, offset⟩ = .error .endOfInput ∨
      (∃ next, Reader.pull ⟨front, offset⟩ = .ok (header, next)) ∧
        ∃ start content, content ++ back = value ∧
          scan kind ⟨front, offset⟩ =
            ([⟨start, value.length, content⟩], .error .endOfInput) := by
  rcases cut_append cut with ⟨between, within, missing⟩ | ⟨content, rfl, rfl⟩
  · exact .inl (pull_of_cut small within missing offset)
  · have pulled := pull_encodeHeader small below formed content offset
    have positive := List.length_pos_iff.mpr missing
    have all : content.take (content ++ back).length = content := by
      rw [List.length_append]
      exact List.take_of_length_le (Nat.le_add_right _ _)
    have short : content.length < (content ++ back).length := by
      rw [List.length_append]
      omega
    refine .inr ⟨⟨_, pulled⟩, offset + (encodeHeader major (content ++ back).length).length -
      (1 + shortestWidth (content ++ back).length), content, rfl, ?_⟩
    rw [scan, scanWithin, pulled]
    simp only [announced, if_true, all, if_pos short]

/-- The characters of a text that is cut off are decoded up to the piece that is not there. -/
theorem decodePieces_of_cut {segment : Segment} {capacity : Nat} (room : 4 ≤ capacity)
    {bound : Nat} {carried content back : Bytes} {chars : List Char}
    (whole : carried ++ content ++ back = chars.flatMap String.utf8EncodeChar)
    (missing : back ≠ []) (short : carried.length ≤ 3) (enough : content.length < bound) :
    decodePieces segment capacity bound carried (content.length + back.length) content =
      .error .endOfInput := by
  induction bound generalizing carried content chars with
  | zero => omega
  | succ bound inductionHypothesis =>
      have positive := List.length_pos_iff.mpr missing
      obtain ⟨size, chosen⟩ :
          ∃ size, size = min (content.length + back.length) (capacity - carried.length) :=
        ⟨_, rfl⟩
      rw [decodePieces, if_neg (by omega)]
      simp only [← chosen]
      by_cases ended : (content.take size).length < size
      · rw [if_pos ended]
      · have within : size ≤ content.length := by
          rw [List.length_take] at ended
          omega
        have halves : (carried ++ content.take size) ++ (content.drop size ++ back) =
            chars.flatMap String.utf8EncodeChar := by
          rw [← whole, List.append_assoc, ← List.append_assoc (content.take size),
            List.take_append_drop, List.append_assoc]
        obtain ⟨before, after, tail, -, decoded, following, -, few⟩ :=
          Utf8.exists_decodePrefix_eq halves
        rw [← List.append_assoc] at following
        have later := inductionHypothesis following few (by
          rw [List.length_drop]
          omega)
        have remaining : (content.drop size).length + back.length =
            content.length + back.length - size := by
          rw [List.length_drop]
          omega
        rw [remaining] at later
        simp only [if_neg ended, decoded, if_neg (Nat.not_lt.mpr few), later, Outcome.error_bind]

section Items

variable (element : String)

theorem endsEarly_readArray {count : Nat} (small : count < 2 ^ 64) :
    EndsEarly element (readArray element count) (writeArray count) := by
  intro front back offset cut missing
  rw [readArray, pull_of_cut small cut missing]
  rfl

theorem endsEarly_readNumber (value : UInt64) :
    EndsEarly element (readNumber element) (writeNumber value) := by
  intro front back offset cut missing
  rw [readNumber, pull_of_cut value.toNat_lt cut missing]
  rfl

theorem endsEarly_readBytes {value : Bytes} (possible : value.length ≤ maxCapacity) :
    EndsEarly element (readBytes element) (writeBytes value) := by
  intro front back offset cut missing
  have small : value.length < 2 ^ 64 := Nat.lt_of_le_of_lt possible (by decide)
  have announced : StringKind.bytes.announced? (.bytes (some value.length)) =
      some (some value.length) := rfl
  rcases pull_or_scan_of_cut small (show 2 < 7 by decide) rfl announced cut missing offset with
    ended | ⟨⟨next, pulled⟩, start, content, -, scanned⟩
  · rw [readBytes, ended]
    rfl
  · have announced : ¬ AnnouncesTooMuch (some value.length) next.rest :=
      fun muchAnnounced => Nat.not_lt.mpr possible muchAnnounced.1
    rw [readBytes, pulled]
    simp only [inElement, Outcome.mapError_ok, Outcome.ok_bind, if_neg announced, Reader.bytes,
      scanned]
    rfl

theorem endsEarly_readText {text : String} (small : (Utf8.encode text).length < 2 ^ 64) :
    EndsEarly element (readText element) (writeText text) := by
  intro front back offset cut missing
  have announced : StringKind.text.announced? (.text (some (Utf8.encode text).length)) =
      some (some (Utf8.encode text).length) := rfl
  rcases pull_or_scan_of_cut small (show 3 < 7 by decide) rfl announced cut missing offset with
    ended | ⟨⟨next, pulled⟩, start, content, whole, scanned⟩
  · rw [readText, ended]
    rfl
  · have decoded : Segment.decode ⟨start, (Utf8.encode text).length, content⟩ textCapacity =
        .error .endOfInput := by
      have found : decodePieces ⟨start, (Utf8.encode text).length, content⟩ textCapacity
          (content.length + 2) [] (content.length + back.length) content = .error .endOfInput :=
        decodePieces_of_cut (by decide) whole missing (Nat.zero_le 3) (by omega)
      rwa [← List.length_append, whole] at found
    rw [readText, pulled]
    simp only [inElement, Outcome.mapError_ok, Outcome.ok_bind, Reader.text, scanned,
      List.mapM_cons, decoded, Outcome.error_bind]
    rfl

theorem needsAll_readArray {count : Nat} (small : count < 2 ^ 64) :
    NeedsAll (readArray element count) (writeArray count) :=
  (endsEarly_readArray element small).needsAll

theorem needsAll_readNumber (value : UInt64) :
    NeedsAll (readNumber element) (writeNumber value) :=
  (endsEarly_readNumber element value).needsAll

theorem needsAll_readBytes {value : Bytes} (possible : value.length ≤ maxCapacity) :
    NeedsAll (readBytes element) (writeBytes value) :=
  (endsEarly_readBytes element possible).needsAll

theorem needsAll_readText {text : String} (small : (Utf8.encode text).length < 2 ^ 64) :
    NeedsAll (readText element) (writeText text) :=
  (endsEarly_readText element small).needsAll

end Items

end VersionedKeys.Cbor
