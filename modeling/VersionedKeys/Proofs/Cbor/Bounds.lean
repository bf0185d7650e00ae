import VersionedKeys.Proofs.Cbor.Reading

/-!
# What is read was there

The bytes of a string, in however many segments it comes, stand in the input before the place
where reading ends: `length_of_readBytes`.  So none of the parts that are decoded is longer than
the input: `length_le_of_mem_decodeByteStrings`.
-/

namespace VersionedKeys.Cbor

theorem length_of_pull {reader next : Reader} {header : Header}
    (pulled : reader.pull = .ok (header, next)) : next.rest.length ≤ reader.rest.length := by
  obtain ⟨form, -, split, -⟩ := exists_headerForm_of_pull pulled
  rw [split, List.length_append]
  exact Nat.le_add_left _ _

theorem length_flatten_le_of_forall {items : List (Bytes × List Bytes)}
    (each : ∀ item ∈ items, item.2.flatten.length ≤ item.1.length) :
    (items.flatMap (·.2)).flatten.length ≤ (items.flatMap (·.1)).length := by
  induction items with
  | nil => exact Nat.le_refl 0
  | cons item items inductionHypothesis =>
      have first := each item List.mem_cons_self
      have others := inductionHypothesis fun other membership =>
        each other (List.mem_cons_of_mem _ membership)
      simp only [List.flatMap_cons, List.flatten_append, List.length_append]
      omega

/-- A string holds no more than its bytes. -/
theorem StringForm.length_flatten_le {kind : StringKind} {form : Bytes} {contents : List Bytes}
    (written : StringForm kind form contents) : contents.flatten.length ≤ form.length := by
  induction written with
  | definite => simp
  | segmented _ inductionHypothesis =>
      have inside := length_flatten_le_of_forall inductionHypothesis
      simp only [List.cons_append, List.length_cons, List.length_append]
      omega

theorem length_of_readBytes {element : String} {reader next : Reader} {value : Bytes}
    (found : readBytes element reader = .ok (value, next)) :
    value.length + next.rest.length ≤ reader.rest.length := by
  obtain ⟨form, contents, written, rfl, split, -⟩ := readBytes_eq_ok_iff.mp found
  have within := written.length_flatten_le
  rw [split, List.length_append]
  omega

theorem length_le_of_mem_readByteStrings {element : String} {count : Nat} {reader : Reader}
    {parts : List Bytes} (found : readByteStrings element count reader = .ok parts) {part : Bytes}
    (member : part ∈ parts) : part.length ≤ reader.rest.length := by
  induction count generalizing reader parts with
  | zero =>
      cases found
      cases member
  | succ count inductionHypothesis =>
      obtain ⟨⟨first, next⟩, read, found⟩ := Outcome.bind_eq_ok.mp found
      obtain ⟨others, later, found⟩ := Outcome.bind_eq_ok.mp found
      cases found
      have lengths := length_of_readBytes read
      rcases List.mem_cons.mp member with rfl | member
      · omega
      · have behind := inductionHypothesis later member
        omega

/-- None of the parts is longer than the input. -/
theorem length_le_of_mem_decodeByteStrings {element : String} {bytes : Bytes} {count : Nat}
    {parts : List Bytes} (found : decodeByteStrings element bytes count = .ok parts)
    {part : Bytes} (member : part ∈ parts) : part.length ≤ bytes.length := by
  obtain ⟨reader, counted, found⟩ := Outcome.bind_eq_ok.mp found
  refine (length_le_of_mem_readByteStrings found member).trans ?_
  obtain ⟨⟨header, next⟩, pulled, counted⟩ := Outcome.bind_eq_ok.mp counted
  have before := length_of_pull (Outcome.mapError_eq_ok.mp pulled)
  dsimp only at counted
  split at counted
  · split at counted
    · cases counted
      exact before
    · cases counted
  · cases counted
  · cases counted

end VersionedKeys.Cbor
