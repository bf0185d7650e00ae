import VersionedKeys.Cbor.Header
import VersionedKeys.Proofs.Bytes
import VersionedKeys.Proofs.Outcomes

/-!
# Headers in all their forms

The argument of a header stands in the low bits of its first byte, or in 1, 2, 4 or 8 bytes after
it, which may be more than it needs.  Reading accepts these forms (`HeaderForm.pull`) and no others
(`exists_headerForm_of_pull`).  The form in which headers are written is the shortest of them
(`argumentForm_encodeHeader`), so that they are read back: `pull_encodeHeader`.
-/

namespace VersionedKeys.Cbor

open Header

/-- The bytes of a header of a major type with an argument. -/
inductive ArgumentForm (major : Nat) : (argument : Nat) → Bytes → Prop where
  | inFirst {argument : Nat} (small : argument < 24) :
      ArgumentForm major argument [UInt8.ofNat (major * 32 + argument)]
  | behind {low : Nat} {digits : Bytes}
      (width : (low, digits.length) ∈ [(24, 1), (25, 2), (26, 4), (27, 8)]) :
      ArgumentForm major (Bytes.toNat digits) (UInt8.ofNat (major * 32 + low) :: digits)

/-- The bytes of a header. -/
inductive HeaderForm : Header → Bytes → Prop where
  | argued {major argument : Nat} {header : Header} {form : Bytes} (below : major < 7)
      (made : ofArgument? major (some argument) = some header)
      (written : ArgumentForm major argument form) : HeaderForm header form
  | unargued {major : Nat} {header : Header} (below : major < 7)
      (made : ofArgument? major none = some header) :
      HeaderForm header [UInt8.ofNat (major * 32 + 31)]
  | other {argument : Nat} {form : Bytes} (written : ArgumentForm 7 argument form) :
      HeaderForm (ofOther (form.length - 1) argument) form
  | stop : HeaderForm .stop [0xFF]

/-- A header tells its major type and its argument. -/
theorem ofArgument?_inj {left right : Nat} {leftArgument rightArgument : Option Nat}
    {header : Header} (leftMade : ofArgument? left leftArgument = some header)
    (rightMade : ofArgument? right rightArgument = some header) :
    left = right ∧ leftArgument = rightArgument := by
  unfold ofArgument? at leftMade rightMade
  split at leftMade <;> cases leftMade <;> split at rightMade <;> cases rightMade
  all_goals exact ⟨rfl, rfl⟩

theorem HeaderForm.eq_of_stop {form : Bytes} (written : HeaderForm .stop form) : form = [0xFF] := by
  generalize stopped : Header.stop = header at written
  cases written with
  | argued _ made | unargued _ made =>
      subst stopped
      unfold ofArgument? at made
      split at made <;> cases made
  | other =>
      rw [ofOther] at stopped
      split at stopped <;> cases stopped
  | stop => rfl

/-- A header with an argument is written with it. -/
theorem HeaderForm.argumentForm {major argument : Nat} {header : Header} {form : Bytes}
    (written : HeaderForm header form) (made : ofArgument? major (some argument) = some header) :
    ArgumentForm major argument form := by
  cases written with
  | argued _ found announced =>
      obtain ⟨rfl, same⟩ := ofArgument?_inj found made
      cases same
      exact announced
  | unargued _ found => cases (ofArgument?_inj found made).2
  | other =>
      rw [ofOther] at made
      unfold ofArgument? at made
      split at made <;> split at made <;> cases made
  | stop =>
      unfold ofArgument? at made
      split at made <;> cases made

theorem ArgumentForm.exists_first {major argument : Nat} {form : Bytes}
    (written : ArgumentForm major argument form) :
    ∃ low < 28, ∃ digits : Bytes, form = UInt8.ofNat (major * 32 + low) :: digits ∧
      digits.length = argumentWidth low ∧
      (if argumentWidth low = 0 then low else Bytes.toNat digits) = argument := by
  cases written with
  | inFirst small =>
      have width : argumentWidth argument = 0 := by
        simp only [argumentWidth]
        rw [if_neg (by omega), if_neg (by omega), if_neg (by omega), if_neg (by omega)]
      exact ⟨argument, by omega, [], rfl, width.symm, if_pos width⟩
  | @behind low digits width =>
      simp only [List.mem_cons, Prod.mk.injEq, List.not_mem_nil, or_false] at width
      rcases width with ⟨rfl, length⟩ | ⟨rfl, length⟩ | ⟨rfl, length⟩ | ⟨rfl, length⟩
      all_goals exact ⟨_, by decide, digits, rfl, length, rfl⟩

theorem argumentForm_of_first {major low : Nat} (below : low < 28) {digits : Bytes}
    (width : digits.length = argumentWidth low) :
    ArgumentForm major (if argumentWidth low = 0 then low else Bytes.toNat digits)
      (UInt8.ofNat (major * 32 + low) :: digits) := by
  by_cases small : low < 24
  · have none : argumentWidth low = 0 := by
      simp only [argumentWidth]
      rw [if_neg (by omega), if_neg (by omega), if_neg (by omega), if_neg (by omega)]
    rw [none] at width
    rw [if_pos none, List.eq_nil_of_length_eq_zero width]
    exact .inFirst small
  · obtain rfl | rfl | rfl | rfl : low = 24 ∨ low = 25 ∨ low = 26 ∨ low = 27 := by omega
    all_goals
      refine ArgumentForm.behind ?_
      rw [width]
      decide

theorem ArgumentForm.length_pos {major argument : Nat} {form : Bytes}
    (written : ArgumentForm major argument form) : 0 < form.length := by
  obtain ⟨_, -, _, rfl, -⟩ := written.exists_first
  exact Nat.succ_pos _

/-- What reading makes of the two parts of a first byte. -/
theorem pull_cons {major low : Nat} (below : major < 8) (lowBelow : low < 32) (rest : Bytes)
    (offset : Nat) :
    Reader.pull ⟨UInt8.ofNat (major * 32 + low) :: rest, offset⟩ =
      let digits := rest.take (argumentWidth low)
      let argument := if argumentWidth low = 0 then low else Bytes.toNat digits
      let header? :=
        if major = 7 then
          some (if low = 31 then .stop else ofOther (argumentWidth low) argument)
        else ofArgument? major (if low = 31 then none else some argument)
      if 28 ≤ low ∧ low ≤ 30 then .error (.malformed offset)
      else if digits.length < argumentWidth low then .error .endOfInput
      else header?.elim (.error (.malformed offset)) fun header =>
        .ok (header, ⟨rest.drop (argumentWidth low), offset + (1 + argumentWidth low)⟩) := by
  have first : (UInt8.ofNat (major * 32 + low)).toNat = major * 32 + low := by
    rw [UInt8.toNat_ofNat']
    omega
  have majorFound : (major * 32 + low) / 32 = major := by omega
  have lowFound : (major * 32 + low) % 32 = low := by omega
  rw [Reader.pull]
  simp only [first, majorFound, lowFound, Reader.skip, Nat.add_comm 1, List.drop_succ_cons]
  split
  · rfl
  · split
    · rfl
    · split <;> simp [*]

/-- What is read of a header with an argument, whatever follows it. -/
theorem ArgumentForm.pull {major argument : Nat} {form : Bytes}
    (written : ArgumentForm major argument form) (below : major < 8) (rest : Bytes)
    (offset : Nat) :
    Reader.pull ⟨form ++ rest, offset⟩ =
      (if major = 7 then some (ofOther (form.length - 1) argument)
        else ofArgument? major (some argument)).elim (.error (.malformed offset)) fun header =>
          .ok (header, ⟨rest, offset + form.length⟩) := by
  obtain ⟨low, lowBelow, digits, rfl, width, rfl⟩ := written.exists_first
  have taken : (digits ++ rest).take (argumentWidth low) = digits := List.take_left' width
  have left : (digits ++ rest).drop (argumentWidth low) = rest := List.drop_left' width
  have argued : ¬ low = 31 := by omega
  rw [List.cons_append, pull_cons below (by omega)]
  simp only [taken, left, width, argued, Nat.lt_irrefl, if_false, List.length_cons,
    Nat.add_sub_cancel, Nat.add_comm 1]
  rw [if_neg (by omega)]

/-- What is read of a first byte that announces no argument. -/
theorem pull_unargued {major : Nat} (below : major < 8) (rest : Bytes) (offset : Nat) :
    Reader.pull ⟨UInt8.ofNat (major * 32 + 31) :: rest, offset⟩ =
      (if major = 7 then some .stop else ofArgument? major none).elim
        (.error (.malformed offset)) fun header => .ok (header, ⟨rest, offset + 1⟩) := by
  have none : argumentWidth 31 = 0 := rfl
  rw [pull_cons below (by decide)]
  simp only [none, if_true, List.take_zero, List.length_nil, Nat.lt_irrefl, if_false,
    List.drop_zero, Nat.add_zero]
  rw [if_neg (by omega)]

/-- A header is read whatever its form is, and what follows it is left. -/
theorem HeaderForm.pull {header : Header} {form : Bytes} (written : HeaderForm header form)
    (rest : Bytes) (offset : Nat) :
    Reader.pull ⟨form ++ rest, offset⟩ = .ok (header, ⟨rest, offset + form.length⟩) := by
  cases written with
  | argued below made written => rw [written.pull (by omega), if_neg (by omega), made, Option.elim]
  | unargued below made =>
      rw [List.singleton_append, pull_unargued (by omega), if_neg (by omega), made]
      rfl
  | other written => rw [written.pull (by decide), if_pos rfl, Option.elim]
  | stop => rfl

/-- Reading accepts the forms of headers and no other bytes. -/
theorem exists_headerForm_of_pull {bytes : Bytes} {offset : Nat} {header : Header} {next : Reader}
    (pulled : Reader.pull ⟨bytes, offset⟩ = .ok (header, next)) :
    ∃ form, HeaderForm header form ∧ bytes = form ++ next.rest ∧
      next.offset = offset + form.length := by
  cases bytes with
  | nil => cases pulled
  | cons first rest =>
      obtain ⟨major, below, low, lowBelow, rfl⟩ :
          ∃ major < 8, ∃ low < 32, first = UInt8.ofNat (major * 32 + low) := by
        have bound := first.toNat_lt
        refine ⟨first.toNat / 32, by omega, first.toNat % 32, by omega, ?_⟩
        rw [Nat.div_add_mod', UInt8.ofNat_toNat]
      obtain rfl | reserved | argued : low = 31 ∨ (28 ≤ low ∧ low ≤ 30) ∨ low < 28 := by omega
      · rw [pull_unargued below, Outcome.elim_eq_ok] at pulled
        obtain ⟨found, made, same⟩ := pulled
        cases same
        refine ⟨[UInt8.ofNat (major * 32 + 31)], ?_, rfl, rfl⟩
        by_cases last : major = 7
        · rw [if_pos last] at made
          cases made
          rw [last]
          exact .stop
        · rw [if_neg last] at made
          exact .unargued (by omega) made
      · rw [pull_cons below lowBelow] at pulled
        simp only [if_pos reserved] at pulled
        cases pulled
      · by_cases short : (rest.take (argumentWidth low)).length < argumentWidth low
        · rw [pull_cons below lowBelow] at pulled
          simp only [if_pos short] at pulled
          rw [if_neg (by omega)] at pulled
          cases pulled
        · have width : (rest.take (argumentWidth low)).length = argumentWidth low := by
            rw [List.length_take] at short ⊢
            omega
          have written : ArgumentForm major _ _ := argumentForm_of_first argued width
          rw [← List.take_append_drop (argumentWidth low) rest, ← List.cons_append,
            written.pull below, Outcome.elim_eq_ok] at pulled
          obtain ⟨found, made, same⟩ := pulled
          cases same
          refine ⟨_, ?_, by rw [List.cons_append, List.take_append_drop], rfl⟩
          by_cases last : major = 7
          · subst last
            cases made
            exact .other written
          · rw [if_neg last] at made
            exact .argued (by omega) made written

theorem shortestWidth_cases {argument : Nat} (small : argument < 2 ^ 64) :
    argument < 24 ∧ shortestWidth argument = 0 ∨
      argument < 256 ^ 1 ∧ shortestWidth argument = 1 ∨
      argument < 256 ^ 2 ∧ shortestWidth argument = 2 ∨
      argument < 256 ^ 4 ∧ shortestWidth argument = 4 ∨
      argument < 256 ^ 8 ∧ shortestWidth argument = 8 := by
  unfold shortestWidth
  split_ifs <;> simp <;> omega

/-- How a header is written: the low bits of its first byte tell the width of its argument,
or are the argument itself. -/
theorem exists_encodeHeader_eq (major : Nat) {argument : Nat} (small : argument < 2 ^ 64) :
    ∃ low < 28, encodeHeader major argument =
        UInt8.ofNat (major * 32 + low) :: Bytes.ofNat (shortestWidth argument) argument ∧
      argumentWidth low = shortestWidth argument ∧
      (if shortestWidth argument = 0 then low
        else argument % 256 ^ shortestWidth argument) = argument := by
  rw [encodeHeader]
  rcases shortestWidth_cases small with
    ⟨bound, width⟩ | ⟨bound, width⟩ | ⟨bound, width⟩ | ⟨bound, width⟩ | ⟨bound, width⟩
  all_goals rw [width]
  · have inFirst : argumentWidth argument = 0 := by
      simp only [argumentWidth]
      rw [if_neg (by omega), if_neg (by omega), if_neg (by omega), if_neg (by omega)]
    exact ⟨argument, by omega, rfl, inFirst, rfl⟩
  · exact ⟨24, by decide, rfl, rfl, Nat.mod_eq_of_lt bound⟩
  · exact ⟨25, by decide, rfl, rfl, Nat.mod_eq_of_lt bound⟩
  · exact ⟨26, by decide, rfl, rfl, Nat.mod_eq_of_lt bound⟩
  · exact ⟨27, by decide, rfl, rfl, Nat.mod_eq_of_lt bound⟩

theorem length_encodeHeader (major : Nat) {argument : Nat} (small : argument < 2 ^ 64) :
    (encodeHeader major argument).length = 1 + shortestWidth argument := by
  obtain ⟨low, -, written, -⟩ := exists_encodeHeader_eq major small
  rw [written, List.length_cons, Bytes.length_ofNat]
  omega

theorem argumentForm_encodeHeader (major : Nat) {argument : Nat} (small : argument < 2 ^ 64) :
    ArgumentForm major argument (encodeHeader major argument) := by
  obtain ⟨low, below, written, width, value⟩ := exists_encodeHeader_eq major small
  have length : (Bytes.ofNat (shortestWidth argument) argument).length = argumentWidth low := by
    rw [Bytes.length_ofNat, width]
  have form : ArgumentForm major _ _ := argumentForm_of_first below length
  rwa [width, Bytes.toNat_ofNat, value, ← written] at form

/-- A header is read back. -/
theorem pull_encodeHeader {major argument : Nat} {header : Header} (small : argument < 2 ^ 64)
    (below : major < 7) (formed : ofArgument? major (some argument) = some header)
    (rest : Bytes) (offset : Nat) :
    Reader.pull ⟨encodeHeader major argument ++ rest, offset⟩ =
      .ok (header, ⟨rest, offset + (encodeHeader major argument).length⟩) :=
  (HeaderForm.argued below formed (argumentForm_encodeHeader major small)).pull rest offset

end VersionedKeys.Cbor
