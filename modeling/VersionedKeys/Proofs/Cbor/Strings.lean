import VersionedKeys.Proofs.Cbor.Items

/-!
# Strings and their grammar

A string is a header and as many bytes as it announces, or any number of strings between an opening
and a stop (`StringForm`).  Scanning finds the definite segments without recursion, by counting the
lists that are open; what it still has to read is described by `OpenForm`.  It accepts strings only
(`exists_remaining_of_scanWithin`) and all of them (`StringForm.exists_scan`).
-/

namespace VersionedKeys.Cbor

open Header

namespace StringKind

/-- The major type of strings of a kind. -/
def major : StringKind → Nat
  | bytes => 2
  | text => 3

/-- The first byte of a string that comes in segments. -/
def opening : StringKind → UInt8
  | bytes => 0x5F
  | text => 0x7F

/-- The header of a string with an announced length, or of one in segments. -/
def header : StringKind → (length : Option Nat) → Header
  | bytes, length => .bytes length
  | text, length => .text length

theorem announced?_header (kind : StringKind) (length : Option Nat) :
    kind.announced? (kind.header length) = some length := by
  cases kind <;> rfl

theorem announced?_eq_some_iff {kind : StringKind} {header : Header} {length : Option Nat} :
    kind.announced? header = some length ↔ ofArgument? kind.major length = some header := by
  cases kind <;> cases header <;> simp [announced?, major, ofArgument?, eq_comm]

end StringKind

/-- The bytes of a string and the contents of its definite segments, in order: a header that
announces the content after it, or any number of strings between an opening and a stop. -/
inductive StringForm (kind : StringKind) : Bytes → List Bytes → Prop where
  | definite {header content : Bytes}
      (announced : ArgumentForm kind.major content.length header) :
      StringForm kind (header ++ content) [content]
  | segmented {items : List (Bytes × List Bytes)}
      (strings : ∀ item ∈ items, StringForm kind item.1 item.2) :
      StringForm kind (kind.opening :: items.flatMap (·.1) ++ [0xFF]) (items.flatMap (·.2))

/-- What is left of a string in which lists of segments are open: strings, and a stop for each
of the lists. -/
inductive OpenForm (kind : StringKind) : (depth : Nat) → Bytes → List Bytes → Prop where
  | done : OpenForm kind 0 [] []
  | string {depth : Nat} {form rest : Bytes} {contents others : List Bytes}
      (first : StringForm kind form contents) (later : OpenForm kind (depth + 1) rest others) :
      OpenForm kind (depth + 1) (form ++ rest) (contents ++ others)
  | stop {depth : Nat} {rest : Bytes} {others : List Bytes}
      (later : OpenForm kind depth rest others) : OpenForm kind (depth + 1) (0xFF :: rest) others

/-- The innermost list that is open is strings up to its stop. -/
theorem OpenForm.exists_items {kind : StringKind} {depth : Nat} {bytes : Bytes}
    {contents : List Bytes} (form : OpenForm kind (depth + 1) bytes contents) :
    ∃ (items : List (Bytes × List Bytes)) (rest : Bytes) (others : List Bytes),
      (∀ item ∈ items, StringForm kind item.1 item.2) ∧
        bytes = items.flatMap (·.1) ++ 0xFF :: rest ∧
        contents = items.flatMap (·.2) ++ others ∧ OpenForm kind depth rest others := by
  generalize opened : depth + 1 = lists at form
  induction form generalizing depth with
  | done => cases opened
  | @string _ first _ contents _ string later inductionHypothesis =>
      obtain ⟨items, rest, others, strings, rfl, rfl, closed⟩ := inductionHypothesis opened
      refine ⟨(first, contents) :: items, rest, others, ?_, ?_, ?_, closed⟩
      · intro item membership
        rcases List.mem_cons.mp membership with rfl | membership
        · exact string
        · exact strings item membership
      · rw [List.flatMap_cons, List.append_assoc]
      · rw [List.flatMap_cons, List.append_assoc]
  | @stop _ rest others later =>
      cases opened
      exact ⟨[], rest, others, by simp, rfl, rfl, later⟩

/-- A string whose list of segments has been opened. -/
theorem OpenForm.segmented {kind : StringKind} {bytes : Bytes} {contents : List Bytes}
    (form : OpenForm kind 1 bytes contents) : StringForm kind (kind.opening :: bytes) contents := by
  obtain ⟨items, rest, others, strings, rfl, rfl, closed⟩ := form.exists_items
  cases closed
  rw [List.append_nil]
  exact .segmented strings

/-- A list of segments that is opened within another is one of its strings. -/
theorem OpenForm.nested {kind : StringKind} {depth : Nat} {bytes : Bytes} {contents : List Bytes}
    (form : OpenForm kind (depth + 2) bytes contents) :
    OpenForm kind (depth + 1) (kind.opening :: bytes) contents := by
  obtain ⟨items, rest, others, strings, rfl, rfl, closed⟩ := form.exists_items
  have inner := OpenForm.string (.segmented strings) closed
  simpa using inner

/-- What is left to be read at a depth: a string, or what closes the lists that are open. -/
def Remaining (kind : StringKind) : (depth : Nat) → Bytes → List Bytes → Prop
  | 0 => StringForm kind
  | depth + 1 => OpenForm kind (depth + 1)

/-- The content of a segment is all there, as its header announces it. -/
def Segment.Complete (segment : Segment) : Prop := segment.content.length = segment.length

/-- The bytes of a header, by what it announces of a string. -/
theorem exists_form_of_announced {kind : StringKind} {reader next : Reader} {header : Header}
    {length? : Option Nat} (pulled : reader.pull = .ok (header, next))
    (announced : kind.announced? header = some length?) :
    ∃ form, reader.rest = form ++ next.rest ∧ next.offset = reader.offset + form.length ∧
      length?.elim (form = [kind.opening]) fun length => ArgumentForm kind.major length form := by
  obtain ⟨form, written, split, behind⟩ := exists_headerForm_of_pull pulled
  refine ⟨form, split, behind, ?_⟩
  have made := StringKind.announced?_eq_some_iff.mp announced
  cases written with
  | argued _ found argument =>
      obtain ⟨rfl, rfl⟩ := ofArgument?_inj found made
      exact argument
  | unargued _ found =>
      obtain ⟨rfl, rfl⟩ := ofArgument?_inj found made
      cases kind <;> rfl
  | other =>
      rw [ofOther] at announced
      split at announced <;> cases kind <;> cases announced
  | stop => cases kind <;> cases announced

/-- A segment that is all there is a string. -/
theorem exists_definite_of_announced {kind : StringKind} {reader next : Reader} {header : Header}
    {length : Nat} (pulled : reader.pull = .ok (header, next))
    (announced : kind.announced? header = some (some length))
    (whole : ¬ (next.rest.take length).length < length) :
    ∃ form, StringForm kind form [next.rest.take length] ∧
      reader.rest = form ++ (next.skip length).rest ∧
      (next.skip length).offset = reader.offset + form.length ∧
      (next.rest.take length).length = length := by
  have complete : (next.rest.take length).length = length := by
    rw [List.length_take] at whole ⊢
    omega
  obtain ⟨form, split, behind, argument⟩ := exists_form_of_announced pulled announced
  rw [← complete] at argument
  refine ⟨form ++ next.rest.take length, .definite argument, ?_, ?_, complete⟩
  · rw [split, List.append_assoc, Reader.skip, List.take_append_drop]
  · rw [Reader.skip, behind, List.length_append, complete, Nat.add_assoc]

/-- What is scanned as a string, or as the rest of one, has the form of it. -/
theorem exists_remaining_of_scanWithin {kind : StringKind} {bound depth : Nat}
    {reader next : Reader} {segments : List Segment}
    (scanned : scanWithin kind bound depth reader = (segments, .ok next)) :
    ∃ form, Remaining kind depth form (segments.map (·.content)) ∧
      reader.rest = form ++ next.rest ∧ next.offset = reader.offset + form.length ∧
      ∀ segment ∈ segments, segment.Complete := by
  fun_induction scanWithin kind bound depth reader generalizing segments next with
  | case1 => cases scanned
  | case2 => cases scanned
  | case3 bound reader after pulled =>
      cases scanned
      obtain ⟨form, written, split, behind⟩ := exists_headerForm_of_pull pulled
      rw [written.eq_of_stop] at split behind
      exact ⟨[0xFF], .stop .done, split, behind, by simp⟩
  | case4 bound reader after depth pulled inductionHypothesis =>
      obtain ⟨form, written, split, behind⟩ := exists_headerForm_of_pull pulled
      rw [written.eq_of_stop] at split behind
      obtain ⟨later, remaining, laterSplit, laterBehind, complete⟩ := inductionHypothesis scanned
      refine ⟨0xFF :: later, .stop remaining, ?_, ?_, complete⟩
      · rw [split, laterSplit]
        rfl
      · rw [laterBehind, behind, List.length_singleton, List.length_cons]
        omega
  | case5 bound depth reader header after pulled announced =>
      rw [announced] at scanned
      cases scanned
  | case6 bound depth reader header after pulled announced _ _ inductionHypothesis =>
      rw [announced] at scanned
      obtain ⟨form, split, behind, rfl⟩ := exists_form_of_announced pulled announced
      obtain ⟨later, remaining, laterSplit, laterBehind, complete⟩ := inductionHypothesis scanned
      refine ⟨kind.opening :: later, ?_, ?_, ?_, complete⟩
      · cases depth with
        | zero => exact OpenForm.segmented remaining
        | succ depth => exact OpenForm.nested remaining
      · rw [split, laterSplit]
        rfl
      · rw [laterBehind, behind, List.length_singleton, List.length_cons]
        omega
  | case7 bound depth reader header after pulled length announced start segment short =>
      have cut : (after.rest.take length).length < length := short
      simp only [announced, if_pos cut] at scanned
      cases scanned
  | case8 bound reader header after pulled length announced start segment present =>
      have whole : ¬ (after.rest.take length).length < length := present
      simp only [announced, if_neg whole, if_true] at scanned
      cases scanned
      obtain ⟨form, definite, split, behind, complete⟩ :=
        exists_definite_of_announced pulled announced whole
      exact ⟨form, definite, split, behind, List.forall_mem_singleton.mpr complete⟩
  | case9 bound depth reader header after pulled length announced start segment present inner
      others rest found _ =>
      rename_i inductionHypothesis
      have whole : ¬ (after.rest.take length).length < length := present
      simp only [announced, if_neg whole, if_neg inner, found, Prod.mk.injEq] at scanned
      obtain ⟨rfl, rfl⟩ := scanned
      obtain ⟨form, definite, split, behind, complete⟩ :=
        exists_definite_of_announced pulled announced whole
      obtain ⟨later, remaining, laterSplit, laterBehind, others⟩ := inductionHypothesis found
      refine ⟨form ++ later, ?_, ?_, ?_, ?_⟩
      · cases depth with
        | zero => exact absurd rfl inner
        | succ depth => exact OpenForm.string definite remaining
      · rw [split, laterSplit, List.append_assoc]
      · rw [laterBehind, behind, List.length_append, Nat.add_assoc]
      · intro segment membership
        rcases List.mem_cons.mp membership with rfl | membership
        · exact complete
        · exact others segment membership

section Steps

variable {kind : StringKind} {bound depth : Nat} {reader next : Reader}

theorem scanWithin_of_opening (pulled : reader.pull = .ok (kind.header none, next)) :
    scanWithin kind (bound + 1) depth reader = scanWithin kind bound (depth + 1) next := by
  cases kind <;> simp [scanWithin, pulled, StringKind.header, StringKind.announced?]

theorem scanWithin_of_definite {length : Nat}
    (pulled : reader.pull = .ok (kind.header (some length), next))
    (whole : ¬ (next.rest.take length).length < length) :
    scanWithin kind (bound + 1) (depth + 1) reader =
      (scanWithin kind bound (depth + 1) (next.skip length)).map
        (⟨reader.offset, length, next.rest.take length⟩ :: ·) id := by
  have present : ¬ next.rest.length < length := by simpa using whole
  cases kind <;> simp [scanWithin, pulled, StringKind.header, StringKind.announced?, present,
    Prod.map]

/-- The last list of segments is closed. -/
theorem scanWithin_of_last (pulled : reader.pull = .ok (.stop, next)) :
    scanWithin kind (bound + 1) 1 reader = ([], .ok next) := by
  simp only [scanWithin, pulled]

theorem scanWithin_of_stop (pulled : reader.pull = .ok (.stop, next)) :
    scanWithin kind (bound + 1) (depth + 2) reader = scanWithin kind bound (depth + 1) next := by
  simp only [scanWithin, pulled]

/-- The bytes of an opening are a header. -/
theorem pull_opening (kind : StringKind) (rest : Bytes) (offset : Nat) :
    Reader.pull ⟨kind.opening :: rest, offset⟩ = .ok (kind.header none, ⟨rest, offset + 1⟩) := by
  cases kind <;> rfl

theorem ArgumentForm.pull_string {length : Nat} {form : Bytes}
    (written : ArgumentForm kind.major length form) (rest : Bytes) (offset : Nat) :
    Reader.pull ⟨form ++ rest, offset⟩ =
      .ok (kind.header (some length), ⟨rest, offset + form.length⟩) := by
  refine HeaderForm.pull (.argued ?_ ?_ written) rest offset
  · cases kind <;> decide
  · exact StringKind.announced?_eq_some_iff.mp (kind.announced?_header _)

end Steps

/-- In a list of segments some bytes are scanned as segments with some contents, whatever
follows them. -/
def Scans (kind : StringKind) (form : Bytes) (contents : List Bytes) : Prop :=
  ∃ headers ≤ form.length, ∀ offset, ∃ segments : List Segment,
    segments.map (·.content) = contents ∧ (∀ segment ∈ segments, segment.Complete) ∧
      ∀ bound depth rest,
        scanWithin kind (bound + headers) (depth + 1) ⟨form ++ rest, offset⟩ =
          (scanWithin kind bound (depth + 1) ⟨rest, offset + form.length⟩).map (segments ++ ·) id

section Scans

variable {kind : StringKind}

theorem scans_nil : Scans kind [] [] := by
  refine ⟨0, Nat.le_refl 0, fun offset => ⟨[], rfl, by simp, ?_⟩⟩
  intro bound depth rest
  rfl

theorem Scans.append {front back : Bytes} {contents others : List Bytes}
    (first : Scans kind front contents) (second : Scans kind back others) :
    Scans kind (front ++ back) (contents ++ others) := by
  obtain ⟨few, fewer, scanFirst⟩ := first
  obtain ⟨more, moreFew, scanSecond⟩ := second
  refine ⟨more + few, ?_, ?_⟩
  · rw [List.length_append]
    omega
  · intro offset
    obtain ⟨segments, rfl, complete, scanned⟩ := scanFirst offset
    obtain ⟨later, rfl, laterComplete, laterScanned⟩ := scanSecond (offset + front.length)
    refine ⟨segments ++ later, List.map_append, ?_, ?_⟩
    · intro segment membership
      exact (List.mem_append.mp membership).elim (complete segment) (laterComplete segment)
    · intro bound depth rest
      rw [← Nat.add_assoc, List.append_assoc, scanned, laterScanned, List.length_append,
        Nat.add_assoc]
      simp only [Prod.map, id_eq, List.append_assoc]

theorem scans_definite {header content : Bytes}
    (announced : ArgumentForm kind.major content.length header) :
    Scans kind (header ++ content) [content] := by
  refine ⟨1, ?_, ?_⟩
  · have positive := announced.length_pos
    rw [List.length_append]
    omega
  · intro offset
    refine ⟨[⟨offset, content.length, content⟩], rfl, List.forall_mem_singleton.mpr rfl, ?_⟩
    intro bound depth rest
    have pulled := announced.pull_string (content ++ rest) offset
    rw [← List.append_assoc] at pulled
    rw [scanWithin_of_definite pulled (by simp)]
    simp only [List.take_left, Reader.skip, List.drop_left, List.length_append, Nat.add_assoc]
    rfl

theorem scans_segmented {items : Bytes} {contents : List Bytes}
    (inner : Scans kind items contents) :
    Scans kind (kind.opening :: items ++ [0xFF]) contents := by
  obtain ⟨headers, few, scanItems⟩ := inner
  refine ⟨1 + headers + 1, ?_, ?_⟩
  · rw [List.length_append, List.length_cons, List.length_singleton]
    omega
  · intro offset
    obtain ⟨segments, rfl, complete, scanned⟩ := scanItems (offset + 1)
    refine ⟨segments, rfl, complete, ?_⟩
    intro bound depth rest
    have stopped : Reader.pull ⟨0xFF :: rest, offset + 1 + items.length⟩ =
        .ok (.stop, ⟨rest, offset + 1 + items.length + 1⟩) := rfl
    have opened := pull_opening kind (items ++ 0xFF :: rest) offset
    have shape : kind.opening :: items ++ [0xFF] ++ rest =
        kind.opening :: (items ++ 0xFF :: rest) := by simp
    rw [show bound + (1 + headers + 1) = bound + 1 + headers + 1 by omega, shape,
      scanWithin_of_opening opened, scanned, scanWithin_of_stop stopped]
    simp [Nat.add_assoc, Nat.add_comm 1]

theorem scans_flatMap {items : List (Bytes × List Bytes)}
    (each : ∀ item ∈ items, Scans kind item.1 item.2) :
    Scans kind (items.flatMap (·.1)) (items.flatMap (·.2)) := by
  induction items with
  | nil => exact scans_nil
  | cons item items inductionHypothesis =>
      rw [List.flatMap_cons, List.flatMap_cons]
      refine (each item List.mem_cons_self).append (inductionHypothesis ?_)
      intro other membership
      exact each other (List.mem_cons_of_mem _ membership)

theorem StringForm.scans {form : Bytes} {contents : List Bytes}
    (written : StringForm kind form contents) : Scans kind form contents := by
  induction written with
  | definite announced => exact scans_definite announced
  | segmented _ inductionHypothesis => exact scans_segmented (scans_flatMap inductionHypothesis)

/-- A string is scanned up to its end, and what follows it is left. -/
theorem StringForm.exists_scan {form : Bytes} {contents : List Bytes}
    (written : StringForm kind form contents) (rest : Bytes) (offset : Nat) :
    ∃ segments : List Segment, segments.map (·.content) = contents ∧
      (∀ segment ∈ segments, segment.Complete) ∧
      scan kind ⟨form ++ rest, offset⟩ = (segments, .ok ⟨rest, offset + form.length⟩) := by
  cases written with
  | @definite header content announced =>
      have pulled := announced.pull_string (content ++ rest) offset
      rw [← List.append_assoc] at pulled
      obtain ⟨start, scanned⟩ := exists_scan_eq rest pulled (kind.announced?_header _) rfl
      refine ⟨[⟨start, content.length, content⟩], rfl, List.forall_mem_singleton.mpr rfl, ?_⟩
      rw [scanned, List.length_append, Nat.add_assoc]
  | @segmented items strings =>
      obtain ⟨headers, few, scanItems⟩ := scans_flatMap fun item membership =>
        (strings item membership).scans
      obtain ⟨segments, same, complete, scanned⟩ := scanItems (offset + 1)
      refine ⟨segments, same, complete, ?_⟩
      generalize items.flatMap (·.1) = inside at few scanned
      have opened := pull_opening kind (inside ++ 0xFF :: rest) offset
      have stopped : Reader.pull ⟨0xFF :: rest, offset + 1 + inside.length⟩ =
          .ok (.stop, ⟨rest, offset + 1 + inside.length + 1⟩) := rfl
      have shape : kind.opening :: inside ++ [0xFF] ++ rest =
          kind.opening :: (inside ++ 0xFF :: rest) := by simp
      -- The bound is more than the headers in the list and the stop after them.
      obtain ⟨more, enough⟩ : ∃ more,
          (kind.opening :: (inside ++ 0xFF :: rest)).length = more + 1 + headers :=
        ⟨inside.length + 1 + rest.length - headers, by
          simp only [List.length_cons, List.length_append]
          omega⟩
      rw [shape, scan, scanWithin_of_opening opened, enough, scanned, scanWithin_of_last stopped]
      simp [Nat.add_assoc, Nat.add_comm 1]

/-- A string begins with a header of its kind, and what that announces follows. -/
theorem StringForm.exists_pull {form : Bytes} {contents : List Bytes}
    (written : StringForm kind form contents) (rest : Bytes) (offset : Nat) :
    ∃ length? next, Reader.pull ⟨form ++ rest, offset⟩ = .ok (kind.header length?, next) ∧
      ¬ AnnouncesTooMuch length? next.rest := by
  cases written with
  | @definite header content announced =>
      have pulled := announced.pull_string (content ++ rest) offset
      have present : content.length ≤ (content ++ rest).length :=
        List.length_append ▸ Nat.le_add_right _ _
      rw [← List.append_assoc] at pulled
      exact ⟨_, _, pulled, not_announcesTooMuch present⟩
  | segmented => exact ⟨_, _, pull_opening kind _ offset, fun muchAnnounced => by cases muchAnnounced.1⟩

end Scans

end VersionedKeys.Cbor
