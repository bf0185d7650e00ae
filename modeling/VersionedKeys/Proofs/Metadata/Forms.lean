import Mathlib.Data.List.Forall2
import VersionedKeys.Proofs.Cbor.Reading
import VersionedKeys.Metadata.Values
import VersionedKeys.Proofs.Tagged

/-!
# Forms of values in metadata

Other writers may put tags in front of an item, or leave it to a stop where a container ends.
Whatever they do, an item is read to one outcome, and what follows it is left: `Yields`.  The items
of a container take the state of a reader a step further each (`Stepwise.exists_entries`).
-/

namespace VersionedKeys.Metadata

open Cbor

/-- Some bytes are read to an outcome.  If that is a value, what follows them is left. -/
def Yields {Value : Type} (read : Reader → Except Fault (Value × Reader)) (bytes : Bytes)
    (outcome : Except Fault Value) : Prop :=
  ∀ rest offset, read ⟨bytes ++ rest, offset⟩ =
    outcome.map fun value => (value, ⟨rest, offset + bytes.length⟩)

theorem Yields.bind {First Second : Type} {first : Reader → Except Fault (First × Reader)}
    {second : First → Reader → Except Fault (Second × Reader)} {front back : Bytes}
    {outcome : Except Fault First} {next : First → Except Fault Second}
    (begins : Yields first front outcome)
    (continues : ∀ value, outcome = .ok value → Yields (second value) back (next value)) :
    Yields (fun reader => do
      let (value, after) ← first reader
      second value after) (front ++ back) (outcome >>= next) := by
  intro rest offset
  rw [List.append_assoc]
  simp only [begins (back ++ rest) offset]
  cases outcome with
  | error fault => rfl
  | ok value =>
      rw [List.length_append, ← Nat.add_assoc]
      exact continues value rfl rest _

theorem Yields.map {Value Other : Type} {read : Reader → Except Fault (Value × Reader)}
    {bytes : Bytes} {outcome : Except Fault Value} (yields : Yields read bytes outcome)
    (make : Value → Other) :
    Yields (fun reader => (read reader).map fun (value, next) => (make value, next)) bytes
      (outcome.map make) := by
  intro rest offset
  simp only [yields rest offset]
  cases outcome <;> rfl

/-- Some bytes begin with a header that is no stop. -/
def Begins (bytes : Bytes) : Prop :=
  ∀ rest offset, ∃ header next,
    Reader.pull ⟨bytes ++ rest, offset⟩ = .ok (header, next) ∧ header ≠ .stop

theorem Begins.append {front : Bytes} (begins : Begins front) (back : Bytes) :
    Begins (front ++ back) := by
  intro rest offset
  rw [List.append_assoc]
  exact begins (back ++ rest) offset

theorem Begins.length_pos {bytes : Bytes} (begins : Begins bytes) : 0 < bytes.length := by
  cases bytes with
  | nil =>
      obtain ⟨header, next, pulled, -⟩ := begins [] 0
      cases pulled
  | cons => exact Nat.succ_pos _

theorem begins_of_headerForm {header : Header} {form : Bytes} (written : HeaderForm header form)
    (plain : header ≠ .stop) : Begins form :=
  fun rest offset => ⟨header, _, written.pull rest offset, plain⟩

theorem begins_of_stringForm {kind : StringKind} {form : Bytes} {contents : List Bytes}
    (written : StringForm kind form contents) : Begins form := by
  intro rest offset
  obtain ⟨length?, next, pulled, -⟩ := written.exists_pull rest offset
  exact ⟨_, next, pulled, by cases kind <;> simp [StringKind.header]⟩

/-- Any number of tags, of which none begins a big number. -/
inductive Tags : Bytes → Prop where
  | nil : Tags []
  | cons {number : Nat} {form rest : Bytes} (plain : number ≠ 2 ∧ number ≠ 3)
      (written : HeaderForm (.tag number) form) (later : Tags rest) : Tags (form ++ rest)

/-- An item with any number of tags in front of it. -/
def BehindTags (Form : Bytes → Prop) (bytes : Bytes) : Prop :=
  ∃ tags item, Tags tags ∧ Form item ∧ bytes = tags ++ item

theorem Tags.begins {tags item : Bytes} (written : Tags tags) (begins : Begins item) :
    Begins (tags ++ item) := by
  cases written with
  | nil => exact begins
  | cons _ first _ =>
      rw [List.append_assoc]
      exact (begins_of_headerForm first (by simp)).append _

theorem BehindTags.begins {Form : Bytes → Prop} {bytes : Bytes} (written : BehindTags Form bytes)
    (begins : ∀ item, Form item → Begins item) : Begins bytes := by
  obtain ⟨tags, item, tagged, form, rfl⟩ := written
  exact tagged.begins (begins item form)

section Tags

variable {rest : Bytes} {header : Header} {next : Reader}

theorem Tags.untaggedWithin_eq {tags : Bytes} (written : Tags tags) {offset : Nat}
    (pulled : Reader.pull ⟨rest, offset + tags.length⟩ = .ok (header, next))
    (plain : ∀ number, header ≠ .tag number) {bound : Nat} (enough : tags.length < bound) :
    untaggedWithin bound ⟨tags ++ rest, offset⟩ =
      .ok (⟨rest, offset + tags.length⟩, header, next) := by
  induction written generalizing offset bound with
  | nil =>
      obtain ⟨bound, rfl⟩ := Nat.exists_eq_add_one_of_ne_zero (Nat.ne_of_gt enough)
      rw [List.length_nil, Nat.add_zero] at pulled
      rw [List.nil_append, List.length_nil, Nat.add_zero, untaggedWithin, pulled]
      cases header with
      | tag number => exact absurd rfl (plain number)
      | _ => rfl
  | @cons number form later _ first _ inductionHypothesis =>
      have some := (begins_of_headerForm first (by simp)).length_pos
      obtain ⟨bound, rfl⟩ :=
        Nat.exists_eq_add_one_of_ne_zero (Nat.ne_of_gt (Nat.zero_lt_of_lt enough))
      rw [List.length_append] at enough
      rw [List.length_append, ← Nat.add_assoc] at pulled ⊢
      rw [untaggedWithin, List.append_assoc, first.pull]
      exact inductionHypothesis pulled (by omega)

/-- Tags are passed over. -/
theorem Tags.untagged_eq {tags : Bytes} (written : Tags tags) {offset : Nat}
    (pulled : Reader.pull ⟨rest, offset + tags.length⟩ = .ok (header, next))
    (plain : ∀ number, header ≠ .tag number) :
    untagged ⟨tags ++ rest, offset⟩ = .ok (⟨rest, offset + tags.length⟩, header, next) := by
  rw [untagged, written.untaggedWithin_eq pulled plain (by simp only [List.length_append]; omega)]
  rfl

end Tags

/-- A list of items in a container: behind a header with their number, or up to a stop. -/
inductive ContainerForm (container : Option Nat → Header) (items : List Bytes) : Bytes → Prop where
  | definite {head : Bytes} (announced : HeaderForm (container (some items.length)) head) :
      ContainerForm container items (head ++ items.flatten)
  | indefinite {head : Bytes} (opened : HeaderForm (container none) head) :
      ContainerForm container items (head ++ (items.flatten ++ [0xFF]))

theorem ContainerForm.begins {container : Option Nat → Header} {items : List Bytes} {form : Bytes}
    (contained : ContainerForm container items form)
    (plain : ∀ length?, container length? ≠ .stop) : Begins form := by
  cases contained with
  | definite announced => exact (begins_of_headerForm announced (plain _)).append _
  | indefinite opened => exact (begins_of_headerForm opened (plain _)).append _

section Entries

variable {State Item : Type} {entry : Bool → State → Reader → Except Fault (State × Reader)}
  {step : State → Item → Except Fault State} {items : List Item} {written : List Bytes}

/-- Each of the items is written, and takes the state of a reader a step further. -/
def Stepwise (entry : Bool → State → Reader → Except Fault (State × Reader))
    (step : State → Item → Except Fault State) (items : List Item) (written : List Bytes) : Prop :=
  List.Forall₂ (fun item bytes => Begins bytes ∧
    ∀ seen state, Yields (entry seen state) bytes (step state item)) items written

theorem Stepwise.length_le (stepwise : Stepwise entry step items written) :
    written.length ≤ written.flatten.length := by
  induction stepwise with
  | nil => exact Nat.le_refl 0
  | cons first _ inductionHypothesis =>
      have positive := first.1.length_pos
      rw [List.length_cons, List.flatten_cons, List.length_append]
      omega

theorem Stepwise.entriesWithin_definite (stepwise : Stepwise entry step items written)
    {bound : Nat} (enough : written.length ≤ bound) (state : State) (rest : Bytes) (offset : Nat) :
    entriesWithin entry bound (some written.length) state ⟨written.flatten ++ rest, offset⟩ =
      (items.foldlM step state).map fun last =>
        (last, ⟨rest, offset + written.flatten.length⟩) := by
  induction stepwise generalizing bound state offset with
  | nil => cases bound <;> rfl
  | @cons item bytes items written first _ inductionHypothesis =>
      cases bound with
      | zero => simp at enough
      | succ bound =>
          have following := inductionHypothesis (Nat.le_of_succ_le_succ enough)
          rw [List.length_cons, entriesWithin, List.flatten_cons, List.append_assoc,
            first.2 false state, List.foldlM_cons]
          cases step state item with
          | error fault => rfl
          | ok next =>
              simp only [Outcome.map_ok, Outcome.ok_bind, following, List.length_append,
                Nat.add_assoc]

theorem entriesWithin_of_pull {bound : Nat} {state : State} {reader next : Reader}
    {header : Header} (pulled : reader.pull = .ok (header, next)) (plain : header ≠ .stop) :
    entriesWithin entry (bound + 1) none state reader =
      entry true state reader >>= fun (state, next) =>
        entriesWithin entry bound none state next := by
  rw [entriesWithin, pulled]
  cases header with
  | stop => exact absurd rfl plain
  | _ => rfl

theorem Stepwise.entriesWithin_indefinite (stepwise : Stepwise entry step items written)
    {bound : Nat} (enough : written.length < bound) (state : State) (rest : Bytes) (offset : Nat) :
    entriesWithin entry bound none state ⟨written.flatten ++ ([0xFF] ++ rest), offset⟩ =
      (items.foldlM step state).map fun last =>
        (last, ⟨rest, offset + (written.flatten.length + 1)⟩) := by
  induction stepwise generalizing bound state offset with
  | nil =>
      obtain ⟨bound, rfl⟩ := Nat.exists_eq_add_one_of_ne_zero (Nat.ne_of_gt enough)
      rfl
  | @cons item bytes items written first _ inductionHypothesis =>
      cases bound with
      | zero => simp at enough
      | succ bound =>
          have following := inductionHypothesis (Nat.lt_of_succ_lt_succ enough)
          obtain ⟨header, next, pulled, plain⟩ :=
            first.1 (written.flatten ++ ([0xFF] ++ rest)) offset
          rw [List.flatten_cons, List.append_assoc, entriesWithin_of_pull pulled plain,
            first.2 true state, List.foldlM_cons]
          cases step state item with
          | error fault => rfl
          | ok next =>
              simp only [Outcome.map_ok, Outcome.ok_bind, following, List.length_append,
                Nat.add_assoc]

/-- The items of a container are gone through, whether they have been counted or not. -/
theorem Stepwise.exists_entries {container : Option Nat → Header} {bytes : Bytes}
    (stepwise : Stepwise entry step items written)
    (contained : ContainerForm container written bytes) :
    ∃ length? head body, bytes = head ++ body ∧ HeaderForm (container length?) head ∧
      ∀ state, Yields (entries entry length? state) body (items.foldlM step state) := by
  have length := stepwise.length_le
  cases contained with
  | @definite head announced =>
      refine ⟨some written.length, head, written.flatten, rfl, announced, ?_⟩
      intro state rest offset
      refine stepwise.entriesWithin_definite ?_ state rest offset
      rw [List.length_append]
      omega
  | @indefinite head opened =>
      refine ⟨none, head, written.flatten ++ [0xFF], rfl, opened, ?_⟩
      intro state rest offset
      rw [List.append_assoc, List.length_append]
      refine stepwise.entriesWithin_indefinite ?_ state rest offset
      rw [List.length_append]
      omega

end Entries

section Values

/-- A text in one piece. -/
def TextForm (text : String) (bytes : Bytes) : Prop :=
  ∃ head, HeaderForm (.text (some (Utf8.encode text).length)) head ∧
    bytes = head ++ Utf8.encode text

/-- A text in whatever segments it comes. -/
def SegmentedForm (text : String) (bytes : Bytes) : Prop :=
  ∃ contents, StringForm .text bytes contents ∧
    (∀ content ∈ contents, Utf8.Valid content) ∧ contents.flatten = Utf8.encode text

def BoolForm (value : Bool) : Bytes → Prop :=
  HeaderForm (.simple (if value then 21 else 20))

def NumberForm (number : UInt32) : Bytes → Prop :=
  HeaderForm (.positive number.toNat)

variable {bytes : Bytes}

theorem TextForm.begins {text : String} (written : TextForm text bytes) : Begins bytes := by
  obtain ⟨head, announced, rfl⟩ := written
  exact (begins_of_headerForm announced (by simp)).append _

theorem TextForm.exists_pull {text : String} (written : TextForm text bytes) (rest : Bytes)
    (offset : Nat) :
    ∃ before, Reader.pull ⟨bytes ++ rest, offset⟩ =
      .ok (.text (some (Utf8.encode text).length), ⟨Utf8.encode text ++ rest, before⟩) ∧
      before + (Utf8.encode text).length = offset + bytes.length := by
  obtain ⟨head, announced, rfl⟩ := written
  refine ⟨offset + head.length, ?_, ?_⟩
  · rw [List.append_assoc, announced.pull]
  · rw [List.length_append, Nat.add_assoc]

theorem yields_exactly (content : Bytes) :
    Yields (exactly content.length) content (.ok content) := by
  intro rest offset
  rw [exactly]
  simp only [List.take_left, Nat.lt_irrefl, if_false, Reader.skip, List.drop_left]
  rfl

/-- A short text is read as a label, whether or not its header has been looked at before. -/
theorem yields_readLabel {text : String} (short : (Utf8.encode text).length ≤ stringCapacity)
    (seen : Bool) (written : BehindTags (TextForm text) bytes) :
    Yields (readLabel seen) bytes (.ok (Utf8.encode text)) := by
  obtain ⟨tags, item, tagged, form, rfl⟩ := written
  intro rest offset
  obtain ⟨before, pulled, length⟩ := form.exists_pull rest (offset + tags.length)
  have valid : (Utf8.decode? (Utf8.encode text)).isSome := by
    rw [Utf8.decode?_encode]
    rfl
  rw [List.append_assoc, readLabel, tagged.untagged_eq pulled (by simp)]
  simp only [Outcome.ok_bind, if_neg (Nat.not_lt.mpr short), yields_exactly _ rest before,
    Outcome.map_ok, valid, if_true, length, List.length_append, Nat.add_assoc]

theorem yields_readText {text : String} (written : BehindTags (SegmentedForm text) bytes) :
    Yields readText bytes (.ok text) := by
  obtain ⟨tags, item, tagged, ⟨contents, form, valid, whole⟩, rfl⟩ := written
  intro rest offset
  obtain ⟨length?, next, pulled, -⟩ := form.exists_pull rest (offset + tags.length)
  have found := form.text_eq valid whole (show 4 ≤ stringCapacity by decide) rest
  rw [List.append_assoc, readText, tagged.untagged_eq pulled (by simp [StringKind.header])]
  simp only [Outcome.ok_bind, StringKind.header, found, ofCbor, Outcome.mapError_ok,
    Outcome.map_ok, List.length_append, Nat.add_assoc]

theorem yields_readBool {value : Bool} (written : BehindTags (BoolForm value) bytes) :
    Yields readBool bytes (.ok value) := by
  obtain ⟨tags, item, tagged, form, rfl⟩ := written
  intro rest offset
  have pulled := form.pull rest (offset + tags.length)
  rw [List.append_assoc, readBool, tagged.untagged_eq pulled (by simp)]
  cases value <;> simp [Nat.add_assoc]

theorem readIntegerWithin_of_tag {bound number : Nat} {reader next : Reader}
    (plain : number ≠ 2 ∧ number ≠ 3) (pulled : reader.pull = .ok (.tag number, next)) :
    readIntegerWithin (bound + 1) reader = readIntegerWithin bound next := by
  simp only [readIntegerWithin, pulled, ofCbor, Outcome.mapError_ok, Outcome.ok_bind]
  split <;> simp_all

theorem Tags.readIntegerWithin_eq {tags form rest : Bytes} (tagged : Tags tags) {value : Nat}
    (written : HeaderForm (.positive value) form) {bound : Nat} (enough : tags.length < bound)
    (offset : Nat) :
    readIntegerWithin bound ⟨tags ++ (form ++ rest), offset⟩ =
      .ok ((false, value), ⟨rest, offset + (tags.length + form.length)⟩) := by
  induction tagged generalizing bound offset with
  | nil =>
      obtain ⟨bound, rfl⟩ := Nat.exists_eq_add_one_of_ne_zero (Nat.ne_of_gt enough)
      rw [List.nil_append, readIntegerWithin, written.pull, List.length_nil, Nat.zero_add]
      rfl
  | @cons number head later plain first _ inductionHypothesis =>
      have some := (begins_of_headerForm first (by simp)).length_pos
      obtain ⟨bound, rfl⟩ :=
        Nat.exists_eq_add_one_of_ne_zero (Nat.ne_of_gt (Nat.zero_lt_of_lt enough))
      rw [List.length_append] at enough
      rw [List.append_assoc, readIntegerWithin_of_tag plain (first.pull _ _),
        inductionHypothesis (by omega)]
      simp only [List.length_append, Nat.add_assoc]

theorem yields_readNumber {number : UInt32} (written : BehindTags (NumberForm number) bytes) :
    Yields readNumber bytes (.ok number) := by
  obtain ⟨tags, item, tagged, form, rfl⟩ := written
  intro rest offset
  have bound := number.toNat_lt
  rw [List.append_assoc, readNumber,
    tagged.readIntegerWithin_eq form (by simp only [List.length_append]; omega)]
  simp only [Outcome.ok_bind, Bool.false_eq_true, if_false]
  rw [if_neg (by simp only [UInt64.size]; omega), if_neg (by simp only [UInt32.size]; omega)]
  simp only [UInt32.ofNat_toNat, List.length_append, Outcome.map_ok]

section Choices

variable {Choice : Type} [Tagged Choice] [Tagged.Lawful Choice]

theorem yields_readChoiceTag {choice : Choice} (seen : Bool)
    (written : BehindTags (TextForm (Tagged.tag choice)) bytes) :
    Yields (readChoiceTag seen) bytes (.ok choice) := by
  intro rest offset
  have length := Tagged.Lawful.length_encode_tag_le choice
  have short : (Utf8.encode (Tagged.tag choice)).length ≤ stringCapacity := by
    rw [stringCapacity]
    omega
  have sameTag (other : Choice) :
      (Utf8.encode (Tagged.tag other) == Utf8.encode (Tagged.tag choice)) =
        (Tagged.tag other == Tagged.tag choice) := by
    rw [Bool.eq_iff_iff, beq_iff_eq, beq_iff_eq, Utf8.encode_inj]
  have listed := Tagged.Lawful.ofTag?_tag choice
  rw [Tagged.ofTag?] at listed
  rw [readChoiceTag, yields_readLabel short seen written]
  simp only [Outcome.map_ok, Outcome.ok_bind, sameTag, listed]

theorem yields_readChoice {choice : Choice}
    (written : BehindTags (TextForm (Tagged.tag choice)) bytes) :
    Yields readChoice bytes (.ok choice) := by
  obtain ⟨tags, item, tagged, form, rfl⟩ := written
  intro rest offset
  obtain ⟨before, pulled, -⟩ := form.exists_pull rest (offset + tags.length)
  have found : Yields (readChoiceTag true) item (.ok choice) :=
    yields_readChoiceTag true ⟨[], item, .nil, form, rfl⟩
  rw [List.append_assoc, readChoice, tagged.untagged_eq pulled (by simp)]
  simp only [Outcome.ok_bind, found rest, Outcome.map_ok, List.length_append, Nat.add_assoc]

end Choices

end Values

end VersionedKeys.Metadata
