import VersionedKeys.Proofs.Metadata.Entries
import VersionedKeys.Proofs.Metadata.Ignored

/-!
# Maps of metadata

Metadata is decoded to what its entries give, however they are written, and whatever follows them:
`Metadata.decode_eq_ofEntries`.
-/

namespace VersionedKeys

open Cbor

namespace Metadata

/-- The name of a field, with any number of tags in front of it. -/
def LabelForm (label : String) : Bytes → Prop := BehindTags (TextForm label)

/-- Items in a container, with any number of tags in front of it. -/
def ListForm {Item : Type} (container : Option Nat → Header) (Form : Item → Bytes → Prop)
    (items : List Item) (bytes : Bytes) : Prop :=
  ∃ written, List.Forall₂ Form items written ∧ BehindTags (ContainerForm container written) bytes

theorem ListForm.begins {Item : Type} {container : Option Nat → Header}
    {Form : Item → Bytes → Prop} {items : List Item} {bytes : Bytes}
    (form : ListForm container Form items bytes)
    (plain : ∀ length?, container length? ≠ .stop) : Begins bytes := by
  obtain ⟨written, -, contained⟩ := form
  exact contained.begins fun _ contained => contained.begins plain

section Maps

variable {Fields Value : Type}
  {assign : Fields → Bytes → Reader → Except Fault (Fields × Reader)} {bytes : Bytes}

theorem yields_readField {read : Reader → Except Fault (Value × Reader)}
    {outcome : Except Fault Value} (yields : Yields read bytes outcome) (name : String)
    (present : Option Value) :
    Yields (readField name present read) bytes (once name present outcome) := by
  intro rest offset
  rw [readField, once]
  split
  · rfl
  · exact yields.map some rest offset

/-- An entry of a map: the name of a field, and its value. -/
def labelled (assign : Fields → Bytes → Reader → Except Fault (Fields × Reader)) (seen : Bool)
    (fields : Fields) (reader : Reader) : Except Fault (Fields × Reader) := do
  let (key, next) ← readLabel seen reader
  assign fields key next

theorem yields_labelled {label : String} {key : Bytes} {fields : Fields}
    {outcome : Except Fault Fields} (short : (Utf8.encode label).length ≤ stringCapacity)
    (labels : LabelForm label key) (seen : Bool)
    (yields : Yields (assign fields (Utf8.encode label)) bytes outcome) :
    Yields (labelled assign seen fields) (key ++ bytes) outcome := by
  have both : Yields (labelled assign seen fields) (key ++ bytes)
      (.ok (Utf8.encode label) >>= fun _ => outcome) := by
    refine (yields_readLabel short seen labels).bind ?_
    rintro _ ⟨⟩
    exact yields
  exact both

/-- Under the label of a field its value is read, and stored if it is there for the first time. -/
theorem yields_stored {read : Reader → Except Fault (Value × Reader)} {outcome : Except Fault Value}
    {name : String} {key : Bytes} {fields : Fields} {present : Option Value}
    {store : Option Value → Fields} (short : (Utf8.encode name).length ≤ stringCapacity)
    (label : LabelForm name key) (seen : Bool) (yields : Yields read bytes outcome)
    (assigned : assign fields (Utf8.encode name) = fun reader =>
      (readField name present read reader).map fun (value, next) => (store value, next)) :
    Yields (labelled assign seen fields) (key ++ bytes) ((once name present outcome).map store) := by
  refine yields_labelled short label seen ?_
  rw [assigned]
  exact (yields_readField yields name present).map store

/-- The entries of a map are read one after the other. -/
theorem yields_readMap {Entry : Type} {step : Fields → Entry → Except Fault Fields}
    {entries : List Entry} {written : List Bytes}
    (stepwise : Stepwise (labelled assign) step entries written)
    (contained : BehindTags (ContainerForm .map written) bytes) (first : Fields) :
    Yields (readMap assign first) bytes (entries.foldlM step first) := by
  obtain ⟨tags, item, tagged, contained, rfl⟩ := contained
  obtain ⟨length?, head, body, rfl, announced, entered⟩ := stepwise.exists_entries contained
  intro rest offset
  have pulled := announced.pull (body ++ rest) (offset + tags.length)
  rw [List.append_assoc, List.append_assoc, readMap, tagged.untagged_eq pulled (by simp)]
  simp only [Outcome.ok_bind, List.length_append, ← Nat.add_assoc]
  exact entered first rest _

end Maps

end Metadata

open Metadata

namespace KeyVersion

/-- An entry of the map of a version, as it is written. -/
inductive Entry.Form : Entry → Bytes → Prop where
  | number {value : UInt32} {key bytes : Bytes} (label : LabelForm "versionNumber" key)
      (given : BehindTags (NumberForm value) bytes) : Form (.number value) (key ++ bytes)
  | status {value : KeyStatus} {key bytes : Bytes} (label : LabelForm "status" key)
      (given : BehindTags (TextForm (Tagged.tag value)) bytes) : Form (.status value) (key ++ bytes)
  | exportable {value : Bool} {key bytes : Bytes} (label : LabelForm "exportable" key)
      (given : BehindTags (BoolForm value) bytes) : Form (.exportable value) (key ++ bytes)
  /-- An entry under another label, with a value in which as much may be nested as in the map. -/
  | ignored {label : String} {key bytes : Bytes}
      (other : label ∉ ["versionNumber", "status", "exportable"])
      (short : (Utf8.encode label).length ≤ stringCapacity) (labels : LabelForm label key)
      (given : Ignorable (nestingLimit - 3) bytes) : Form .ignored (key ++ bytes)

theorem Entry.Form.begins {entry : Entry} {bytes : Bytes} (form : Form entry bytes) :
    Begins bytes := by
  cases form with
  | number label | status label | exportable label | ignored _ _ label =>
      exact (label.begins fun _ text => text.begins).append _

theorem Entry.Form.yields {entry : Entry} {bytes : Bytes} (form : Form entry bytes) (seen : Bool)
    (found : Found) : Yields (labelled Found.field seen found) bytes (store found entry) := by
  cases form with
  | number label given => exact yields_stored (by decide) label seen (yields_readNumber given) rfl
  | status label given => exact yields_stored (by decide) label seen (yields_readChoice given) rfl
  | exportable label given => exact yields_stored (by decide) label seen (yields_readBool given) rfl
  | @ignored label key bytes other short labels given =>
      refine yields_labelled short labels seen ?_
      simp only [List.mem_cons, List.not_mem_nil, or_false, not_or] at other
      intro rest offset
      rw [Found.field, if_neg (Utf8.encode_inj.not.mpr other.1),
        if_neg (Utf8.encode_inj.not.mpr other.2.1), if_neg (Utf8.encode_inj.not.mpr other.2.2),
        given.passesOver]
      rfl

/-- The map of a version. -/
def MapForm : List Entry → Bytes → Prop := ListForm .map Entry.Form

theorem yields_read {entries : List Entry} {bytes : Bytes} (form : MapForm entries bytes) :
    Yields read bytes (ofEntries entries) := by
  obtain ⟨written, forms, contained⟩ := form
  have stepwise : Stepwise (labelled Found.field) Entry.store entries written :=
    forms.imp fun _ _ form => ⟨form.begins, form.yields⟩
  intro rest offset
  rw [read, yields_readMap stepwise contained, ofEntries]
  cases entries.foldlM Entry.store {} with
  | error fault => rfl
  | ok found =>
      simp only [Outcome.map_ok, Outcome.ok_bind]
      cases found.version <;> rfl

end KeyVersion

namespace Metadata

/-- An entry of the map of metadata, as it is written. -/
inductive Entry.Form : Entry → Bytes → Prop where
  | name {value : String} {key bytes : Bytes} (label : LabelForm "name" key)
      (given : BehindTags (SegmentedForm value) bytes) : Form (.name value) (key ++ bytes)
  | purpose {value : KeyPurpose} {key bytes : Bytes} (label : LabelForm "purpose" key)
      (given : BehindTags (TextForm (Tagged.tag value)) bytes) :
      Form (.purpose value) (key ++ bytes)
  | keyType {value : KeyType} {key bytes : Bytes} (label : LabelForm "type" key)
      (given : BehindTags (TextForm (Tagged.tag value)) bytes) :
      Form (.keyType value) (key ++ bytes)
  | encrypted {value : Bool} {key bytes : Bytes} (label : LabelForm "encrypted" key)
      (given : BehindTags (BoolForm value) bytes) : Form (.encrypted value) (key ++ bytes)
  | versions {maps : List (List KeyVersion.Entry)} {key bytes : Bytes}
      (label : LabelForm "versions" key) (given : ListForm .array KeyVersion.MapForm maps bytes) :
      Form (.versions maps) (key ++ bytes)
  /-- An entry under another label, with a value in which as much may be nested as in the map. -/
  | ignored {label : String} {key bytes : Bytes}
      (other : label ∉ ["name", "purpose", "type", "encrypted", "versions"])
      (short : (Utf8.encode label).length ≤ stringCapacity) (labels : LabelForm label key)
      (given : Ignorable (nestingLimit - 1) bytes) : Form .ignored (key ++ bytes)

/-- The items of the array of versions, which are collected last first. -/
def collect (versions : List KeyVersion) (reader : Reader) :
    Except Fault (List KeyVersion × Reader) := do
  let (version, next) ← KeyVersion.read reader
  return (version :: versions, next)

/-- That items are collected last first does not show in the end. -/
theorem foldlM_collect {Item Value : Type} (make : Item → Except Fault Value) (items : List Item)
    (before : List Value) :
    (items.foldlM (fun values item => (make item).map (· :: values)) before).map List.reverse =
      (items.mapM make).map (before.reverse ++ ·) := by
  induction items generalizing before with
  | nil => simp [pure, Except.pure]
  | cons item items inductionHypothesis =>
      rw [List.foldlM_cons, List.mapM_cons]
      cases make item with
      | error fault => rfl
      | ok value =>
          simp only [Outcome.map_ok, Outcome.ok_bind, inductionHypothesis, List.reverse_cons]
          cases items.mapM make <;> simp [pure, Except.pure]

theorem yields_readVersions {maps : List (List KeyVersion.Entry)} {bytes : Bytes}
    (form : ListForm .array KeyVersion.MapForm maps bytes) :
    Yields readVersions bytes (maps.mapM KeyVersion.ofEntries) := by
  obtain ⟨written, forms, tags, item, tagged, contained, rfl⟩ := form
  have stepwise : Stepwise (fun _ => collect)
      (fun versions entries => (KeyVersion.ofEntries entries).map (· :: versions))
      maps written := by
    refine forms.imp fun entries bytes form => ⟨form.begins (by simp), fun _ versions => ?_⟩
    intro rest offset
    simp only [collect, KeyVersion.yields_read form rest offset]
    cases KeyVersion.ofEntries entries <;> rfl
  obtain ⟨length?, head, body, rfl, announced, entered⟩ := stepwise.exists_entries contained
  intro rest offset
  have pulled := announced.pull (body ++ rest) (offset + tags.length)
  have collected : (maps.foldlM (fun versions entries =>
      (KeyVersion.ofEntries entries).map (· :: versions)) []).map List.reverse =
      maps.mapM KeyVersion.ofEntries := by
    rw [foldlM_collect]
    cases maps.mapM KeyVersion.ofEntries <;> rfl
  rw [List.append_assoc, List.append_assoc, readVersions, tagged.untagged_eq pulled (by simp)]
  simp only [Outcome.ok_bind, List.length_append, ← Nat.add_assoc]
  change (entries (fun _ => collect) length? [] _ >>=
    fun found => .ok (found.1.reverse, found.2)) = _
  rw [entered [] rest, ← collected]
  cases maps.foldlM (fun versions entries =>
    (KeyVersion.ofEntries entries).map (· :: versions)) [] <;> rfl

theorem Entry.Form.begins {entry : Entry} {bytes : Bytes} (form : Form entry bytes) :
    Begins bytes := by
  cases form with
  | name label | purpose label | keyType label | encrypted label | versions label
  | ignored _ _ label =>
      exact (BehindTags.begins label fun _ text => text.begins).append _

theorem Entry.Form.yields {entry : Entry} {bytes : Bytes} (form : Form entry bytes) (seen : Bool)
    (found : Found) : Yields (labelled Found.field seen found) bytes (store found entry) := by
  cases form with
  | name label given => exact yields_stored (by decide) label seen (yields_readText given) rfl
  | purpose label given | keyType label given =>
      exact yields_stored (by decide) label seen (yields_readChoice given) rfl
  | encrypted label given => exact yields_stored (by decide) label seen (yields_readBool given) rfl
  | versions label given =>
      exact yields_stored (by decide) label seen (yields_readVersions given) rfl
  | @ignored label key bytes other short labels given =>
      refine yields_labelled short labels seen ?_
      simp only [List.mem_cons, List.not_mem_nil, or_false, not_or] at other
      obtain ⟨name, purpose, keyType, encrypted, versions⟩ := other
      intro rest offset
      rw [Found.field, if_neg (Utf8.encode_inj.not.mpr name),
        if_neg (Utf8.encode_inj.not.mpr purpose), if_neg (Utf8.encode_inj.not.mpr keyType),
        if_neg (Utf8.encode_inj.not.mpr encrypted), if_neg (Utf8.encode_inj.not.mpr versions),
        given.passesOver]
      rfl

/-- The map of metadata. -/
def MapForm : List Entry → Bytes → Prop := ListForm .map Entry.Form

/-- Metadata is decoded to what its entries give, and what follows it does not count. -/
theorem decode_eq_ofEntries {entries : List Entry} {bytes : Bytes} (form : MapForm entries bytes)
    (rest : Bytes) : decode (bytes ++ rest) = ofEntries entries := by
  obtain ⟨written, forms, contained⟩ := form
  have stepwise : Stepwise (labelled Found.field) Entry.store entries written :=
    forms.imp fun _ _ form => ⟨form.begins, form.yields⟩
  rw [decode, Reader.ofBytes, yields_readMap stepwise contained, ofEntries]
  cases entries.foldlM Entry.store {} <;> rfl

end Metadata

end VersionedKeys
