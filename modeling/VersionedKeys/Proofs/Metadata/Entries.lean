import Mathlib.Data.List.Forall2
import VersionedKeys.Metadata.Decoding
import VersionedKeys.Proofs.Outcomes

/-!
# Entries of metadata

Apart from how they are written, the entries of a map are fields with their values, among others
that are ignored.  They make a version or metadata exactly if each field is given once, in whatever
order (`KeyVersion.ofEntries_eq_ok_iff`, `Metadata.ofEntries_eq_ok_iff`), and otherwise a field is
missing or there twice.
-/

namespace VersionedKeys

namespace Metadata

section Fields

variable {Value Other : Type} {name : String} {present now : Option Value}

/-- A value that is there for the first time. -/
def once (name : String) (present : Option Value) (outcome : Except Fault Value) :
    Except Fault (Option Value) :=
  if present.isSome then .error (.duplicateField name) else outcome.map some

theorem once_eq_ok_iff {outcome : Except Fault Value} :
    once name present outcome = .ok now ↔
      now.toList.map .ok = present.toList.map .ok ++ [outcome] := by
  rw [once]
  cases present with
  | some value => cases now <;> simp
  | none =>
      rw [Option.isSome_none, if_neg Bool.false_ne_true, Outcome.map_eq_ok]
      cases now with
      | none => simp
      | some value => cases outcome <;> simp [eq_comm]

theorem once_ok_eq_ok_iff {value : Value} :
    once name present (.ok value) = .ok now ↔ now.toList = present.toList ++ [value] := by
  have single : [(.ok value : Except Fault Value)] = [value].map .ok := rfl
  have injective : Function.Injective (Except.ok : Value → Except Fault Value) :=
    fun _ _ => Except.ok.inj
  rw [once_eq_ok_iff, single, ← List.map_append, injective.list_map.eq_iff]

theorem toList_eq_toList_iff {left right : Option Value} :
    left.toList = right.toList ↔ right = left := by
  cases left <;> cases right <;> simp [eq_comm]

theorem require_eq_ok_iff {found : Option Value} {value : Value} :
    require name found = .ok value ↔ found.toList = [value] := by
  cases found <;> simp [require]

/-- There is room for at most one value. -/
theorem exists_toList_eq {last : Option Value} {front back : List Value}
    (whole : last.toList = front ++ back) : ∃ next : Option Value, next.toList = front := by
  cases last with
  | none => exact ⟨none, (List.append_eq_nil_iff.mp whole.symm).1.symm⟩
  | some value =>
      rcases List.singleton_eq_append_iff.mp whole with ⟨rfl, -⟩ | ⟨rfl, -⟩
      · exact ⟨none, rfl⟩
      · exact ⟨some value, rfl⟩

theorem exists_map_toList_eq {last : Option Value} {front back : List (Except Fault Value)}
    (whole : last.toList.map .ok = front ++ back) :
    ∃ next : Option Value, next.toList.map .ok = front := by
  obtain ⟨values, others, same, rfl, -⟩ := List.map_eq_append_iff.mp whole
  obtain ⟨next, rfl⟩ := exists_toList_eq same
  exact ⟨next, rfl⟩

theorem mapM_eq_ok_iff {Item : Type} {make : Item → Except Fault Value} {items : List Item}
    {values : List Value} :
    items.mapM make = .ok values ↔
      List.Forall₂ (fun item value => make item = .ok value) items values := by
  induction items generalizing values with
  | nil => cases values <;> simp [pure, Except.pure]
  | cons item items inductionHypothesis =>
      simp only [List.mapM_cons, Outcome.bind_eq_ok, inductionHypothesis]
      constructor
      · rintro ⟨value, made, others, later, ⟨⟩⟩
        exact .cons made later
      · rintro (_ | ⟨made, later⟩)
        exact ⟨_, made, _, later, rfl⟩

theorem exists_of_mem_of_forall₂ {Item : Type} {related : Item → Value → Prop} {items : List Item}
    {values : List Value} (each : List.Forall₂ related items values) {item : Item}
    (member : item ∈ items) : ∃ value, related item value := by
  induction each with
  | nil => cases member
  | cons first _ inductionHypothesis =>
      cases member with
      | head => exact ⟨_, first⟩
      | tail _ later => exact inductionHypothesis later

theorem filterMap_cons_eq {Entry : Type} (field? : Entry → Option Value) (entry : Entry)
    (entries : List Entry) :
    (entry :: entries).filterMap field? = (field? entry).toList ++ entries.filterMap field? := by
  rw [List.filterMap_cons]
  cases field? entry <;> rfl

/-- A field is missing, or there more than once. -/
inductive Fault.OfFields : Fault → Prop where
  | missing (name : String) : OfFields (.missingField name)
  | duplicate (name : String) : OfFields (.duplicateField name)

/-- Nothing can be wrong but the number of times that a field is there. -/
def CountsFields (outcome : Except Fault Value) : Prop :=
  ∀ fault, outcome = .error fault → fault.OfFields

theorem countsFields_ok (value : Value) : CountsFields (.ok value) := by
  rintro fault ⟨⟩

theorem CountsFields.bind {outcome : Except Fault Value} {next : Value → Except Fault Other}
    (first : CountsFields outcome) (rest : ∀ value, CountsFields (next value)) :
    CountsFields (outcome >>= next) := by
  cases outcome with
  | error fault =>
      rintro _ ⟨⟩
      exact first fault rfl
  | ok value => exact rest value

theorem CountsFields.map {outcome : Except Fault Value} (counts : CountsFields outcome)
    (change : Value → Other) : CountsFields (outcome.map change) := by
  cases outcome with
  | error fault =>
      rintro _ ⟨⟩
      exact counts fault rfl
  | ok value => exact countsFields_ok _

theorem CountsFields.once {outcome : Except Fault Value} (counts : CountsFields outcome) :
    CountsFields (once name present outcome) := by
  rw [Metadata.once]
  split
  · rintro _ ⟨⟩
    exact .duplicate name
  · exact counts.map some

theorem countsFields_require (found : Option Value) : CountsFields (require name found) := by
  cases found with
  | none =>
      rintro _ ⟨⟩
      exact .missing name
  | some value => exact countsFields_ok value

theorem countsFields_foldlM {State Item : Type} {step : State → Item → Except Fault State}
    (each : ∀ state item, CountsFields (step state item)) (items : List Item) (state : State) :
    CountsFields (items.foldlM step state) := by
  induction items generalizing state with
  | nil => exact countsFields_ok state
  | cons item items inductionHypothesis =>
      rw [List.foldlM_cons]
      exact (each state item).bind inductionHypothesis

theorem countsFields_mapM {Item : Type} {make : Item → Except Fault Value}
    (each : ∀ item, CountsFields (make item)) (items : List Item) :
    CountsFields (items.mapM make) := by
  induction items with
  | nil => exact countsFields_ok []
  | cons item items inductionHypothesis =>
      rw [List.mapM_cons]
      exact (each item).bind fun value =>
        inductionHypothesis.bind fun values => countsFields_ok (value :: values)

end Fields

end Metadata

open Metadata

namespace KeyVersion

/-- An entry of the map of a version. -/
inductive Entry where
  | number (value : UInt32)
  | status (value : KeyStatus)
  | exportable (value : Bool)
  | ignored

namespace Entry

def number? : Entry → Option UInt32
  | number value => some value
  | _ => none

def status? : Entry → Option KeyStatus
  | status value => some value
  | _ => none

def exportable? : Entry → Option Bool
  | exportable value => some value
  | _ => none

/-- The fields that have been found after an entry. -/
def store (found : Found) : Entry → Except Fault Found
  | number value =>
      (once "versionNumber" found.number (.ok value)).map fun number => { found with number }
  | status value =>
      (once "status" found.status (.ok value)).map fun status => { found with status }
  | exportable value =>
      (once "exportable" found.exportable (.ok value)).map fun exportable =>
        { found with exportable }
  | ignored => .ok found

theorem countsFields_store (found : Found) (entry : Entry) : CountsFields (store found entry) := by
  cases entry with
  | ignored => exact countsFields_ok found
  | _ => exact (countsFields_ok _).once.map _

/-- The fields that have been found are those that were there before and those of an entry. -/
theorem store_eq_ok_iff {found next : Found} {entry : Entry} :
    store found entry = .ok next ↔
      next.number.toList = found.number.toList ++ entry.number?.toList ∧
      next.status.toList = found.status.toList ++ entry.status?.toList ∧
      next.exportable.toList = found.exportable.toList ++ entry.exportable?.toList := by
  obtain ⟨number, status, exportable⟩ := next
  cases entry with
  | ignored =>
      cases found
      simp [store, number?, status?, exportable?, toList_eq_toList_iff]
  | _ =>
      simp only [store, Outcome.map_eq_ok, once_ok_eq_ok_iff, number?, status?, exportable?,
        Option.toList_some, Option.toList_none, List.append_nil, toList_eq_toList_iff,
        Found.mk.injEq]
      grind

theorem foldlM_store_eq_ok_iff {entries : List Entry} {found last : Found} :
    entries.foldlM store found = .ok last ↔
      last.number.toList = found.number.toList ++ entries.filterMap number? ∧
      last.status.toList = found.status.toList ++ entries.filterMap status? ∧
      last.exportable.toList = found.exportable.toList ++ entries.filterMap exportable? := by
  induction entries generalizing found with
  | nil => exact @store_eq_ok_iff found last .ignored
  | cons entry entries inductionHypothesis =>
      simp only [List.foldlM_cons, Outcome.bind_eq_ok, store_eq_ok_iff, inductionHypothesis,
        filterMap_cons_eq, ← List.append_assoc]
      constructor
      · rintro ⟨next, ⟨number, status, exportable⟩, later⟩
        rwa [number, status, exportable] at later
      · rintro ⟨number, status, exportable⟩
        obtain ⟨nextNumber, stored⟩ := exists_toList_eq number
        obtain ⟨nextStatus, storedStatus⟩ := exists_toList_eq status
        obtain ⟨nextExportable, storedExportable⟩ := exists_toList_eq exportable
        refine ⟨⟨nextNumber, nextStatus, nextExportable⟩,
          ⟨stored, storedStatus, storedExportable⟩, ?_⟩
        rw [stored, storedStatus, storedExportable]
        exact ⟨number, status, exportable⟩

end Entry

/-- The version of some entries. -/
def ofEntries (entries : List Entry) : Except Fault KeyVersion := do
  let found ← entries.foldlM Entry.store {}
  found.version

/-- Each field of a version is given once. -/
structure Gives (entries : List Entry) (version : KeyVersion) : Prop where
  number : entries.filterMap Entry.number? = [version.number]
  status : entries.filterMap Entry.status? = [version.status]
  exportable : entries.filterMap Entry.exportable? = [version.exportable]

theorem ofEntries_eq_ok_iff {entries : List Entry} {version : KeyVersion} :
    ofEntries entries = .ok version ↔ Gives entries version := by
  simp only [ofEntries, Found.version, Outcome.bind_eq_ok, Entry.foldlM_store_eq_ok_iff,
    require_eq_ok_iff]
  constructor
  · rintro ⟨found, ⟨numbers, statuses, exportables⟩, number, hasNumber, status, hasStatus,
      exportable, hasExportable, ⟨⟩⟩
    exact ⟨numbers.symm.trans hasNumber, statuses.symm.trans hasStatus,
      exportables.symm.trans hasExportable⟩
  · rintro ⟨number, status, exportable⟩
    exact ⟨⟨version.number, version.status, version.exportable⟩,
      ⟨number.symm, status.symm, exportable.symm⟩, _, rfl, _, rfl, _, rfl, rfl⟩

theorem countsFields_ofEntries (entries : List Entry) : CountsFields (ofEntries entries) :=
  (countsFields_foldlM Entry.countsFields_store entries {}).bind fun found =>
    (countsFields_require found.number).bind fun _ =>
      (countsFields_require found.status).bind fun _ =>
        (countsFields_require found.exportable).bind fun _ => countsFields_ok _

/-- A field of a version is missing, or given more than once. -/
inductive Miscounts (entries : List Entry) : Prop where
  | number (count : (entries.filterMap Entry.number?).length ≠ 1)
  | status (count : (entries.filterMap Entry.status?).length ≠ 1)
  | exportable (count : (entries.filterMap Entry.exportable?).length ≠ 1)

theorem Gives.not_miscounts {entries : List Entry} {version : KeyVersion}
    (gives : Gives entries version) : ¬ Miscounts entries := by
  rintro (count | count | count)
  · exact count (by rw [gives.number]; rfl)
  · exact count (by rw [gives.status]; rfl)
  · exact count (by rw [gives.exportable]; rfl)

end KeyVersion

namespace Metadata

/-- An entry of the map of metadata.  Its versions are maps themselves. -/
inductive Entry where
  | name (value : String)
  | purpose (value : KeyPurpose)
  | keyType (value : KeyType)
  | encrypted (value : Bool)
  | versions (maps : List (List KeyVersion.Entry))
  | ignored

namespace Entry

def name? : Entry → Option String
  | name value => some value
  | _ => none

def purpose? : Entry → Option KeyPurpose
  | purpose value => some value
  | _ => none

def keyType? : Entry → Option KeyType
  | keyType value => some value
  | _ => none

def encrypted? : Entry → Option Bool
  | encrypted value => some value
  | _ => none

def versions? : Entry → Option (List (List KeyVersion.Entry))
  | versions maps => some maps
  | _ => none

/-- What the maps of an entry are read to. -/
def read? (entry : Entry) : Option (Except Fault (List KeyVersion)) :=
  entry.versions?.map fun maps => maps.mapM KeyVersion.ofEntries

/-- The fields that have been found after an entry. -/
def store (found : Found) : Entry → Except Fault Found
  | name value => (once "name" found.name (.ok value)).map fun name => { found with name }
  | purpose value =>
      (once "purpose" found.purpose (.ok value)).map fun purpose => { found with purpose }
  | keyType value =>
      (once "type" found.keyType (.ok value)).map fun keyType => { found with keyType }
  | encrypted value =>
      (once "encrypted" found.encrypted (.ok value)).map fun encrypted => { found with encrypted }
  | versions maps =>
      (once "versions" found.versions (maps.mapM KeyVersion.ofEntries)).map fun versions =>
        { found with versions }
  | ignored => .ok found

theorem countsFields_store (found : Found) (entry : Entry) : CountsFields (store found entry) := by
  cases entry with
  | ignored => exact countsFields_ok found
  | versions maps =>
      exact (countsFields_mapM KeyVersion.countsFields_ofEntries maps).once.map _
  | _ => exact (countsFields_ok _).once.map _

theorem map_ok_toList_eq_iff {Value : Type} {left right : Option Value} :
    left.toList.map (.ok : Value → Except Fault Value) = right.toList.map .ok ↔ right = left := by
  have injective : Function.Injective (Except.ok : Value → Except Fault Value) :=
    fun _ _ => Except.ok.inj
  rw [injective.list_map.eq_iff, toList_eq_toList_iff]

/-- The fields that have been found are those that were there before and those of an entry. -/
theorem store_eq_ok_iff {found next : Found} {entry : Entry} :
    store found entry = .ok next ↔
      next.name.toList = found.name.toList ++ entry.name?.toList ∧
      next.purpose.toList = found.purpose.toList ++ entry.purpose?.toList ∧
      next.keyType.toList = found.keyType.toList ++ entry.keyType?.toList ∧
      next.encrypted.toList = found.encrypted.toList ++ entry.encrypted?.toList ∧
      next.versions.toList.map .ok =
        found.versions.toList.map .ok ++ entry.read?.toList := by
  obtain ⟨name, purpose, keyType, encrypted, versions⟩ := next
  cases entry with
  | versions maps =>
      simp only [store, Outcome.map_eq_ok, once_eq_ok_iff, name?, purpose?, keyType?, encrypted?,
        read?, versions?, Option.map_some, Option.toList_some, Option.toList_none, List.append_nil,
        toList_eq_toList_iff, Found.mk.injEq]
      grind
  | ignored =>
      cases found
      simp [store, name?, purpose?, keyType?, encrypted?, read?, versions?, toList_eq_toList_iff,
        map_ok_toList_eq_iff]
  | _ =>
      simp only [store, Outcome.map_eq_ok, once_ok_eq_ok_iff, name?, purpose?, keyType?, encrypted?,
        read?, versions?, Option.map_none, Option.toList_some, Option.toList_none, List.append_nil,
        toList_eq_toList_iff, map_ok_toList_eq_iff, Found.mk.injEq]
      grind

theorem foldlM_store_eq_ok_iff {entries : List Entry} {found last : Found} :
    entries.foldlM store found = .ok last ↔
      last.name.toList = found.name.toList ++ entries.filterMap name? ∧
      last.purpose.toList = found.purpose.toList ++ entries.filterMap purpose? ∧
      last.keyType.toList = found.keyType.toList ++ entries.filterMap keyType? ∧
      last.encrypted.toList = found.encrypted.toList ++ entries.filterMap encrypted? ∧
      last.versions.toList.map .ok =
        found.versions.toList.map .ok ++ entries.filterMap read? := by
  induction entries generalizing found with
  | nil => exact @store_eq_ok_iff found last .ignored
  | cons entry entries inductionHypothesis =>
      simp only [List.foldlM_cons, Outcome.bind_eq_ok, store_eq_ok_iff, inductionHypothesis,
        filterMap_cons_eq, ← List.append_assoc]
      constructor
      · rintro ⟨next, ⟨name, purpose, keyType, encrypted, versions⟩, later⟩
        rwa [name, purpose, keyType, encrypted, versions] at later
      · rintro ⟨name, purpose, keyType, encrypted, versions⟩
        obtain ⟨nextName, storedName⟩ := exists_toList_eq name
        obtain ⟨nextPurpose, storedPurpose⟩ := exists_toList_eq purpose
        obtain ⟨nextType, storedType⟩ := exists_toList_eq keyType
        obtain ⟨nextEncrypted, storedEncrypted⟩ := exists_toList_eq encrypted
        obtain ⟨nextVersions, storedVersions⟩ := exists_map_toList_eq versions
        refine ⟨⟨nextName, nextPurpose, nextType, nextEncrypted, nextVersions⟩,
          ⟨storedName, storedPurpose, storedType, storedEncrypted, storedVersions⟩, ?_⟩
        rw [storedName, storedPurpose, storedType, storedEncrypted, storedVersions]
        exact ⟨name, purpose, keyType, encrypted, versions⟩

end Entry

/-- The metadata of some entries. -/
def ofEntries (entries : List Entry) : Except Fault Metadata := do
  let found ← entries.foldlM Entry.store {}
  found.metadata

/-- Each field of metadata is given once, and so is each field of its versions. -/
structure Gives (entries : List Entry) (metadata : Metadata) : Prop where
  name : entries.filterMap Entry.name? = [metadata.name]
  purpose : entries.filterMap Entry.purpose? = [metadata.purpose]
  keyType : entries.filterMap Entry.keyType? = [metadata.keyType]
  encrypted : entries.filterMap Entry.encrypted? = [metadata.encrypted]
  versions : ∃ maps, entries.filterMap Entry.versions? = [maps] ∧
    List.Forall₂ KeyVersion.Gives maps metadata.versions

theorem filterMap_read?_eq_iff {entries : List Entry} {versions : List KeyVersion} :
    [.ok versions] = entries.filterMap Entry.read? ↔
      ∃ maps, entries.filterMap Entry.versions? = [maps] ∧
        List.Forall₂ KeyVersion.Gives maps versions := by
  have read : entries.filterMap Entry.read? =
      (entries.filterMap Entry.versions?).map fun maps => maps.mapM KeyVersion.ofEntries :=
    List.map_filterMap.symm
  rw [read, eq_comm]
  simp only [List.map_eq_singleton_iff, mapM_eq_ok_iff, KeyVersion.ofEntries_eq_ok_iff]

theorem ofEntries_eq_ok_iff {entries : List Entry} {metadata : Metadata} :
    ofEntries entries = .ok metadata ↔ Gives entries metadata := by
  simp only [ofEntries, Found.metadata, Outcome.bind_eq_ok, Entry.foldlM_store_eq_ok_iff,
    require_eq_ok_iff]
  constructor
  · rintro ⟨found, ⟨names, purposes, keyTypes, encrypteds, read⟩, name, hasName, purpose,
      hasPurpose, keyType, hasType, encrypted, hasEncrypted, versions, hasVersions, ⟨⟩⟩
    rw [hasVersions] at read
    exact ⟨names.symm.trans hasName, purposes.symm.trans hasPurpose, keyTypes.symm.trans hasType,
      encrypteds.symm.trans hasEncrypted, filterMap_read?_eq_iff.mp read⟩
  · rintro ⟨name, purpose, keyType, encrypted, versions⟩
    exact ⟨⟨metadata.name, metadata.purpose, metadata.keyType, metadata.encrypted,
      metadata.versions⟩, ⟨name.symm, purpose.symm, keyType.symm, encrypted.symm,
      filterMap_read?_eq_iff.mpr versions⟩, _, rfl, _, rfl, _, rfl, _, rfl, _, rfl, rfl⟩

theorem countsFields_ofEntries (entries : List Entry) : CountsFields (ofEntries entries) :=
  (countsFields_foldlM Entry.countsFields_store entries {}).bind fun found =>
    (countsFields_require found.name).bind fun _ =>
      (countsFields_require found.purpose).bind fun _ =>
        (countsFields_require found.keyType).bind fun _ =>
          (countsFields_require found.encrypted).bind fun _ =>
            (countsFields_require found.versions).bind fun _ => countsFields_ok _

/-- A field of metadata is missing, or given more than once, or one of its versions is. -/
inductive Miscounts (entries : List Entry) : Prop where
  | name (count : (entries.filterMap Entry.name?).length ≠ 1)
  | purpose (count : (entries.filterMap Entry.purpose?).length ≠ 1)
  | keyType (count : (entries.filterMap Entry.keyType?).length ≠ 1)
  | encrypted (count : (entries.filterMap Entry.encrypted?).length ≠ 1)
  | versions (count : (entries.filterMap Entry.versions?).length ≠ 1)
  | version {maps : List (List KeyVersion.Entry)} {fields : List KeyVersion.Entry}
      (given : .versions maps ∈ entries) (listed : fields ∈ maps)
      (miscounts : KeyVersion.Miscounts fields)

theorem Gives.not_miscounts {entries : List Entry} {metadata : Metadata}
    (gives : Gives entries metadata) : ¬ Miscounts entries := by
  obtain ⟨name, purpose, keyType, encrypted, only, single, each⟩ := gives
  rintro (count | count | count | count | count | ⟨given, listed, miscounts⟩)
  · exact count (by rw [name]; rfl)
  · exact count (by rw [purpose]; rfl)
  · exact count (by rw [keyType]; rfl)
  · exact count (by rw [encrypted]; rfl)
  · exact count (by rw [single]; rfl)
  · have member : _ ∈ entries.filterMap Entry.versions? := List.mem_filterMap.mpr ⟨_, given, rfl⟩
    rw [single] at member
    obtain rfl := List.mem_singleton.mp member
    obtain ⟨version, gives⟩ := exists_of_mem_of_forall₂ each listed
    exact gives.not_miscounts miscounts

theorem exists_ofFields_of_miscounts {entries : List Entry} (miscounts : Miscounts entries) :
    ∃ fault, Fault.OfFields fault ∧ ofEntries entries = .error fault := by
  cases outcome : ofEntries entries with
  | ok metadata => exact absurd miscounts (ofEntries_eq_ok_iff.mp outcome).not_miscounts
  | error fault => exact ⟨fault, countsFields_ofEntries entries fault outcome, rfl⟩

end Metadata

end VersionedKeys
