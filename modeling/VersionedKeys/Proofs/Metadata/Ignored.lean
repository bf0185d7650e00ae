import VersionedKeys.Proofs.Metadata.Forms

/-!
# What is ignored in metadata

An item of a field that is not known is passed over exactly, whatever is in it, up to the limit of
nesting: `Ignorable.passesOver`.
-/

namespace VersionedKeys.Metadata

open Cbor

/-- Some bytes are passed over, and what follows them is left. -/
def PassesOver (skip : Reader → Except Fault Reader) (bytes : Bytes) : Prop :=
  ∀ rest offset, skip ⟨bytes ++ rest, offset⟩ = .ok ⟨rest, offset + bytes.length⟩

/-- Items of known kinds, with at most so many levels of nesting in them: integers and constants,
strings, and arrays, maps and tags with such items in them. -/
inductive Ignorable : (levels : Nat) → Bytes → Prop where
  | positive {levels value : Nat} {form : Bytes} (written : HeaderForm (.positive value) form) :
      Ignorable levels form
  | negative {levels value : Nat} {form : Bytes} (written : HeaderForm (.negative value) form) :
      Ignorable levels form
  /-- False, true, null and undefined. -/
  | constant {levels value : Nat} {form : Bytes} (known : 20 ≤ value ∧ value ≤ 23)
      (written : HeaderForm (.simple value) form) : Ignorable levels form
  | bytes {levels : Nat} {form : Bytes} {contents : List Bytes}
      (written : StringForm .bytes form contents) : Ignorable levels form
  | text {levels : Nat} {form : Bytes} {contents : List Bytes}
      (written : StringForm .text form contents)
      (valid : ∀ content ∈ contents, Utf8.Valid content) : Ignorable levels form
  | array {levels : Nat} {items : List Bytes} {form : Bytes}
      (each : ∀ item ∈ items, Ignorable levels item)
      (contained : ContainerForm .array items form) : Ignorable (levels + 1) form
  | map {levels : Nat} {pairs : List (Bytes × Bytes)} {form : Bytes}
      (keys : ∀ pair ∈ pairs, Ignorable levels pair.1)
      (values : ∀ pair ∈ pairs, Ignorable levels pair.2)
      (contained : ContainerForm .map (pairs.map fun pair => pair.1 ++ pair.2) form) :
      Ignorable (levels + 1) form
  | tagged {levels number : Nat} {head item : Bytes} (plain : number ≠ 2 ∧ number ≠ 3)
      (written : HeaderForm (.tag number) head) (inside : Ignorable levels item) :
      Ignorable (levels + 1) (head ++ item)

section Ignorable

theorem Ignorable.begins {levels : Nat} {form : Bytes} (ignorable : Ignorable levels form) :
    Begins form := by
  cases ignorable with
  | positive written | negative written | constant _ written =>
      exact begins_of_headerForm written (by simp)
  | bytes written | text written => exact begins_of_stringForm written
  | array _ contained | map _ _ contained => exact contained.begins (by simp)
  | tagged _ written => exact (begins_of_headerForm written (by simp)).append _

variable {inner? : Option (Reader → Except Fault Reader)} {inner : Reader → Except Fault Reader}

/-- What is passed over has no outcome but that it is there. -/
theorem foldlM_unit {Item : Type} (items : List Item) :
    items.foldlM (fun _ _ => (.ok () : Except Fault Unit)) () = .ok () := by
  induction items with
  | nil => rfl
  | cons item items inductionHypothesis => exact inductionHypothesis

/-- The items of a container are passed over one by one. -/
theorem exists_passesOver_entries {skip : Reader → Except Fault Reader}
    {container : Option Nat → Header} {items : List Bytes} {form : Bytes}
    (begin : ∀ item ∈ items, Begins item) (each : ∀ item ∈ items, PassesOver skip item)
    (contained : ContainerForm container items form) :
    ∃ length? head body, form = head ++ body ∧ HeaderForm (container length?) head ∧
      ∀ rest offset, entries (fun _ _ reader => do return ((), ← skip reader)) length? ()
        ⟨body ++ rest, offset⟩ = .ok ((), ⟨rest, offset + body.length⟩) := by
  have stepwise : Stepwise (fun (_ : Bool) (_ : Unit) reader => do return ((), ← skip reader))
      (fun _ (_ : Bytes) => .ok ()) items items := by
    refine List.forall₂_same.mpr fun item membership => ⟨begin item membership, ?_⟩
    intro _ _ rest offset
    simp only [each item membership rest offset]
    rfl
  obtain ⟨length?, head, body, split, announced, entered⟩ := stepwise.exists_entries contained
  refine ⟨length?, head, body, split, announced, ?_⟩
  intro rest offset
  rw [entered () rest offset, foldlM_unit]
  rfl

theorem passesOver_array {items : List Bytes} {form : Bytes} (begin : ∀ item ∈ items, Begins item)
    (each : ∀ item ∈ items, PassesOver inner item) (contained : ContainerForm .array items form) :
    PassesOver (skipItemWith (some inner)) form := by
  obtain ⟨length?, head, body, rfl, announced, passed⟩ :=
    exists_passesOver_entries begin each contained
  intro rest offset
  rw [List.append_assoc, skipItemWith, announced.pull]
  simp only [ofCbor, Outcome.mapError_ok, Outcome.ok_bind, passed, List.length_append,
    Nat.add_assoc]
  rfl

theorem passesOver_map {pairs : List (Bytes × Bytes)} {form : Bytes}
    (begin : ∀ pair ∈ pairs, Begins pair.1) (keys : ∀ pair ∈ pairs, PassesOver inner pair.1)
    (values : ∀ pair ∈ pairs, PassesOver inner pair.2)
    (contained : ContainerForm .map (pairs.map fun pair => pair.1 ++ pair.2) form) :
    PassesOver (skipItemWith (some inner)) form := by
  have each : ∀ item ∈ pairs.map (fun pair => pair.1 ++ pair.2),
      PassesOver (fun reader => inner reader >>= inner) item := by
    intro item membership
    obtain ⟨pair, member, rfl⟩ := List.mem_map.mp membership
    intro rest offset
    simp only [List.append_assoc, keys pair member _ offset, Outcome.ok_bind,
      values pair member rest _, List.length_append, Nat.add_assoc]
  have beginEach : ∀ item ∈ pairs.map (fun pair => pair.1 ++ pair.2), Begins item := by
    intro item membership
    obtain ⟨pair, member, rfl⟩ := List.mem_map.mp membership
    exact (begin pair member).append _
  obtain ⟨length?, head, body, rfl, announced, passed⟩ :=
    exists_passesOver_entries beginEach each contained
  have sameEntry : (fun (_ : Bool) (_ : Unit) reader => do return ((), ← inner (← inner reader))) =
      fun (_ : Bool) (_ : Unit) reader => do return ((), ← (inner reader >>= inner)) := by
    funext _ _ reader
    cases inner reader <;> rfl
  intro rest offset
  rw [List.append_assoc, skipItemWith, announced.pull]
  simp only [ofCbor, Outcome.mapError_ok, Outcome.ok_bind, sameEntry, passed, List.length_append,
    Nat.add_assoc]
  rfl

/-- What has no items in it is passed over at every level. -/
theorem passesOver_skipItem {form : Bytes} (flat : ∀ inner?, PassesOver (skipItemWith inner?) form)
    (levels : Nat) : PassesOver (skipItem levels) form := by
  cases levels with
  | zero => exact flat none
  | succ levels => exact flat (some (skipItem levels))

/-- What is ignored is passed over exactly. -/
theorem Ignorable.passesOver {levels : Nat} {form : Bytes} (ignorable : Ignorable levels form) :
    PassesOver (skipItem levels) form := by
  induction ignorable with
  | positive written | negative written =>
      refine passesOver_skipItem (fun inner? rest offset => ?_) _
      rw [skipItemWith, written.pull]
      rfl
  | constant known written =>
      refine passesOver_skipItem (fun inner? rest offset => ?_) _
      rw [skipItemWith, written.pull]
      exact if_pos known
  | bytes written =>
      refine passesOver_skipItem (fun inner? rest offset => ?_) _
      obtain ⟨length?, next, pulled, -⟩ := written.exists_pull rest offset
      rw [skipItemWith, pulled]
      simp only [ofCbor, Outcome.mapError_ok, Outcome.ok_bind, StringKind.header, written.bytes_eq]
      rfl
  | text written valid =>
      refine passesOver_skipItem (fun inner? rest offset => ?_) _
      obtain ⟨length?, next, pulled, -⟩ := written.exists_pull rest offset
      obtain ⟨value, whole⟩ := Utf8.Valid.flatten valid
      rw [skipItemWith, pulled]
      simp only [ofCbor, Outcome.mapError_ok, Outcome.ok_bind, StringKind.header,
        written.text_eq valid whole.symm (show 4 ≤ stringCapacity by decide)]
      rfl
  | array each contained inductionHypothesis =>
      exact passesOver_array (fun item membership => (each item membership).begins)
        inductionHypothesis contained
  | map keys values contained keysHypothesis valuesHypothesis =>
      exact passesOver_map (fun pair membership => (keys pair membership).begins) keysHypothesis
        valuesHypothesis contained
  | @tagged levels number head item plain written inside inductionHypothesis =>
      intro rest offset
      have ordinary : ¬ (number = 2 ∨ number = 3) := by
        rintro (rfl | rfl)
        · exact plain.1 rfl
        · exact plain.2 rfl
      rw [skipItem, skipItemWith, List.append_assoc, written.pull]
      simp only [ofCbor, Outcome.mapError_ok, Outcome.ok_bind, if_neg ordinary,
        inductionHypothesis rest, List.length_append, Nat.add_assoc]

end Ignorable

end VersionedKeys.Metadata
