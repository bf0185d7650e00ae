import VersionedKeys.Error
import VersionedKeys.Proofs.Outcomes

/-!
# Ways to end

An operation that has no result returns an error of some kind, or does not come back.  A chain of
steps ends only in some ways if each of its steps does (`Outcome.RaisesOnly.bind`).  It comes back
if each of its steps does (`Outcome.Returns.bind`), and where it does not it ends with the step
that does not (`Outcome.bind_eq_stopped_iff`).
-/

namespace VersionedKeys

namespace Outcome

variable {Fault Value Other : Type} {endings : List Error.Ending}

/-- If the operation has no result, it ends in one of some ways. -/
def RaisesOnly (endings : List Error.Ending) (outcome : Except Error Value) : Prop :=
  ∀ error, outcome = .error error → error.ending ∈ endings

@[simp]
theorem raisesOnly_ok (value : Value) : RaisesOnly endings (.ok value) := by
  rintro error ⟨⟩

@[simp]
theorem raisesOnly_error {error : Error} :
    RaisesOnly endings (.error error : Except Error Value) ↔ error.ending ∈ endings := by
  constructor
  · intro raises
    exact raises error rfl
  · rintro known other ⟨⟩
    exact known

theorem raisesOnly_of_eq_or {outcome : Except Error Value} {error : Error}
    (decided : (∃ value, outcome = .ok value) ∨ outcome = .error error) :
    RaisesOnly [error.ending] outcome := by
  rcases decided with ⟨value, rfl⟩ | rfl
  · exact raisesOnly_ok value
  · exact raisesOnly_error.mpr List.mem_cons_self

theorem RaisesOnly.bind {outcome : Except Error Value} {next : Value → Except Error Other}
    (first : RaisesOnly endings outcome)
    (rest : ∀ value, outcome = .ok value → RaisesOnly endings (next value)) :
    RaisesOnly endings (outcome >>= next) := by
  cases outcome with
  | error error => exact raisesOnly_error.mpr (first error rfl)
  | ok value => exact rest value rfl

@[simp]
theorem raisesOnly_map {outcome : Except Error Value} {change : Value → Other} :
    RaisesOnly endings (outcome.map change) ↔ RaisesOnly endings outcome := by
  cases outcome <;> simp

theorem RaisesOnly.mono {outcome : Except Error Value} {more : List Error.Ending}
    (raises : RaisesOnly endings outcome) (subset : endings ⊆ more) : RaisesOnly more outcome :=
  fun error failed => subset (raises error failed)

theorem RaisesOnly.ne {outcome : Except Error Value} (raises : RaisesOnly endings outcome)
    {error : Error} (other : error.ending ∉ endings) : outcome ≠ .error error :=
  fun failed => other (raises error failed)

/-- The operation comes back, with a result or an error. -/
def Returns (outcome : Except Error Value) : Prop :=
  ∀ reason, outcome ≠ .error (.stopped reason)

@[simp]
theorem returns_ok (value : Value) : Returns (.ok value) := by
  rintro reason ⟨⟩

theorem Returns.bind {outcome : Except Error Value} {next : Value → Except Error Other}
    (first : Returns outcome) (rest : ∀ value, Returns (next value)) :
    Returns (outcome >>= next) := by
  cases outcome with
  | error error =>
      rintro reason ⟨⟩
      exact first reason rfl
  | ok value => exact rest value

@[simp]
theorem returns_error {error : Error} :
    Returns (.error error : Except Error Value) ↔ ∀ reason, error ≠ .stopped reason := by
  simp [Returns]

theorem returns_mapError {outcome : Except Fault Value} {change : Fault → Error}
    (each : ∀ fault reason, change fault ≠ .stopped reason) :
    Returns (outcome.mapError change) := by
  cases outcome with
  | error fault => exact returns_error.mpr (each fault)
  | ok value => exact returns_ok value

theorem Returns.map {outcome : Except Error Value} (returns : Returns outcome)
    (change : Value → Other) : Returns (outcome.map change) := by
  cases outcome with
  | error error =>
      rintro reason ⟨⟩
      exact returns reason rfl
  | ok value => exact returns_ok _

/-- A chain stops where one of its steps does. -/
theorem bind_eq_stopped_iff {outcome : Except Error Value} {next : Value → Except Error Other}
    {reason : Stop} :
    (outcome >>= next) = .error (.stopped reason) ↔
      outcome = .error (.stopped reason) ∨
        ∃ value, outcome = .ok value ∧ next value = .error (.stopped reason) := by
  cases outcome <;> simp

/-- If a step comes back, a chain stops after it. -/
theorem Returns.bind_eq_stopped_iff {outcome : Except Error Value}
    (returns : Returns outcome) {next : Value → Except Error Other} {reason : Stop} :
    (outcome >>= next) = .error (.stopped reason) ↔
      ∃ value, outcome = .ok value ∧ next value = .error (.stopped reason) :=
  Outcome.bind_eq_stopped_iff.trans (or_iff_right (returns reason))

end Outcome

namespace Error

@[simp]
theorem handle_stopped (reason : Stop) (change : Error → Error) :
    handle change (stopped reason) = stopped reason := rfl

/-- What is returned is replaced, and a stop is not. -/
theorem handle_eq_or (change : Error → Error) (error : Error) :
    (∃ reason, error = stopped reason ∧ error.handle change = stopped reason) ∨
      (∀ reason, error ≠ stopped reason) ∧ error.handle change = change error := by
  cases error with
  | stopped reason => exact .inl ⟨reason, rfl, rfl⟩
  | _ => exact .inr ⟨by simp, rfl⟩

theorem handle_eq_stopped_iff {change : Error → Error}
    (each : ∀ error reason, change error ≠ stopped reason) {error : Error} {reason : Stop} :
    error.handle change = stopped reason ↔ error = stopped reason := by
  rcases error.handle_eq_or change with ⟨other, rfl, kept⟩ | ⟨returned, replaced⟩
  · rw [kept]
  · rw [replaced]
    exact iff_of_false (each error reason) (returned reason)

end Error

end VersionedKeys
