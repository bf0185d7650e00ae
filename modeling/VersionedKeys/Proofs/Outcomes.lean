/-!
# Laws of outcomes

An outcome is a value or an error, and a chain of steps ends with the first
error.  So a chain ends in a value exactly if each of its steps does:
`bind_eq_ok`.
-/

namespace VersionedKeys.Outcome

variable {Fault Value Other : Type}

@[simp]
theorem ok_bind (value : Value) (next : Value → Except Fault Other) :
    (Except.ok value >>= next) = next value := rfl

@[simp]
theorem error_bind (fault : Fault) (next : Value → Except Fault Other) :
    (Except.error fault >>= next) = .error fault := rfl

@[simp]
theorem map_ok (value : Value) (change : Value → Other) :
    (Except.ok value : Except Fault Value).map change = .ok (change value) := rfl

@[simp]
theorem map_error (fault : Fault) (change : Value → Other) :
    (Except.error fault : Except Fault Value).map change = .error fault := rfl

theorem bind_eq_ok {outcome : Except Fault Value} {next : Value → Except Fault Other}
    {result : Other} :
    (outcome >>= next) = .ok result ↔ ∃ value, outcome = .ok value ∧ next value = .ok result := by
  cases outcome <;> simp

theorem map_eq_ok {outcome : Except Fault Value} {change : Value → Other} {result : Other} :
    outcome.map change = .ok result ↔ ∃ value, outcome = .ok value ∧ change value = result := by
  cases outcome <;> simp

theorem map_eq_error_iff {outcome : Except Fault Value} {change : Value → Other} {fault : Fault} :
    outcome.map change = .error fault ↔ outcome = .error fault := by
  cases outcome <;> simp

@[simp]
theorem mapError_ok (value : Value) (change : Fault → Other) :
    (Except.ok value : Except Fault Value).mapError change = .ok value := rfl

@[simp]
theorem mapError_error (fault : Fault) (change : Fault → Other) :
    (Except.error fault : Except Fault Value).mapError change = .error (change fault) := rfl

theorem mapError_eq_ok {outcome : Except Fault Value} {change : Fault → Other} {value : Value} :
    outcome.mapError change = .ok value ↔ outcome = .ok value := by
  cases outcome <;> simp

theorem mapError_eq_error_iff {outcome : Except Fault Value} {change : Fault → Other}
    {other : Other} :
    outcome.mapError change = .error other ↔
      ∃ fault, outcome = .error fault ∧ change fault = other := by
  cases outcome <;> simp

theorem elim_eq_ok {found? : Option Value} {fault : Fault} {change : Value → Other}
    {result : Other} :
    found?.elim (.error fault) (fun value => .ok (change value)) =
        (.ok result : Except Fault Other) ↔
      ∃ value, found? = some value ∧ change value = result := by
  cases found? <;> simp

/-- The outcome is an error. -/
def Fails (outcome : Except Fault Value) : Prop := ∃ fault, outcome = .error fault

@[simp]
theorem fails_error (fault : Fault) : Fails (Except.error fault : Except Fault Value) :=
  ⟨fault, rfl⟩

@[simp]
theorem not_fails_ok (value : Value) : ¬ Fails (Except.ok value : Except Fault Value) := by
  rintro ⟨fault, equality⟩
  cases equality

theorem fails_iff_forall_ne_ok {outcome : Except Fault Value} :
    Fails outcome ↔ ∀ value, outcome ≠ .ok value := by
  cases outcome <;> simp

@[simp]
theorem fails_map {outcome : Except Fault Value} {change : Value → Other} :
    Fails (outcome.map change) ↔ Fails outcome := by
  cases outcome <;> simp

end VersionedKeys.Outcome
