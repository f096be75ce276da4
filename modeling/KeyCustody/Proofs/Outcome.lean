import KeyCustody.Outcome
/-!
# Laws of outcomes

How results and outcomes go on with a value and stop without one, so that a computation in steps can
be taken apart step by step.
-/

namespace KeyCustody

variable {ε ε' α β : Type}

@[simp] theorem ok_bind (a : α) (f : α → Except ε β) :
    ((Except.ok a : Except ε α) >>= f) = f a := rfl

@[simp] theorem error_bind (e : ε) (f : α → Except ε β) :
    ((Except.error e : Except ε α) >>= f) = .error e := rfl

/-- A computation in two steps has a value exactly if both steps have one. -/
theorem bind_eq_ok {x : Except ε α} {f : α → Except ε β} {b : β} :
    (x >>= f) = .ok b ↔ ∃ a, x = .ok a ∧ f a = .ok b := by
  cases x <;> simp

namespace Outcome

@[simp] theorem ofExcept_ok (a : α) : ofExcept (.ok a : Except ε α) = .value a := rfl

@[simp] theorem ofExcept_error (e : ε) : ofExcept (.error e : Except ε α) = .failure e := rfl

@[simp] theorem mapFailure_value (f : ε → ε') (a : α) :
    mapFailure f (.value a : Outcome ε α) = .value a := rfl

@[simp] theorem mapFailure_failure (f : ε → ε') (e : ε) :
    mapFailure f (.failure e : Outcome ε α) = .failure (f e) := rfl

/-- A computation in two steps has a value exactly if both steps have one. -/
theorem bind_eq_value {x : Outcome ε α} {f : α → Outcome ε β} {b : β} :
    x.bind f = .value b ↔ ∃ a, x = .value a ∧ f a = .value b := by
  cases x <;> simp [bind]

end Outcome

end KeyCustody
