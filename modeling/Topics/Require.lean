/-! Conditions that stop with an error where they do not hold. -/

namespace Topics

variable {ε : Type u} {p : Prop}

/-- Goes on where the condition holds, and stops with the error where it does not. -/
def require (p : Prop) [Decidable p] (error : ε) : Except ε Unit :=
  if p then .ok () else .error error

/-- A condition lets pass exactly where it holds. -/
theorem require_eq_ok [Decidable p] (error : ε) : require p error = .ok () ↔ p := by
  simp [require]

/-- A condition stops exactly where it does not hold, and with its own error. -/
theorem require_eq_error [Decidable p] (error found : ε) :
    require p error = .error found ↔ ¬ p ∧ error = found := by
  by_cases holds : p <;> simp [require, holds]

/-- Two steps pass together exactly when both pass. -/
theorem bind_eq_ok {α : Type} (first : Except ε Unit) (second : Except ε α) (result : α) :
    (do first; second : Except ε α) = .ok result ↔ first = .ok () ∧ second = .ok result := by
  cases first <;> simp [bind, Except.bind]

/-- A step and what follows from its result pass together exactly when both pass. -/
theorem bind_eq_ok_iff {α β : Type} (first : Except ε α) (next : α → Except ε β) (result : β) :
    (do next (← first) : Except ε β) = .ok result ↔
      ∃ value, first = .ok value ∧ next value = .ok result := by
  cases first <;> simp [bind, Except.bind]

/-- A result is a success exactly where it has a value. -/
theorem isOk_iff {α : Type} {result : Except ε α} :
    result.isOk = true ↔ ∃ value, result = .ok value := by
  cases result <;> simp [Except.isOk, Except.toBool]

/-- A check of every element passes exactly when each passes. -/
theorem forM_eq_ok {α : Type v} (check : α → Except ε PUnit) (xs : List α) :
    xs.forM check = .ok () ↔ ∀ x ∈ xs, check x = .ok () := by
  induction xs with
  | nil => simp [List.forM, pure, Except.pure]
  | cons x rest ih =>
    simp only [List.mem_cons, forall_eq_or_imp, ← ih]
    cases head : check x <;> simp [List.forM, head, bind, Except.bind]

end Topics
