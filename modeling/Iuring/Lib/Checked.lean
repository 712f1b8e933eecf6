import Mathlib.Logic.Basic

namespace Iuring.Lib.Checked

variable {ε α β : Type}

/-- Stop with the given error unless the condition holds. -/
def ensure (e : ε) (p : Prop) [Decidable p] : Except ε Unit :=
  if p then .ok () else .error e

@[simp] theorem ensure_eq_ok (e : ε) (p : Prop) [Decidable p] (u : Unit) :
    ensure e p = .ok u ↔ p := by
  rw [ensure]
  split <;> simp_all

@[simp] theorem ensure_eq_error (e d : ε) (p : Prop) [Decidable p] :
    ensure e p = .error d ↔ ¬p ∧ e = d := by
  rw [ensure]
  split <;> simp_all

/-- A sequence of two computations succeeds exactly when both do. -/
theorem bind_eq_ok {x : Except ε α} {f : α → Except ε β} {b : β} :
    (x >>= f) = .ok b ↔ ∃ a, x = .ok a ∧ f a = .ok b := by
  cases x <;> simp only [bind, Except.bind, reduceCtorEq, false_and, exists_false, Except.ok.injEq,
    exists_eq_left']

/-- It fails as the first does, or as the second does after the first succeeded. -/
theorem bind_eq_error {x : Except ε α} {f : α → Except ε β} {e : ε} :
    (x >>= f) = .error e ↔ x = .error e ∨ ∃ a, x = .ok a ∧ f a = .error e := by
  cases x <;> simp only [bind, Except.bind, reduceCtorEq, false_and, exists_false, or_false,
    Except.error.injEq, Except.ok.injEq, exists_eq_left', false_or]

theorem bind_ok (a : α) (f : α → Except ε β) : ((Except.ok a : Except ε α) >>= f) = f a := rfl

theorem pure_eq_ok {a b : α} : (pure a : Except ε α) = .ok b ↔ a = b :=
  ⟨Except.ok.inj, congrArg _⟩

end Iuring.Lib.Checked
