/-!
# Outcomes

When a composed computation that may fail succeeds: exactly when its parts do, one after another. A
computation that may fail and works on a state passes the state on to what follows (`run_bind`), and
a handler runs on the state that the failure left (`run_tryCatch`).
-/

namespace Stencil

namespace Outcome

variable {ε α β : Type}

theorem map_eq_ok {f : α → β} {x : Except ε α} {b : β} :
    x.map f = .ok b ↔ ∃ a, x = .ok a ∧ f a = b := by
  cases x <;> simp [Except.map]

theorem map_eq_error {f : α → β} {x : Except ε α} {e : ε} :
    x.map f = .error e ↔ x = .error e := by
  cases x <;> simp [Except.map]

theorem toOption_eq_some {x : Except ε α} {a : α} : x.toOption = some a ↔ x = .ok a := by
  cases x <;> simp [Except.toOption]

theorem bind_eq_ok {f : α → Except ε β} {x : Except ε α} {b : β} :
    x >>= f = .ok b ↔ ∃ a, x = .ok a ∧ f a = .ok b := by
  cases x <;> simp [bind, Except.bind]

theorem bind_eq_error {f : α → Except ε β} {x : Except ε α} {e : ε} :
    x >>= f = .error e ↔ x = .error e ∨ ∃ a, x = .ok a ∧ f a = .error e := by
  cases x <;> simp [bind, Except.bind]

theorem pure_eq_ok {a b : α} : (pure a : Except ε α) = .ok b ↔ a = b := by
  simp [pure, Except.pure]

/-- A computation succeeds exactly when its first part does, if what follows cannot fail. -/
theorem exists_bind_pure {x : Except ε α} {f : α → β} :
    (∃ b, (do return f (← x)) = .ok b) ↔ ∃ a, x = .ok a := by
  cases x <;> simp [bind, Except.bind, pure, Except.pure]

theorem exists_bind_bind_pure {γ : Type} {x : Except ε α} {y : Except ε β} {f : α → β → γ} :
    (∃ c, (do return f (← x) (← y)) = .ok c) ↔ (∃ a, x = .ok a) ∧ ∃ b, y = .ok b := by
  cases x <;> cases y <;> simp [bind, Except.bind, pure, Except.pure]

/-- The result satisfies one condition, or the error another. -/
def Meets (P : α → Prop) (E : ε → Prop) : Except ε α → Prop
  | .ok a => P a
  | .error e => E e

variable {τ : Type}

theorem run_bind (x : ExceptT ε (StateM τ) α) (f : α → ExceptT ε (StateM τ) β) (state : τ) :
    (x >>= f).run state = match x.run state with
      | (.ok a, after) => (f a).run after
      | (.error e, after) => (.error e, after) := by
  change (match x.run state with | (outcome, after) => ExceptT.bindCont f outcome after) = _
  rcases x.run state with ⟨_ | _, after⟩ <;> rfl

theorem run_bind_pure (x : ExceptT ε (StateM τ) α) (f : α → β) (state : τ) :
    (do return f (← x)).run state = ((x.run state).1.map f, (x.run state).2) := by
  rw [run_bind]
  rcases x.run state with ⟨_ | _, after⟩ <;> rfl

theorem run_get (state : τ) : (get : ExceptT ε (StateM τ) τ).run state = (.ok state, state) := rfl

theorem run_tryCatch (x : ExceptT ε (StateM τ) α) (f : ε → ExceptT ε (StateM τ) α) (state : τ) :
    (tryCatch x f).run state = match x.run state with
      | (.ok a, after) => (.ok a, after)
      | (.error e, after) => (f e).run after := by
  change (match x.run state with
    | (outcome, after) =>
      (match outcome with
        | .ok a => pure (.ok a)
        | .error e => (f e).run : StateM τ (Except ε α)) after) = _
  rcases x.run state with ⟨_ | _, after⟩ <;> rfl

end Outcome

end Stencil
