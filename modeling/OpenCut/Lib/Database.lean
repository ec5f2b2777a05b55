import Mathlib.Logic.Basic

/-!
# Database transactions

The statements of a database transaction work on a copy of the state: each sees what the
ones before it wrote, and what was written stays in the copy when one of them fails
(`Database.Body`). The copy replaces the state if the transaction is committed. Where the
rollback is deferred, it is committed only if every statement succeeded
(`Database.transact`), so a transaction that is refused has written nothing
(`Database.transact_eq_error`).
-/

namespace Database

variable {σ ε α β : Type}

/-- The statements of a transaction. -/
abbrev Body (σ ε α : Type) := ExceptT ε (StateM σ) α

/-- What the statements return, and the copy they leave. -/
def Body.perform (body : Body σ ε α) (s : σ) : Except ε α × σ := body.run.run s

/-- Commits the transaction if all of it succeeded, and rolls it back otherwise. -/
def transact (body : Body σ ε α) (s : σ) : Except ε α × σ :=
  match body.perform s with
  | (.ok a, s') => (.ok a, s')
  | (.error e, _) => (.error e, s)

namespace Body

variable {s : σ}

@[simp]
theorem perform_bind (body : Body σ ε α) (f : α → Body σ ε β) : (body >>= f).perform s =
      match body.perform s with
      | (.ok a, s') => (f a).perform s'
      | (.error e, s') => (.error e, s') := by
  simp only [perform, ExceptT.run_bind, StateT.run_bind]
  rcases StateT.run (ExceptT.run body) s with ⟨_ | _, _⟩ <;> rfl

@[simp]
theorem perform_lift (x : Except ε α) : (liftM x : Body σ ε α).perform s = (x, s) := rfl

@[simp]
theorem perform_get : (get : Body σ ε σ).perform s = (.ok s, s) := rfl

@[simp]
theorem perform_set (s' : σ) : (set s' : Body σ ε PUnit).perform s = (.ok ⟨⟩, s') := rfl

@[simp]
theorem perform_throw (e : ε) : (throw e : Body σ ε α).perform s = (.error e, s) := rfl

@[simp]
theorem perform_pure (a : α) : (pure a : Body σ ε α).perform s = (.ok a, s) := rfl

variable {x : Except ε α}

/-- A read or a check that succeeded, and what came after it. -/
theorem perform_lift_bind_ok {f : α → Body σ ε β} {b : β} {s' : σ} :
    (liftM x >>= f : Body σ ε β).perform s = (.ok b, s') ↔
      ∃ a, x = .ok a ∧ (f a).perform s = (.ok b, s') := by
  rw [perform_bind, perform_lift]
  cases x <;> simp

/-- A read or a check that succeeds is passed. -/
theorem perform_lift_bind {a : α} (h : x = .ok a) (f : α → Body σ ε β) :
    (liftM x >>= f : Body σ ε β).perform s = (f a).perform s := by
  rw [perform_bind, perform_lift, h]

end Body

variable {body : Body σ ε α} {s s' : σ}

theorem transact_eq_ok {a : α} : transact body s = (.ok a, s') ↔ body.perform s = (.ok a, s') := by
  unfold transact
  rcases body.perform s with ⟨_ | _, _⟩ <;> simp

theorem transact_eq_error {e : ε} :
    transact body s = (.error e, s') ↔ (body.perform s).1 = .error e ∧ s' = s := by
  unfold transact
  rcases body.perform s with ⟨_ | _, _⟩ <;> simp [eq_comm]

end Database
