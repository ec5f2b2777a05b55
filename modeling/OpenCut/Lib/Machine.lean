import Mathlib.Logic.Relation
import Mathlib.Order.Nat

/-!
# Machines that serve requests

A machine serves requests one after another; a request that is refused leaves its state
as it was, so a step is a request that is served. Which requests come is up to others: a
run is any sequence of them, or any sequence of which each request is `allowed` in the
state it meets (`Machine.Reaches`).

* `Reaches.invariant`: what every step keeps holds along every run;
* `Reaches.of_play`, `exists_of_play`: the run on given requests.
-/

namespace Machine

variable {σ ρ ε α : Type*} {serve : σ → ρ → Except ε σ} {allowed : σ → ρ → Prop}

/-- A request that is allowed is served. -/
def Step (serve : σ → ρ → Except ε σ) (allowed : σ → ρ → Prop) (s s' : σ) : Prop :=
  ∃ r, allowed s r ∧ serve s r = .ok s'

/-- The state `s'` is reached from `s` by requests that are allowed. -/
def Reaches (serve : σ → ρ → Except ε σ) (allowed : σ → ρ → Prop) : σ → σ → Prop :=
  Relation.ReflTransGen (Step serve allowed)

namespace Reaches

@[refl]
theorem refl (s : σ) : Reaches serve allowed s s := Relation.ReflTransGen.refl

theorem trans {s s' s'' : σ} (h : Reaches serve allowed s s') (h' : Reaches serve allowed s' s'') :
    Reaches serve allowed s s'' :=
  Relation.ReflTransGen.trans h h'

/-- One more request. -/
theorem serve_ok {s s' s'' : σ} {r : ρ} (h : Reaches serve allowed s s') (hr : allowed s' r)
    (hs : serve s' r = .ok s'') : Reaches serve allowed s s'' :=
  Relation.ReflTransGen.tail h ⟨r, hr, hs⟩

/-- What every step keeps holds along every run. -/
theorem invariant (Inv : σ → Prop) {s s' : σ} (h : Reaches serve allowed s s')
    (hstep : ∀ s r s', allowed s r → Inv s → serve s r = .ok s' → Inv s') (hs : Inv s) :
    Inv s' := by
  induction h with
  | refl => exact hs
  | tail _ hlast ih =>
    obtain ⟨r, hr, hserve⟩ := hlast
    exact hstep _ r _ hr ih hserve

end Reaches

/-! ## Runs on given requests -/

/-- Serves the requests one after another, if all of them are allowed and served. -/
def play (serve : σ → ρ → Except ε σ) (allowed : σ → ρ → Prop) [∀ s r, Decidable (allowed s r)] :
    σ → List ρ → Option σ
  | s, [] => some s
  | s, r :: rs =>
    if allowed s r then (serve s r).toOption.bind fun s' => play serve allowed s' rs else none

theorem Reaches.of_play [∀ s r, Decidable (allowed s r)] {rs : List ρ} {s s' : σ}
    (h : play serve allowed s rs = some s') : Reaches serve allowed s s' := by
  induction rs generalizing s with
  | nil =>
    obtain rfl := Option.some.inj h
    exact refl s
  | cons r rs ih =>
    rw [play] at h
    split at h
    · next hr =>
      cases hserve : serve s r with
      | error e =>
        rw [hserve] at h
        cases h
      | ok t =>
        rw [hserve] at h
        exact ((refl s).serve_ok hr hserve).trans (ih h)
    · cases h

/-- A run on given requests to a state that passes a test. -/
theorem exists_of_play [∀ s r, Decidable (allowed s r)] (rs : List ρ) {s : σ} {P : σ → Prop}
    [DecidablePred P] (h : (play serve allowed s rs).any (P ·)) :
    ∃ s', Reaches serve allowed s s' ∧ P s' := by
  obtain ⟨s', hplay, htest⟩ := (Option.any_eq_true _ _).1 h
  exact ⟨s', .of_play hplay, of_decide_eq_true htest⟩

end Machine
