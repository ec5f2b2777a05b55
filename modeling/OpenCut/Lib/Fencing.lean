import Mathlib.Data.List.Forall2
import Mathlib.Data.List.Range
import Mathlib.Logic.Relation

/-!
# Fenced attempts

A job is worked on in attempts. At most one of them is live, and each carries a generation, by
which a late worker is told from the current one. This is the record of one job
(`Fencing.Record`) and how it may change (`Fencing.Move`): an attempt ends, one is added to a
job that waits, the job is closed.

* `Fenced.move`: along moves, only the latest attempt of a job can be live, and only while the
  job is held; the generations are `1, 2, 3, …`;
* `Move.closed`: no attempt is added to a closed job.
-/

namespace Fencing

open List

/-- Where a job stands: attempts may be added, one may be live, or it is over. -/
inductive Phase
  | waiting
  | held
  | closed
deriving DecidableEq

/-- The record of a job: its phase and its attempts, the oldest first. -/
structure Record (α : Type*) where
  phase : Phase
  attempts : List α

variable {α : Type*} (live : α → Bool) (generation : α → ℕ)

/-- An attempt may end; it does not revive, and it keeps its generation. -/
def Ages (a a' : α) : Prop := generation a' = generation a ∧ (live a' → live a)

/-- How the record of a job may change. -/
inductive Move : Record α → Record α → Prop
  /-- Attempts end and the phase stays. -/
  | age {phase : Phase} {as as' : List α} (h : as.Forall₂ (Ages live generation) as') :
    Move ⟨phase, as⟩ ⟨phase, as'⟩
  /-- A job with which no attempt is busy any more waits again or is closed. -/
  | release {phase phase' : Phase} {as as' : List α} (hphase : phase ≠ .closed)
    (h : as.Forall₂ (Ages live generation) as') (hlive : ∀ a ∈ as', ¬live a) :
    Move ⟨phase, as⟩ ⟨phase', as'⟩
  /-- A job that waits is closed, or waits on. -/
  | settle {phase : Phase} {as : List α} (hphase : phase ≠ .held) : Move ⟨.waiting, as⟩ ⟨phase, as⟩
  /-- An attempt is added to a job that waits. -/
  | take {as : List α} {a : α} (h : generation a = as.length + 1) :
    Move ⟨.waiting, as⟩ ⟨.held, as ++ [a]⟩

/-- The attempts carry the generations `1, 2, 3, …`, only the last one may be live, and it only
    while the job is held. -/
structure Fenced (r : Record α) : Prop where
  generations : r.attempts.map generation = List.range' 1 r.attempts.length
  last : ∀ as a as', r.attempts = as ++ a :: as' → live a → as' = []
  held : ∀ a ∈ r.attempts, live a → r.phase = .held

variable {live generation}

theorem map_generation_of_ages {as as' : List α} (h : as.Forall₂ (Ages live generation) as') :
    as'.map generation = as.map generation := by
  induction h with
  | nil => rfl
  | cons hage _ ih => rw [map_cons, map_cons, hage.1, ih]

/-- A live attempt was live before, in the same place. -/
theorem split_of_ages {as bs cs : List α} {a : α}
    (h : as.Forall₂ (Ages live generation) (bs ++ a :: cs)) :
    ∃ bs' a' cs', as = bs' ++ a' :: cs' ∧ (live a → live a') ∧ cs'.length = cs.length := by
  obtain ⟨a', cs', hage, hlate, hdrop⟩ :=
    forall₂_cons_right_iff.1 (forall₂_drop_append as bs (a :: cs) h)
  refine ⟨as.take bs.length, a', cs', ?_, hage.2, hlate.length_eq⟩
  rw [← hdrop, take_append_drop]

/-- What ages stays fenced, if the live attempts are still in a job that is held. -/
theorem Fenced.age {phase phase' : Phase} {as as' : List α}
    (hr : Fenced live generation ⟨phase, as⟩) (h : as.Forall₂ (Ages live generation) as')
    (hphase : ∀ a ∈ as', live a → phase = .held → phase' = .held) :
    Fenced live generation ⟨phase', as'⟩ := by
  have hlive : ∀ bs a cs, as' = bs ++ a :: cs → live a → cs = [] ∧ phase = .held := by
    rintro bs a cs rfl ha
    obtain ⟨bs', a', cs', rfl, hlive, hlength⟩ := split_of_ages h
    have hlast := hr.last _ _ _ rfl (hlive ha)
    rw [hlast] at hlength
    exact ⟨length_eq_zero_iff.1 hlength.symm, hr.held a' (by simp) (hlive ha)⟩
  refine ⟨?_, fun bs a cs heq ha => (hlive bs a cs heq ha).1, fun a ha hl => ?_⟩
  · rw [map_generation_of_ages h, ← h.length_eq]
    exact hr.generations
  · obtain ⟨bs, cs, heq⟩ := append_of_mem ha
    exact hphase a ha hl (hlive bs a cs heq hl).2

variable {r : Record α} {r' : Record α}

theorem Fenced.move (hr : Fenced live generation r)
    (h : Move live generation r r') : Fenced live generation r' := by
  cases h with
  | age h => exact hr.age h fun _ _ _ => id
  | release hphase h hlive => exact hr.age h fun a ha hl => absurd hl (hlive a ha)
  | settle =>
    refine ⟨hr.generations, hr.last, fun a ha hl => ?_⟩
    cases hr.held a ha hl
  | @take as a h =>
    -- no attempt of a job that waits is live
    have hnone : ∀ b ∈ as, ¬live b := fun b hb hl => by cases hr.held b hb hl
    refine ⟨?_, fun bs b cs heq hl => ?_, fun _ _ _ => rfl⟩
    · have hgenerations : as.map generation = range' 1 as.length := hr.generations
      rw [map_append, hgenerations, map_singleton, h, length_append,
        length_singleton, ← range'_append_1, Nat.add_comm 1 as.length]
      rfl
    · by_contra hcs
      obtain ⟨ds, d, rfl⟩ := eq_nil_or_concat cs |>.resolve_left hcs
      have heq' : as ++ [a] = (bs ++ b :: ds) ++ [d] := by simpa using heq
      exact hnone b (by simp [(append_inj' heq' rfl).1]) hl

theorem Fenced.moves (hr : Fenced live generation r)
    (h : Relation.ReflTransGen (Move live generation) r r') : Fenced live generation r' := by
  induction h with
  | refl => exact hr
  | tail _ hlast ih => exact ih.move hlast

/-- A closed job stays closed, and no attempt is added to it. -/
theorem Move.closed (h : Move live generation r r') (hr : r.phase = .closed) :
    r'.phase = .closed ∧ r'.attempts.length = r.attempts.length := by
  cases h with
  | age h => exact ⟨hr, h.length_eq.symm⟩
  | release hphase => exact absurd hr hphase
  | settle => cases hr
  | take h => cases hr

theorem moves_closed (h : Relation.ReflTransGen (Move live generation) r r')
    (hr : r.phase = .closed) :
    r'.phase = .closed ∧ r'.attempts.length = r.attempts.length := by
  induction h with
  | refl => exact ⟨hr, rfl⟩
  | tail _ hlast ih =>
    obtain ⟨hclosed, hlength⟩ := hlast.closed ih.1
    exact ⟨hclosed, hlength.trans ih.2⟩

section

variable (hr : Fenced live generation r)
include hr

/-- A live attempt is the latest one. -/
theorem Fenced.getLast? {a : α}
    (ha : a ∈ r.attempts) (hl : live a) : r.attempts.getLast? = some a := by
  obtain ⟨bs, cs, heq⟩ := append_of_mem ha
  obtain rfl := hr.last bs a cs heq hl
  rw [heq, getLast?_concat]

/-- Of the attempts of a job, at most one is live. -/
theorem Fenced.live_unique : (r.attempts.filter live).length ≤ 1 := by
  by_cases hany : ∃ a ∈ r.attempts, live a
  · obtain ⟨a, ha, hl⟩ := hany
    obtain ⟨bs, cs, heq⟩ := append_of_mem ha
    obtain rfl := hr.last bs a cs heq hl
    have hnone : bs.filter live = [] := by
      refine filter_eq_nil_iff.2 fun b hb hb' => ?_
      obtain ⟨ds, es, rfl⟩ := append_of_mem hb
      have := hr.last ds b (es ++ [a]) (by simp [heq]) hb'
      simp at this
    rw [heq, filter_append, hnone]
    exact length_filter_le _ [a]
  · push Not at hany
    rw [filter_eq_nil_iff.2 fun a ha => by simpa using hany a ha]
    exact Nat.zero_le 1

/-- The greatest generation is the number of attempts. -/
theorem Fenced.foldr_max : (r.attempts.map generation).foldr max 0 = r.attempts.length := by
  rw [hr.generations]
  generalize r.attempts.length = n
  have hfold : ∀ n s, (range' s n).foldr max 0 = if n = 0 then 0 else s + n - 1 := by
    intro n
    induction n with
    | zero => simp
    | succ n ih =>
      intro s
      rw [range'_succ, foldr_cons, ih]
      split <;> simp <;> omega
  rw [hfold]
  split <;> omega

end

end Fencing
