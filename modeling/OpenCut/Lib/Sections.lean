import OpenCut.Lib.Table

/-!
# Sections that do not overlap

Threads share data. Each stands somewhere (its phase), and some phases are inside a section. If a
thread enters the section only while no other thread is inside (`Sections.free`), then at most one
thread is inside at any time (`Sections.Exclusive`).

With every phase goes an assertion about the shared data. One thread takes a step: its assertion
has to hold where it arrives; assertions outside the section have to survive whatever a thread
does, and assertions inside the section whatever is done outside (`Holds.step`).
-/

namespace Sections

open Table

variable {κ φ : Type*} [DecidableEq κ] {threads : Table κ φ} {busy : φ → Bool} {k : κ} {p : φ}

/-- No thread but `k` is inside the section. -/
def free (threads : Table κ φ) (busy : φ → Bool) (k : κ) : Bool :=
  threads.rows.all fun row => row.1 == k || !busy row.2

/-- At most one thread is inside the section. -/
def Exclusive (threads : Table κ φ) (busy : φ → Bool) : Prop :=
  ∀ k k' p p', threads.find? k = some p → threads.find? k' = some p' → busy p → busy p' → k = k'

/-- Every thread stands where its assertion holds. -/
def Holds (threads : Table κ φ) (assertion : φ → Prop) : Prop :=
  ∀ k p, threads.find? k = some p → assertion p

theorem free_iff : free threads busy k ↔ ∀ k' p, threads.find? k' = some p → busy p → k' = k := by
  simp only [free, List.all_eq_true, Prod.forall, mem_rows, Bool.or_eq_true, beq_iff_eq,
    Bool.not_eq_true']
  refine forall_congr' fun k' => forall_congr' fun p => imp_congr_right fun _ => ?_
  constructor
  · rintro (rfl | hidle) hbusy
    · rfl
    · rw [hbusy] at hidle
      cases hidle
  · intro h
    cases hbusy : busy p with
    | true => exact .inl (h hbusy)
    | false => exact .inr rfl

namespace Exclusive

section

variable (h : Exclusive threads busy)
include h

/-- The thread that is inside keeps the others out. -/
theorem free (hk : threads.find? k = some p) (hp : busy p) : free threads busy k :=
  free_iff.2 fun k' p' hk' hp' => h k' k p' p hk' hk hp' hp

/-- A thread may go where it wants outside, and inside if no other thread is there. -/
theorem set (hfree : busy p → Sections.free threads busy k) : Exclusive (threads.set k p) busy := by
  intro k₁ k₂ p₁ p₂ h₁ h₂ hb₁ hb₂
  rcases of_find?_set h₁ with ⟨e₁, rfl⟩ | h₁ <;> rcases of_find?_set h₂ with ⟨e₂, rfl⟩ | h₂
  · rw [e₁, e₂]
  · rw [e₁, free_iff.1 (hfree hb₁) k₂ p₂ h₂ hb₂]
  · rw [e₂, free_iff.1 (hfree hb₂) k₁ p₁ h₁ hb₁]
  · exact h k₁ k₂ p₁ p₂ h₁ h₂ hb₁ hb₂

theorem erase (k : κ) : Exclusive (threads.erase k) busy := by
  intro k₁ k₂ p₁ p₂ h₁ h₂
  exact h k₁ k₂ p₁ p₂ (of_find?_erase h₁).2 (of_find?_erase h₂).2

end

end Exclusive

namespace Holds

variable {assertion assertion' : φ → Prop}

theorem set (h : Holds threads assertion) (hp : assertion p) :
    Holds (threads.set k p) assertion := by
  intro k' p' hk'
  rcases of_find?_set hk' with ⟨-, rfl⟩ | hk'
  · exact hp
  · exact h k' p' hk'

theorem erase (h : Holds threads assertion) (k : κ) : Holds (threads.erase k) assertion := by
  intro k' p' hk'
  exact h k' p' (of_find?_erase hk').2

section

variable (h : Holds threads assertion) (hexclusive : Exclusive threads busy)
  (hk : threads.find? k = some p) (houtside : ∀ q, ¬busy q → assertion q → assertion' q)
  (hinside : ¬busy p → ∀ q, assertion q → assertion' q)
include h hexclusive hk houtside hinside

/-- The thread `k`, at `p`, changes the shared data: the other threads' assertions survive. -/
theorem others : Holds (threads.erase k) assertion' := by
  intro k' q hk'
  obtain ⟨hne, hk'⟩ := of_find?_erase hk'
  have hq := h k' q hk'
  by_cases hbusy : busy q
  · refine hinside (fun hp => hne ?_) q hq
    exact hexclusive k' k q p hk' hk hbusy hp
  · exact houtside q hbusy hq

/-- The thread `k` goes from `p` to `p'` and changes the shared data. -/
theorem step {p' : φ} (hp' : assertion' p') : Holds (threads.set k p') assertion' := by
  intro k' q hk'
  rw [find?_set] at hk'
  split at hk'
  · exact Option.some.inj hk' ▸ hp'
  · next hne =>
    refine h.others hexclusive hk houtside hinside k' q ?_
    rw [find?_erase, if_neg hne]
    exact hk'

end

end Holds

end Sections
