import Mathlib.Data.List.Induction

/-!
# Outcomes of fallible steps

A request is served by a chain of steps in `Except ε`, each of which may refuse
it: a check (`Outcome.ensure`), a look-up that has to find something
(`Outcome.need`), a loop over a list (`List.foldlM`). The lemmas read such a
chain backwards: from the fact that the whole chain succeeded to the fact that
every check held and every look-up found its value (`Outcome.bind_ok`,
`Outcome.ensure_ok`, `Outcome.need_ok`), and, for a loop, to an invariant of
the accumulator (`Outcome.foldlM_invariant`).
-/

namespace Outcome

open List Option

universe u v

variable {ε : Type u} {α β : Type v}

/-- Refuse with `e` unless `p` holds. -/
def ensure (p : Prop) [Decidable p] (e : ε) : Except ε Unit := if p then .ok () else .error e

/-- The value of a look-up that has to find something. -/
def need (o : Option α) (e : ε) : Except ε α :=
  match o with
  | some a => .ok a
  | none => .error e

/-- The outcome with `e` for whatever it was refused with. -/
def refuseAs (x : Except ε α) (e : ε) : Except ε α :=
  match x with
  | .ok a => .ok a
  | .error _ => .error e

variable {p : Prop} {e : ε} {a : α} {b : β} {x : Except ε α}

@[simp]
theorem ensure_ok [Decidable p] {u : Unit} : ensure p e = .ok u ↔ p := by
  unfold ensure
  split <;> simp_all

theorem ensure_of [Decidable p] (e : ε) (h : p) : ensure p e = .ok () := ensure_ok.2 h

variable {o : Option α}

@[simp]
theorem need_ok : need o e = .ok a ↔ o = some a := by
  cases o <;> simp [need]

@[simp]
theorem refuseAs_ok : refuseAs x e = .ok a ↔ x = .ok a := by
  cases x <;> simp [refuseAs]

@[simp]
theorem bind_ok {f : α → Except ε β} : x >>= f = .ok b ↔ ∃ a, x = .ok a ∧ f a = .ok b := by
  cases x <;> simp [bind, Except.bind]

theorem exists_bind_ok {f : α → Except ε β} :
    (∃ b, (x >>= f) = .ok b) ↔ ∃ a, x = .ok a ∧ ∃ b, f a = .ok b := by
  simp only [bind_ok]
  rw [exists_comm]
  simp only [exists_and_left]

/-- A check before the rest. -/
theorem check_bind_ok {x : Except ε PUnit} {f : PUnit → Except ε β} :
    x >>= f = .ok b ↔ x = .ok ⟨⟩ ∧ f ⟨⟩ = .ok b := by
  rw [bind_ok]
  exact ⟨fun ⟨_, hx, hf⟩ => ⟨hx, hf⟩, fun ⟨hx, hf⟩ => ⟨⟨⟩, hx, hf⟩⟩

/-- What a refused sequence of steps is refused with is what one of its steps is. -/
theorem bind_error {f : α → Except ε β} :
    x >>= f = .error e ↔ x = .error e ∨ ∃ a, x = .ok a ∧ f a = .error e := by
  cases x <;> simp [bind, Except.bind]

theorem need_error {e' : ε} : need o e = .error e' ↔ o = none ∧ e = e' := by
  cases o <;> simp [need]

theorem ensure_error [Decidable p] {e' : ε} : ensure p e = .error e' ↔ ¬p ∧ e = e' := by
  by_cases h : p <;> simp [ensure, h]

theorem pure_error : (pure a : Except ε α) = .error e ↔ False := by
  simp [pure, Except.pure]

theorem toOption_eq_some : x.toOption = some a ↔ x = .ok a := by
  cases x <;> simp [Except.toOption]

theorem isOk_iff : x.isOk ↔ ∃ a, x = .ok a := by
  cases x <;> simp [Except.isOk, Except.toBool]

instance decidableOk : Decidable (∃ a, x = .ok a) := decidable_of_iff _ isOk_iff

/-- Whether there is a result with a property is found out by computing it. -/
instance decidableOkAnd {P : α → Prop} [DecidablePred P] : Decidable (∃ a, x = .ok a ∧ P a) :=
  match x with
  | .ok a => decidable_of_iff (P a) (by simp)
  | .error _ => isFalse (by simp)

instance decidableError [DecidableEq ε] : Decidable (x = .error e) :=
  match x with
  | .ok _ => isFalse (by simp)
  | .error e' => decidable_of_iff (e' = e) (by simp)

instance decidableSome : Decidable (∃ a, o = some a) := decidable_of_iff _ Option.isSome_iff_exists

instance decidableSomeAnd {P : α → Prop} [DecidablePred P] : Decidable (∃ a, o = some a ∧ P a) :=
  match o with
  | some a => decidable_of_iff (P a) (by simp)
  | none => isFalse (by simp)

theorem ok_bind (a : α) (f : α → Except ε β) : (Except.ok a >>= f) = f a := rfl

variable {γ : Type v}

/-- What is done with the result may be done at the end of every continuation. -/
theorem bind_map {f : α → Except ε β} {f' : α → Except ε γ} {g : β → γ}
    (h : ∀ a, f' a = (f a).map g) : x >>= f' = (x >>= f).map g := by
  cases x with
  | error e => rfl
  | ok a => exact h a

theorem map_ok {f : α → β} : x.map f = .ok b ↔ ∃ a, x = .ok a ∧ f a = b := by
  cases x <;> simp [Except.map]

theorem mapError_ok {ε' : Type*} {f : ε → ε'} : x.mapError f = .ok a ↔ x = .ok a := by
  cases x <;> simp [Except.mapError]

@[simp]
theorem pure_ok {b : α} : (pure a : Except ε α) = .ok b ↔ a = b := by
  simp [pure, Except.pure]

/-- A chain of steps that was served, read backwards: the lemmas for `simp only`, together. -/
theorem steps_ok : (∀ {ε α β : Type} {x : Except ε α} {f : α → Except ε β} {b : β},
      x >>= f = .ok b ↔ ∃ a, x = .ok a ∧ f a = .ok b) ∧
    (∀ {ε α : Type} {o : Option α} {e : ε} {a : α}, need o e = .ok a ↔ o = some a) ∧
    (∀ {ε : Type} {p : Prop} [Decidable p] {e : ε} {u : Unit}, ensure p e = .ok u ↔ p) ∧
    (∀ {ε α : Type} {a b : α}, (pure a : Except ε α) = .ok b ↔ a = b) ∧
    (∀ {P : Unit → Prop}, (∃ u, P u) ↔ P ()) ∧ (∀ {b : Bool}, (!b) = true ↔ b = false) ∧
    ∀ {α : Type} {o : Option α}, o.isNone = true ↔ o = none :=
  ⟨bind_ok, need_ok, ensure_ok, pure_ok, ⟨fun ⟨_, h⟩ => h, fun h => ⟨_, h⟩⟩, by simp,
    Option.isNone_iff_eq_none⟩

@[simp]
theorem throw_ok {b : α} : (throw e : Except ε α) = .ok b ↔ False := by
  simp [throw, throwThe, MonadExceptOf.throw]

variable {f : β → α → Except ε β} {l : List α}

/-- A loop that is refused is refused by one of its turns. -/
theorem foldlM_error (h : l.foldlM f b = .error e) : ∃ a ∈ l, ∃ c, f c a = .error e := by
  induction l generalizing b with
  | nil => exact (pure_error.1 h).elim
  | cons a l ih =>
    rw [foldlM_cons, bind_error] at h
    rcases h with h | ⟨c, -, h⟩
    · exact ⟨a, mem_cons_self, b, h⟩
    · obtain ⟨a', ha', hc⟩ := ih h
      exact ⟨a', mem_cons_of_mem _ ha', hc⟩

/-- A loop none of whose steps does anything. -/
theorem foldlM_fixed (h : ∀ a ∈ l, f b a = .ok b) : l.foldlM f b = .ok b := by
  induction l with
  | nil => rfl
  | cons a l ih =>
    rw [foldlM_cons, h a mem_cons_self]
    exact ih fun a' ha' => h a' (mem_cons_of_mem a ha')

variable {b' : β}

/-- What holds of the accumulator at first, and is kept by every turn of the
    loop that succeeds, holds at the end. -/
theorem foldlM_invariant (P : β → Prop) (hf : ∀ a ∈ l, ∀ c c', P c → f c a = .ok c' → P c')
    (hb : P b) (h : l.foldlM f b = .ok b') : P b' := by
  induction l generalizing b with
  | nil =>
    rw [foldlM_nil, pure_ok] at h
    exact h ▸ hb
  | cons a l ih =>
    obtain ⟨c, hc, h⟩ := bind_ok.1 h
    exact ih (fun x hx => hf x (mem_cons_of_mem _ hx)) (hf a mem_cons_self b c hb hc) h

variable (P : List α → β → Prop)

/-- What relates the accumulator to the elements gone over, holds at first and is
    kept by every turn that succeeds, holds at the end of all elements. -/
theorem foldlM_progress
    (hf : ∀ done a c c', P done c → f c a = .ok c' → P (done ++ [a]) c') (hb : P [] b)
    (h : l.foldlM f b = .ok b') : P l b' := by
  suffices hgen : ∀ (l done : List α) (b : β), P done b → l.foldlM f b = .ok b' →
      P (done ++ l) b' from hgen l [] b hb h
  intro l
  induction l with
  | nil =>
    intro done b hb h
    rw [foldlM_nil, pure_ok] at h
    rw [append_nil]
    exact h ▸ hb
  | cons a l ih =>
    intro done b hb h
    obtain ⟨c, hc, h⟩ := bind_ok.1 h
    rw [append_cons]
    exact ih (done ++ [a]) c (hf done a b c hb hc) h

/-- A loop succeeds if every turn does, where what relates the accumulator to the elements
    gone over lets it, and is kept. -/
theorem foldlM_total
    (hf : ∀ done a rest c, done ++ a :: rest = l → P done c → ∃ c', f c a = .ok c' ∧
      P (done ++ [a]) c')
    (hb : P [] b) : ∃ b', l.foldlM f b = .ok b' ∧ P l b' := by
  suffices hgen : ∀ (rest done : List α) (b : β), done ++ rest = l → P done b →
      ∃ b', rest.foldlM f b = .ok b' ∧ P l b' from hgen l [] b rfl hb
  intro rest
  induction rest with
  | nil =>
    intro done b hl hb
    rw [append_nil] at hl
    exact ⟨b, rfl, hl ▸ hb⟩
  | cons a rest ih =>
    intro done b hl hb
    obtain ⟨c, hc, hP⟩ := hf done a rest b hl hb
    obtain ⟨b', hrest, hb'⟩ := ih (done ++ [a]) c (by simpa using hl) hP
    exact ⟨b', by rw [foldlM_cons, hc, ok_bind, hrest], hb'⟩

/-- A loop that keeps an invariant, under which every turn writes one place: places of their
    own keep what was written, and nothing else changes. -/
theorem foldlM_writes_under {κ ν : Type*} [DecidableEq κ] (Inv : β → Prop) (read : β → κ → ν)
    (place : α → κ) (value : α → ν) (hf : ∀ b a b', Inv b → f b a = .ok b' →
      Inv b' ∧ ∀ k, read b' k = if k = place a then value a else read b k)
    (hl : (l.map place).Nodup) (hb : Inv b) (h : l.foldlM f b = .ok b') :
    Inv b' ∧ (∀ a ∈ l, read b' (place a) = value a) ∧ ∀ k ∉ l.map place, read b' k = read b k := by
  induction l generalizing b with
  | nil =>
    rw [foldlM_nil, pure_ok] at h
    subst h
    exact ⟨hb, by simp, fun _ _ => rfl⟩
  | cons a l ih =>
    rw [map_cons, nodup_cons] at hl
    obtain ⟨c, hc, h⟩ := bind_ok.1 h
    obtain ⟨hinv, hread⟩ := hf b a c hb hc
    obtain ⟨hinv', hwritten, hkept⟩ := ih hl.2 hinv h
    refine ⟨hinv', fun d hd => ?_, fun k hk => ?_⟩
    · rcases mem_cons.1 hd with rfl | hd
      · rw [hkept _ hl.1, hread, if_pos rfl]
      · exact hwritten d hd
    · rw [map_cons, mem_cons, not_or] at hk
      rw [hkept k hk.2, hread, if_neg hk.1]

/-- A loop of which every turn writes one place, whatever it meets. -/
theorem foldlM_writes {κ ν : Type*} [DecidableEq κ] (read : β → κ → ν) (place : α → κ)
    (value : α → ν)
    (hf : ∀ b a b', f b a = .ok b' → ∀ k, read b' k = if k = place a then value a else read b k)
    (hl : (l.map place).Nodup) (h : l.foldlM f b = .ok b') :
    (∀ a ∈ l, read b' (place a) = value a) ∧ ∀ k ∉ l.map place, read b' k = read b k :=
  (foldlM_writes_under (fun _ => True) read place value
    (fun b a b' _ hb => ⟨trivial, hf b a b' hb⟩) hl trivial h).2

/-- Some turn of a loop that keeps an invariant is the turn of `a`; what it establishes and the
    later turns keep holds at the end. -/
theorem foldlM_establishes_under (Inv P : β → Prop) (ha : a ∈ l) (hb : Inv b)
    (hest : ∀ c c', Inv c → f c a = .ok c' → P c')
    (hf : ∀ x ∈ l, ∀ c c', Inv c → f c x = .ok c' → Inv c' ∧ (P c → P c'))
    (h : l.foldlM f b = .ok b') : P b' := by
  obtain ⟨_, _, rfl⟩ := append_of_mem ha
  rw [foldlM_append, bind_ok] at h
  obtain ⟨c, hc, h⟩ := h
  have hinv := foldlM_invariant Inv (fun x hx c c' hc h => (hf x (by simp [hx]) c c' hc h).1) hb hc
  obtain ⟨d, hd, h⟩ := bind_ok.1 h
  refine (foldlM_invariant (fun c => Inv c ∧ P c) (fun x hx c c' hc h => ?_)
    ⟨(hf a (by simp) c d hinv hd).1, hest c d hinv hd⟩ h).2
  exact (hf x (by simp [hx]) c c' hc.1 h).imp_right fun hP => hP hc.2

/-- Some turn of a loop that succeeded is the turn of `a`; what it establishes
    and the later turns keep holds at the end. -/
theorem foldlM_establishes (P : β → Prop) (ha : a ∈ l)
    (hest : ∀ c c', f c a = .ok c' → P c') (hf : ∀ x ∈ l, ∀ c c', P c → f c x = .ok c' → P c')
    (h : l.foldlM f b = .ok b') : P b' :=
  foldlM_establishes_under (fun _ => True) P ha trivial (fun c c' _ => hest c c')
    (fun x hx c c' _ h => ⟨trivial, fun hP => hf x hx c c' hP h⟩) h

/-- A loop over rewritten elements, whose turns commute with a rewriting of the
    accumulator, is the loop over the elements with its result rewritten. -/
theorem foldlM_map_hom {α' β' : Type v} {f' : β' → α' → Except ε β'} (g : α → α') (h : β → β')
    (hf : ∀ b a, f' (h b) (g a) = (f b a).map h) (l : List α) (b : β) :
    (l.map g).foldlM f' (h b) = (l.foldlM f b).map h := by
  induction l generalizing b with
  | nil => rfl
  | cons a l ih =>
    rw [map_cons, foldlM_cons, foldlM_cons, hf]
    cases f b a with
    | error e => rfl
    | ok c => exact ih c

/-- A loop that also checks every element: where the loop without the check
    succeeds, it succeeds alike if all elements pass, and else is refused with
    the error of the check. -/
theorem foldlM_checked {f' : β → α → Except ε β} {p : α → Prop} [DecidablePred p]
    (hf : ∀ b a, f b a = if p a then f' b a else .error e) {c : β} (h : l.foldlM f' b = .ok c) :
    l.foldlM f b = if ∀ a ∈ l, p a then .ok c else .error e := by
  induction l generalizing b with
  | nil => simpa using h
  | cons a l ih =>
    obtain ⟨d, hd, h⟩ := bind_ok.1 h
    rw [foldlM_cons, hf]
    by_cases ha : p a
    · rw [if_pos ha, hd, ok_bind]
      simpa [ha] using ih h
    · rw [if_neg ha, if_neg fun hall => ha (hall a mem_cons_self)]
      rfl

/-- A loop of checks succeeds if every check does. -/
theorem forM_ok {α : Type*} {f : α → Except ε PUnit} {l : List α} {u : PUnit} :
    l.forM f = .ok u ↔ ∀ a ∈ l, f a = .ok u := by
  induction l with
  | nil => simp
  | cons a l ih =>
    change (f a >>= fun _ => l.forM f) = .ok u ↔ _
    rw [bind_ok, forall_mem_cons, ← ih]
    exact ⟨fun ⟨_, ha, hl⟩ => ⟨ha, hl⟩, fun ⟨ha, hl⟩ => ⟨_, ha, hl⟩⟩

variable {l' : List β}

/-- A loop that succeeded has made every element of its result of an element. -/
theorem mapM_mem {f : α → Except ε β} (h : l.mapM f = .ok l') (hb : b ∈ l') :
    ∃ a ∈ l, f a = .ok b := by
  induction l generalizing l' with
  | nil =>
    rw [mapM_nil, pure_ok] at h
    exact absurd (h ▸ hb) not_mem_nil
  | cons x l ih =>
    simp only [mapM_cons, bind_ok, pure_ok] at h
    obtain ⟨y, hy, l', hl', rfl⟩ := h
    rcases mem_cons.1 hb with rfl | hb
    · exact ⟨x, mem_cons_self, hy⟩
    · obtain ⟨a, ha, hab⟩ := ih hl' hb
      exact ⟨a, mem_cons_of_mem _ ha, hab⟩

/-- What every turn of a loop keeps of its element, the loop keeps of the list. -/
theorem mapM_map {f : α → Except ε β} {g : α → γ} {g' : β → γ}
    (hf : ∀ a b, f a = .ok b → g' b = g a) (h : l.mapM f = .ok l') :
    l'.map g' = l.map g := by
  induction l generalizing l' with
  | nil =>
    rw [mapM_nil, pure_ok] at h
    rw [← h]
    rfl
  | cons x l ih =>
    simp only [mapM_cons, bind_ok, pure_ok] at h
    obtain ⟨y, hy, l', hl', rfl⟩ := h
    rw [map_cons, map_cons, hf x y hy, ih hl']

/-! ## Options -/

theorem foldlM_some {f : β → α → Option β}
    (hf : ∀ done a c c', P done c → f c a = some c' → P (done ++ [a]) c') (hb : P [] b)
    (h : l.foldlM f b = some b') : P l b' := by
  induction l using reverseRecOn generalizing b' with
  | nil =>
    cases h
    exact hb
  | append_singleton l a ih =>
    simp only [foldlM_append, foldlM_cons, foldlM_nil, bind_eq_bind,
      bind_eq_some_iff, Option.pure_def, some.injEq] at h
    obtain ⟨c, hc, c', hc', rfl⟩ := h
    exact hf l a c c' (ih hc) hc'

theorem mapM_some {f : α → Option β} {r : List β} (h : l.mapM f = some r) :
    List.Forall₂ (fun a b => f a = some b) l r := by
  induction l generalizing r with
  | nil =>
    cases h
    exact .nil
  | cons a l ih =>
    simp only [mapM_cons, bind_eq_bind, bind_eq_some_iff, Option.pure_def, some.injEq] at h
    obtain ⟨b, hb, r, hr, rfl⟩ := h
    exact .cons hb (ih hr)

end Outcome
