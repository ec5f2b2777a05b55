import Mathlib.Data.Set.Card
import Mathlib.Order.Nat

/-!
# Parts of things, guarded by revisions

A thing can be part of another one. Who is part of a thing is stored with the parts, and
the thing itself has a revision that stands for its own tie and for its parts
(`World.view`). A *patch* puts new ties on some things and names the revisions that it was
made for; it is committed, now or later, to a world that still has them.

* `World.Follows`: a later world, in which the same revision stands for the same view. If
  every patch names the things whose parts it changes (`Patch.Covers`), a commit leads to
  a world that follows (`Patch.Covers.follows`);
* `Patch.Sound.later`, `Patch.Sound.wellTied`: a patch that left well tied what it names, in
  the world it was made in, leaves every later world well tied;
* `Patch.Record.undo_sound`: putting back the ties that a patch replaced is such a patch, if
  everything that the patch named is still where it was left.
-/

namespace Ties

open Option

variable {K : Type*}

/-- What a thing has to do with others: the thing that it is part of, and whether it takes
    parts itself. -/
structure Tie (K : Type*) where
  owner : Option K
  holds : Bool

/-- The tie of a thing that is not there. -/
def Tie.loose : Tie K := ⟨none, false⟩

/-- The parts of a thing. -/
def parts (ties : K → Tie K) (k : K) : Set K := {j | (ties j).owner = some k}

@[simp]
theorem mem_parts {ties : K → Tie K} {j k : K} : j ∈ parts ties k ↔ (ties j).owner = some k :=
  Iff.rfl

section

variable [DecidableEq K] {ties : K → Tie K} {k : K}

/-- Tying one thing anew takes it into one owner and out of all others. -/
theorem parts_update (ties : K → Tie K) (j : K) (t : Tie K) (k : K) :
    parts (Function.update ties j t) k =
      if t.owner = some k then insert j (parts ties k) else parts ties k \ {j} := by
  ext i
  by_cases hi : i = j
  · subst hi
    split <;> simp_all
  · split <;> simp [hi]

theorem finite_parts_update (h : (parts ties k).Finite) (j : K) (t : Tie K) :
    (parts (Function.update ties j t) k).Finite := by
  rw [parts_update]
  split
  · exact h.insert j
  · exact h.sdiff

theorem ncard_parts_update (h : (parts ties k).Finite) (j : K) (t : Tie K) :
    ((parts (Function.update ties j t) k).ncard : ℤ) = (parts ties k).ncard +
      ((if t.owner = some k then 1 else 0) - if (ties j).owner = some k then 1 else 0) := by
  rw [parts_update]
  by_cases hj : j ∈ parts ties k
  · rw [if_pos (mem_parts.1 hj)]
    split
    · rw [Set.insert_eq_of_mem hj, sub_self, add_zero]
    · have hcard := Set.ncard_sdiff_singleton_add_one hj h
      omega
  · rw [if_neg (mt mem_parts.2 hj)]
    split
    · have hcard := Set.ncard_insert_of_notMem hj h
      omega
    · rw [Set.sdiff_singleton_eq_self hj, sub_self, add_zero]

/-- The parts of a thing, listed. -/
theorem ncard_parts_of_list (ties : K → Tie K) (k : K) {l : List K} (hl : l.Nodup)
    (h : ∀ j, j ∈ l ↔ (ties j).owner = some k) :
    (parts ties k).Finite ∧ (parts ties k).ncard = l.length := by
  have hparts : parts ties k = l.toFinset := by
    ext j
    rw [mem_parts, ← h j, Finset.mem_coe, List.mem_toFinset]
  rw [hparts]
  exact ⟨l.toFinset.finite_toSet, by rw [Set.ncard_coe_finset, List.toFinset_card_of_nodup hl]⟩

end

/-- Things with their revisions and ties. -/
@[ext]
structure World (K : Type*) where
  revision? : K → Option ℕ
  tie : K → Tie K
  /-- What is not there is loose. -/
  absent : ∀ k, revision? k = none → tie k = .loose

namespace World

variable {w w' w'' : World K}

/-- What the revision of a thing stands for. -/
def view (w : World K) (k : K) : Tie K × Set K := (w.tie k, parts w.tie k)

theorem tie_of_view {k : K} (h : w'.view k = w.view k) : w'.tie k = w.tie k := congrArg Prod.fst h

theorem parts_of_view {k : K} (h : w'.view k = w.view k) : parts w'.tie k = parts w.tie k :=
  congrArg Prod.snd h

/-- No revision goes back, and a revision that stays stands for the same view. -/
def Follows (w w' : World K) : Prop :=
  ∀ k n, w.revision? k = some n →
    ∃ m, w'.revision? k = some m ∧ n ≤ m ∧ (m = n → w'.view k = w.view k)

@[refl]
theorem Follows.refl (w : World K) : w.Follows w := fun _ n h => ⟨n, h, le_rfl, fun _ => rfl⟩

theorem Follows.trans (h : w.Follows w') (h' : w'.Follows w'') : w.Follows w'' := by
  intro k n hn
  obtain ⟨m, hm, hle, hview⟩ := h k n hn
  obtain ⟨l, hl, hle', hview'⟩ := h' k m hm
  refine ⟨l, hl, hle.trans hle', fun heq => ?_⟩
  obtain rfl : m = n := le_antisymm (heq ▸ hle') hle
  exact (hview' heq).trans (hview rfl)

/-- Where every revision advances, whatever the ties. -/
theorem Follows.of_advance
    (h : ∀ k n, w.revision? k = some n → ∃ m, w'.revision? k = some m ∧ n < m) : w.Follows w' := by
  intro k n hn
  obtain ⟨m, hm, hlt⟩ := h k n hn
  exact ⟨m, hm, hlt.le, fun heq => absurd heq hlt.ne'⟩

/-- What is not there now was not there before. -/
theorem Follows.absent (h : w.Follows w') {k : K} (hk : w'.revision? k = none) :
    w.revision? k = none := by
  cases hn : w.revision? k with
  | none => rfl
  | some n =>
    obtain ⟨m, hm, -⟩ := h k n hn
    cases hk.symm.trans hm

end World

/-! ## Patches -/

/-- New ties for some things, and the revisions before and after it of all things that it
    names. -/
structure Patch (K : Type*) where
  change : K → Option (Option ℕ × ℕ)
  put : K → Option (Tie K)

namespace Patch

variable {P Q : Patch K} {w w' v v' : World K}

/-- The ties with those of the patch. -/
def ties (P : Patch K) (w : World K) : K → Tie K := fun k => (P.put k).getD (w.tie k)

theorem ties_of_put {k : K} {t : Tie K} (h : P.put k = some t) : P.ties w k = t := by
  rw [ties, h, getD_some]

theorem ties_of_not_put {k : K} (h : P.put k = none) : P.ties w k = w.tie k := by
  rw [ties, h, getD_none]

/-- The things that the patch names have the revisions that it was made for. -/
def Meets (P : Patch K) (w : World K) : Prop := ∀ k c, P.change k = some c → w.revision? k = c.1

/-- Committing the patch makes `w'` of `w`. -/
structure Commits (P : Patch K) (w w' : World K) : Prop where
  meets : P.Meets w
  after : ∀ k c, P.change k = some c → w'.revision? k = some c.2
  kept : ∀ k, P.change k = none → w'.revision? k = w.revision? k
  tie : w'.tie = P.ties w

/-- The patch names the things it puts and those whose parts change. -/
structure Covers (P : Patch K) (w : World K) : Prop where
  advances : ∀ k n m, P.change k = some (some n, m) → n < m
  put : ∀ k, P.change k = none → P.put k = none
  owner : ∀ j t, P.put j = some t → ∀ k, P.change k = none →
    ((w.tie j).owner = some k ↔ t.owner = some k)

namespace Covers

section

variable (h : P.Covers w)
include h

theorem change_of_put {k : K} {t : Tie K} (hk : P.put k = some t) : ∃ c, P.change k = some c := by
  refine ne_none_iff_exists'.1 fun hnone => ?_
  cases (h.put k hnone).symm.trans hk

/-- The parts of a thing that is not named stay. -/
theorem parts_eq {k : K} (hk : P.change k = none) : parts (P.ties w) k = parts w.tie k := by
  ext j
  rw [mem_parts, mem_parts]
  cases hj : P.put j with
  | none => rw [ties_of_not_put hj]
  | some t => rw [ties_of_put hj, h.owner j t hj k hk]

theorem view_eq (hc : P.Commits w w') {k : K} (hk : P.change k = none) : w'.view k = w.view k := by
  rw [World.view, World.view, hc.tie, h.parts_eq hk, ties_of_not_put (h.put k hk)]

/-- A commit of a patch that names what it changes leads to a later world. -/
theorem follows (hc : P.Commits w w') : w.Follows w' := by
  intro k n hn
  cases hk : P.change k with
  | none => exact ⟨n, (hc.kept k hk).trans hn, le_rfl, fun _ => h.view_eq hc hk⟩
  | some c =>
    obtain ⟨before, m⟩ := c
    obtain rfl : before = some n := (hc.meets k _ hk).symm.trans hn
    have hlt := h.advances k n m hk
    exact ⟨m, hc.after k _ hk, hlt.le, fun heq => absurd heq hlt.ne'⟩

end

end Covers

/-- The parts of a thing after a patch depend on its parts before. -/
theorem parts_congr {k : K} (h : parts v.tie k = parts w.tie k) :
    parts (P.ties v) k = parts (P.ties w) k := by
  ext j
  rw [mem_parts, mem_parts]
  cases hj : P.put j with
  | none => rw [ties_of_not_put hj, ties_of_not_put hj, ← mem_parts, h, mem_parts]
  | some t => rw [ties_of_put hj, ties_of_put hj]

theorem ties_congr {k : K} (h : v.tie k = w.tie k) : P.ties v k = P.ties w k := by
  rw [ties, ties, h]

end Patch

/-! ## Well tied worlds -/

section

variable {Good : K → Tie K → Set K → Prop}

/-- Every thing is good for its parts. -/
def WellTied (Good : K → Tie K → Set K → Prop) (ties : K → Tie K) : Prop :=
  ∀ k, Good k (ties k) (parts ties k)

/-- The patch was made in the world `w`: it was made for revisions that the things had there,
    and if the things that it creates were not there, it names what it changes and leaves
    it good. -/
structure Patch.Sound (Good : K → Tie K → Set K → Prop) (P : Patch K) (w : World K) : Prop where
  well : WellTied Good w.tie
  made : ∀ k n m, P.change k = some (some n, m) → w.revision? k = some n
  covers : P.Meets w → P.Covers w
  good : P.Meets w → ∀ k c, P.change k = some c → Good k (P.ties w k) (parts (P.ties w) k)

variable {P Q : Patch K} {w w' v v' : World K}

/-- Where the revisions are the same, so are the views; a loose thing has no parts. -/
theorem World.Follows.view_eq (hloose : ∀ k s, Good k .loose s → s = ∅) (h : w.Follows v)
    (hw : WellTied Good w.tie) (hv : WellTied Good v.tie) {k : K}
    (hk : v.revision? k = w.revision? k) : v.view k = w.view k := by
  cases hn : w.revision? k with
  | none =>
    have hties : v.tie k = .loose ∧ w.tie k = .loose := ⟨v.absent k (hk.trans hn), w.absent k hn⟩
    have hparts : ∀ {u : World K}, WellTied Good u.tie → u.tie k = .loose → parts u.tie k = ∅ :=
      fun hu hloose' => hloose k _ (hloose' ▸ hu k)
    rw [World.view, World.view, hparts hv hties.1, hparts hw hties.2, hties.1, hties.2]
  | some n =>
    obtain ⟨m, hm, -, hview⟩ := h k n hn
    exact hview (mem_unique hm (hk.trans hn))

namespace Patch.Sound

/-- The things that the patch creates were not there if they are not now. -/
theorem meets (hP : P.Sound Good w) (h : w.Follows v) (hv : P.Meets v) : P.Meets w := by
  rintro k ⟨before, m⟩ hk
  cases before with
  | none => exact h.absent (hv k _ hk)
  | some n => exact hP.made k n m hk

/-- The things that the patch names have their views until it is committed. -/
theorem view_eq (hloose : ∀ k s, Good k .loose s → s = ∅) (hP : P.Sound Good w) (h : w.Follows v)
    (hv : WellTied Good v.tie) (hmeets : P.Meets v) {k : K} {c : Option ℕ × ℕ}
    (hk : P.change k = some c) : v.view k = w.view k :=
  h.view_eq hloose hP.well hv ((hmeets k c hk).trans (hP.meets h hmeets k c hk).symm)

/-- The patch could as well have been made later, if it can still be committed. -/
theorem later (hloose : ∀ k s, Good k .loose s → s = ∅) (hP : P.Sound Good w) (h : w.Follows v)
    (hv : WellTied Good v.tie) (hmeets : P.Meets v) : P.Sound Good v := by
  have hmeets' := hP.meets h hmeets
  have hcovers := hP.covers hmeets'
  have hview : ∀ {k c}, P.change k = some c → v.view k = w.view k := hP.view_eq hloose h hv hmeets
  refine ⟨hv, fun k n m hk => hmeets k _ hk, fun _ => ⟨hcovers.advances, hcovers.put, ?_⟩, ?_⟩
  · intro j t hj k hk
    -- What is put is named, so it has the tie that it had.
    obtain ⟨c, hc⟩ := hcovers.change_of_put hj
    rw [World.tie_of_view (hview hc)]
    exact hcovers.owner j t hj k hk
  · intro _ k c hk
    rw [ties_congr (World.tie_of_view (hview hk)), parts_congr (World.parts_of_view (hview hk))]
    exact hP.good hmeets' k c hk

/-- A commit leaves a well tied world well tied. -/
theorem wellTied (hP : P.Sound Good w) (hc : P.Commits w w') : WellTied Good w'.tie := by
  intro k
  have hcovers := hP.covers hc.meets
  cases hk : P.change k with
  | none =>
    have hview := hcovers.view_eq hc hk
    rw [World.tie_of_view hview, World.parts_of_view hview]
    exact hP.well k
  | some c =>
    rw [hc.tie]
    exact hP.good hc.meets k c hk

end Patch.Sound

/-! ## Undoing -/

/-- The patch made `w'` of `w`, and `back` has the ties that it replaced. -/
structure Patch.Record (Good : K → Tie K → Set K → Prop) (P : Patch K) (back : K → Option (Tie K))
    (w w' : World K) : Prop where
  sound : P.Sound Good w
  commits : P.Commits w w'
  back : ∀ k, back k = (P.put k).map fun _ => w.tie k

/-- The patch `Q` names the same things as `P`, which are where `P` left them. -/
structure Patch.Rebases (Q P : Patch K) (v : World K) : Prop where
  same : ∀ k, Q.change k = none ↔ P.change k = none
  meets : ∀ k c, P.change k = some c → v.revision? k = some c.2
  made : ∀ k n m, Q.change k = some (some n, m) → v.revision? k = some n ∧ n < m

namespace Patch.Record

variable {back : K → Option (Tie K)}

/-- Putting back what the patch replaced gives the things it named their old views. -/
theorem undo_sound (hloose : ∀ k s, Good k .loose s → s = ∅) (h : P.Record Good back w w')
    (hfollows : w'.Follows v) (hv : WellTied Good v.tie) (hput : Q.put = back)
    (hQ : Q.Rebases P v) :
    Q.Sound Good v ∧ ∀ k, P.put k = (Q.put k).map fun _ => v.tie k := by
  have hcovers := h.sound.covers h.commits.meets
  have hback : ∀ k, Q.put k = (P.put k).map fun _ => w.tie k := fun k => by rw [hput, h.back]
  have hview : ∀ {k c}, P.change k = some c → v.view k = w'.view k := fun {k c} hk =>
    hfollows.view_eq hloose (h.sound.wellTied h.commits) hv
      ((hQ.meets k c hk).trans (h.commits.after k c hk).symm)
  have htie : ∀ {j t}, P.put j = some t → v.tie j = t := by
    intro j t hj
    obtain ⟨c, hc⟩ := hcovers.change_of_put hj
    rw [World.tie_of_view (hview hc), h.commits.tie, ties_of_put hj]
  refine ⟨⟨hv, fun k n m hk => (hQ.made k n m hk).1, fun _ => ⟨fun k n m hk => (hQ.made k n m hk).2,
    fun k hk => ?_, fun j t hj k hk => ?_⟩, fun _ k c hk => ?_⟩, fun k => ?_⟩
  · rw [hback, hcovers.put k ((hQ.same k).1 hk), map_none]
  · rw [hback, map_eq_some_iff] at hj
    obtain ⟨s, hs, rfl⟩ := hj
    rw [htie hs]
    exact (hcovers.owner j s hs k ((hQ.same k).1 hk)).symm
  · -- The thing gets the tie and the parts that it had before the patch.
    obtain ⟨c', hc'⟩ : ∃ c', P.change k = some c' :=
      ne_none_iff_exists'.1 fun hnone => by cases ((hQ.same k).2 hnone).symm.trans hk
    have hold : ∀ j, (v.tie j = w'.tie j) → Q.ties v j = w.tie j := by
      intro j hj
      cases hs : P.put j with
      | none =>
        rw [ties_of_not_put (by rw [hback, hs, map_none]), hj, h.commits.tie, ties_of_not_put hs]
      | some s => exact ties_of_put (by rw [hback, hs, map_some])
    have hparts : parts (Q.ties v) k = parts w.tie k := by
      ext j
      rw [mem_parts, mem_parts]
      cases hs : P.put j with
      | none =>
        have hmem : j ∈ parts v.tie k ↔ j ∈ parts w'.tie k := by
          rw [World.parts_of_view (hview hc')]
        rw [mem_parts, mem_parts, h.commits.tie, ties_of_not_put hs] at hmem
        rw [ties_of_not_put (by rw [hback, hs, map_none]), hmem]
      | some s => rw [ties_of_put (by rw [hback, hs, map_some])]
    rw [hold k (World.tie_of_view (hview hc')), hparts]
    exact h.sound.well k
  · cases hs : P.put k with
    | none => rw [hback, hs, map_none, map_none]
    | some s => rw [hback, hs, map_some, map_some, htie hs]

/-- A patch that is on record left a well tied world, later than the one it met. -/
theorem result (h : P.Record Good back w w') : WellTied Good w'.tie ∧ w.Follows w' :=
  ⟨h.sound.wellTied h.commits, (h.sound.covers h.commits.meets).follows h.commits⟩

end Patch.Record

end

end Ties
