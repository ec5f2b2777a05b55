import Mathlib.Data.List.InsertIdx
import Mathlib.Data.List.Nodup
import Mathlib.Data.List.TakeWhile

/-!
# Lists kept as ranks

A list of distinct keys can be kept by storing the rank of every key (`Lists rank l`).
Taking a key out, the later ones closing up, is `List.erase` (`Lists.erase`); making room
for a key right after another one is `place` (`Lists.place`). The place of a key is named
by the key before it (`predecessor`): a key that is taken out and put back after its
predecessor stands where it stood (`place_predecessor_erase`). A part of the list shows how
a key of the part is placed, if its predecessor belongs to the part (`filter_place`).
-/

namespace Ranking

open List Option

variable {κ : Type*}

/-- The list has the keys with a rank, each at its rank. -/
def Lists (rank : κ → Option ℕ) (l : List κ) : Prop := ∀ i k, l[i]? = some k ↔ rank k = some i

namespace Lists

variable {rank rank' : κ → Option ℕ} {l l' : List κ}

section

variable (h : Lists rank l)
include h

theorem mem_iff {k : κ} : k ∈ l ↔ ∃ i, rank k = some i := by
  rw [mem_iff_getElem?]
  exact exists_congr fun i => h i k

/-- The ranks are the places from zero on. -/
theorem map_rank : l.map rank = (List.range l.length).map some := by
  refine ext_getElem (by simp) fun i hi _ => ?_
  rw [length_map] at hi
  rw [getElem_map, getElem_map, getElem_range]
  exact (h i _).1 (getElem?_eq_getElem hi)

theorem congr (hrank : ∀ k, rank' k = rank k) : Lists rank' l := by
  intro i k
  rw [h i k, hrank k]

theorem nodup : l.Nodup := by
  rw [nodup_iff_getElem?_ne_getElem?]
  intro i j hij hj heq
  have hi : l[i]? = some l[j] := by rw [heq, getElem?_eq_getElem hj]
  have hri := (h i _).1 hi
  rw [(h j _).1 (getElem?_eq_getElem hj)] at hri
  exact absurd (some.inj hri) hij.ne'

/-- The keys before and after `a`. -/
theorem split {a : κ} {n : ℕ} (ha : rank a = some n) :
    ∃ p q, l = p ++ a :: q ∧ p.length = n ∧ a ∉ p := by
  obtain ⟨p, q, rfl⟩ := append_of_mem (h.mem_iff.2 ⟨n, ha⟩)
  have hp : rank a = some p.length := (h p.length a).1 (by simp)
  refine ⟨p, q, rfl, mem_unique hp ha, fun hmem => ?_⟩
  exact (nodup_append.1 h.nodup).2.2 a hmem a (by simp) rfl

/-- The keys of a rank below `n` are the first `n`. -/
theorem take (n : ℕ) : Lists (fun k => (rank k).filter (· < n)) (l.take n) := by
  intro i k
  rw [getElem?_take, filter_eq_some_iff, ← h i k]
  by_cases hi : i < n
  · simp [hi]
  · simp [hi]

/-- A list of the same keys that goes up in rank is the same list. -/
theorem eq_of_pairwise (hmem : ∀ k, k ∈ l' ↔ ∃ i, rank k = some i)
    (hl' : l'.Pairwise fun a b => ∀ i ∈ rank a, ∀ j ∈ rank b, i < j) : l' = l := by
  have hl : l.Pairwise fun a b => ∀ i ∈ rank a, ∀ j ∈ rank b, i < j := by
    rw [pairwise_iff_getElem]
    intro m n hm hn hmn i hi j hj
    have him := ((h m _).1 (getElem?_eq_getElem hm)).symm.trans hi
    have hjn := ((h n _).1 (getElem?_eq_getElem hn)).symm.trans hj
    rw [← some.inj him, ← some.inj hjn]
    exact hmn
  have hnodup : l'.Nodup := by
    refine hl'.imp_of_mem fun {a b} ha hb hab heq => ?_
    obtain ⟨i, hi⟩ := (hmem a).1 ha
    exact absurd (hab i hi i (heq ▸ hi)) (lt_irrefl i)
  refine List.Perm.eq_of_pairwise (fun a b ha hb hab hba => ?_) hl' hl
    ((perm_ext_iff_of_nodup hnodup h.nodup).2 fun k => (hmem k).trans h.mem_iff.symm)
  obtain ⟨i, hi⟩ := (hmem a).1 ha
  obtain ⟨j, hj⟩ := h.mem_iff.1 hb
  exact absurd (hab i hi j hj) (not_lt.2 (hba j hj i hi).le)

end

end Lists

variable [DecidableEq κ]

/-! ## Places -/

variable {a b : κ} {l r : List κ}

/-- The key before `a`. -/
def predecessor (a : κ) (l : List κ) : Option κ := (l.takeWhile (· ≠ a)).getLast?

/-- The list with `a` right after `b`. -/
def insertAfter (b a : κ) : List κ → List κ
  | [] => []
  | x :: l => if x = b then x :: a :: l else x :: insertAfter b a l

/-- The list with `a` at the place that is named by the key before it. -/
def place : Option κ → κ → List κ → List κ
  | none, a, l => a :: l
  | some b, a, l => insertAfter b a l

theorem predecessor_append (h : a ∉ l) : predecessor a (l ++ a :: r) = l.getLast? := by
  have hl : ∀ x ∈ l, decide (x ≠ a) = true := fun x hx => decide_eq_true fun heq => h (heq ▸ hx)
  rw [predecessor, takeWhile_append_of_pos hl, takeWhile_cons_of_neg (by simp), append_nil]

theorem mem_of_predecessor (h : b ∈ predecessor a l) : b ∈ l :=
  (takeWhile_sublist _).subset (mem_of_getLast? h)

theorem predecessor_eq_take {rank : κ → Option ℕ} (h : Lists rank l) {n : ℕ}
    (ha : rank a = some n) : predecessor a l = (l.take n).getLast? := by
  obtain ⟨p, q, rfl, rfl, hnotin⟩ := h.split ha
  rw [predecessor_append hnotin, take_left']
  rfl

theorem insertAfter_append (h : b ∉ l) : insertAfter b a (l ++ b :: r) = l ++ b :: a :: r := by
  induction l with
  | nil => simp [insertAfter]
  | cons x l ih =>
    obtain ⟨hx, hl⟩ := not_or.1 (fun hmem => h (mem_cons.2 hmem))
    rw [cons_append, insertAfter, if_neg (Ne.symm hx), ih hl, cons_append]

omit [DecidableEq κ] in
theorem insertIdx_after (l r : List κ) :
    (l ++ b :: r).insertIdx (l.length + 1) a = l ++ b :: a :: r := by
  induction l with
  | nil => rfl
  | cons x l ih => rw [cons_append, length_cons, insertIdx_succ_cons, ih, cons_append]

theorem place_append (h : (l ++ r).Nodup) : place l.getLast? a (l ++ r) = l ++ a :: r := by
  rcases eq_nil_or_concat l with rfl | ⟨l, b, rfl⟩
  · rfl
  · rw [concat_eq_append] at h ⊢
    have hb : b ∉ l := by
      intro hmem
      exact (nodup_append.1 (nodup_append.1 h).1).2.2 b hmem b (by simp) rfl
    rw [getLast?_concat, place, append_assoc, singleton_append,
      insertAfter_append hb, append_assoc, singleton_append]

/-- A key that is taken out and put back after its predecessor stands where it stood. -/
theorem place_predecessor_erase (hl : l.Nodup) (ha : a ∈ l) :
    place (predecessor a l) a (l.erase a) = l := by
  obtain ⟨l, r, rfl⟩ := append_of_mem ha
  have hnotin : a ∉ l := by
    intro hmem
    exact (nodup_append.1 hl).2.2 a hmem a (by simp) rfl
  rw [predecessor_append hnotin, erase_append_right _ hnotin, erase_cons_head]
  exact place_append (hl.sublist (sublist_cons_self a r |>.append_left l))

/-! ## Parts of a list -/

variable {after : Option κ} {p : κ → Bool}

theorem insertAfter_of_not_mem (h : b ∉ l) : insertAfter b a l = l := by
  induction l with
  | nil => rfl
  | cons x l ih =>
    obtain ⟨hx, hl⟩ := not_or.1 (fun hmem => h (mem_cons.2 hmem))
    rw [insertAfter, if_neg (Ne.symm hx), ih hl]

section

variable (ha : a ∉ l) (hplaced : a ∈ place after a l)
include ha hplaced

/-- A key that has been placed stands after its anchor. -/
theorem place_split :
    ∃ l₁ l₂, l = l₁ ++ l₂ ∧ place after a l = l₁ ++ a :: l₂ ∧ l₁.getLast? = after := by
  cases after with
  | none => exact ⟨[], l, rfl, rfl, rfl⟩
  | some b =>
    have hb : b ∈ l := by
      by_contra hb
      exact ha (insertAfter_of_not_mem hb ▸ hplaced)
    obtain ⟨l, r, rfl, hnotin⟩ := eq_append_cons_of_mem hb
    refine ⟨l ++ [b], r, by simp, ?_, getLast?_concat⟩
    rw [place, insertAfter_append hnotin, append_assoc, singleton_append]

theorem predecessor_place : predecessor a (place after a l) = after := by
  obtain ⟨_, _, rfl, hlist, hlast⟩ := place_split ha hplaced
  rw [hlist, predecessor_append fun hmem => ha (mem_append_left _ hmem), hlast]

theorem place_perm : (place after a l).Perm (a :: l) := by
  obtain ⟨_, _, rfl, hlist, -⟩ := place_split ha hplaced
  rw [hlist]
  exact perm_middle

end

/-- What does not belong to the part can be placed anywhere. -/
theorem filter_place_of_not (ha : p a = false) : (place after a l).filter p = l.filter p := by
  cases after with
  | none => rw [place, filter_cons_of_neg (by simp [ha])]
  | some b =>
    rw [place]
    induction l with
    | nil => rfl
    | cons x l ih =>
      rw [insertAfter]
      split
      · rw [filter_cons, filter_cons_of_neg (by simp [ha]), ← filter_cons]
      · rw [filter_cons, ih, ← filter_cons]

/-- A part with the key and its anchor shows how the key is placed. -/
theorem filter_place (ha : p a) (hafter : ∀ b ∈ after, p b) :
    (place after a l).filter p = place after a (l.filter p) := by
  cases after with
  | none => rw [place, place, filter_cons_of_pos ha]
  | some b =>
    rw [place, place]
    induction l with
    | nil => rfl
    | cons x l ih =>
      rw [insertAfter]
      split
      · next hx =>
        rw [filter_cons_of_pos (hx ▸ hafter b rfl), filter_cons_of_pos ha,
          filter_cons_of_pos (hx ▸ hafter b rfl), insertAfter, if_pos hx]
      · next hx =>
        rw [filter_cons, ih, filter_cons]
        split
        · rw [insertAfter, if_neg hx]
        · rfl

/-- So does a part with the key and its predecessor. -/
theorem predecessor_filter (ha : p a) (hbefore : ∀ b ∈ predecessor a l, p b) :
    predecessor a (l.filter p) = predecessor a l := by
  have htake : (l.filter p).takeWhile (· ≠ a) = (l.takeWhile (· ≠ a)).filter p := by
    clear hbefore
    induction l with
    | nil => rfl
    | cons x l ih =>
      by_cases hx : x = a
      · subst hx
        rw [filter_cons_of_pos ha]
        simp
      · rw [takeWhile_cons_of_pos (by simpa using hx), filter_cons, filter_cons]
        split
        · rw [takeWhile_cons_of_pos (by simpa using hx), ih]
        · exact ih
  rw [predecessor] at hbefore
  rw [predecessor, predecessor, htake]
  rcases eq_nil_or_concat (l.takeWhile (· ≠ a)) with hnil | ⟨_, b, hconcat⟩
  · rw [hnil, filter_nil]
  · rw [concat_eq_append] at hconcat
    rw [hconcat, getLast?_concat] at hbefore
    rw [hconcat, filter_append, filter_cons_of_pos (hbefore b rfl), filter_nil,
      getLast?_concat, getLast?_concat]

theorem filter_erase (ha : p a) : (l.erase a).filter p = (l.filter p).erase a := by
  induction l with
  | nil => rfl
  | cons x l ih =>
    by_cases hx : x = a
    · subst hx
      rw [erase_cons_head, filter_cons_of_pos ha, erase_cons_head]
    · rw [erase_cons_tail (by simpa using hx), filter_cons, filter_cons, ih]
      split
      · rw [erase_cons_tail (by simpa using hx)]
      · rfl

omit [DecidableEq κ] in
/-- Of two keys of a list only one comes first. -/
theorem not_sublist_swap (hl : l.Nodup) {x y : κ} (h : [x, y].Sublist l) : ¬[y, x].Sublist l := by
  intro hswap
  induction l with
  | nil => cases h
  | cons z l ih =>
    obtain ⟨hz, hl⟩ := nodup_cons.1 hl
    rcases sublist_cons_iff.1 h with hin | ⟨r, hr, hrest⟩ <;>
      rcases sublist_cons_iff.1 hswap with hin' | ⟨r', hr', _⟩
    · exact ih hl hin hin'
    · cases hr'
      exact hz (hin.subset (mem_cons_of_mem x mem_cons_self))
    · cases hr
      exact hz (hin'.subset (mem_cons_of_mem y mem_cons_self))
    · cases hr
      cases hr'
      exact hz (hrest.subset mem_cons_self)

omit [DecidableEq κ] in
/-- Two lists of the same keys that order every two of them alike are the same. -/
theorem eq_of_pairs {l' : List κ} (hl' : l'.Nodup) (hperm : l.Perm l')
    (hpairs : ∀ x y, [x, y].Sublist l → [x, y].Sublist l') : l = l' :=
  List.Perm.eq_of_pairwise (fun _ _ _ _ hxy hyx => absurd hyx (not_sublist_swap hl' hxy))
    (List.pairwise_iff_forall_sublist.2 fun h => hpairs _ _ h)
    (List.pairwise_iff_forall_sublist.2 fun h => h) hperm

/-! ## Ranks -/

namespace Lists

variable {rank rank' : κ → Option ℕ} {l : List κ} {a : κ} {n : ℕ}

/-- The key `a` is taken out, and the later keys close up. -/
theorem erase (h : Lists rank l) (ha : rank a = some n)
    (hrank : ∀ k, rank' k = if k = a then none else
      (rank k).map fun j => if n < j then j - 1 else j) :
    Lists rank' (l.erase a) := by
  have hn : l[n]? = some a := (h n a).2 ha
  have hlt : n < l.length := (List.getElem?_eq_some_iff.1 hn).1
  have herase : l.erase a = l.eraseIdx n := by
    rw [erase_eq_eraseIdx_of_idxOf]
    exact (List.getElem?_eq_some_iff.1 hn).2 ▸ (h.nodup.idxOf_getElem n hlt)
  intro i k
  rw [herase, getElem?_eraseIdx, hrank]
  by_cases hk : k = a
  · subst hk
    rw [if_pos rfl]
    split
    · next hi => rw [h i k, ha]; simpa using hi.ne'
    · next hi => rw [h (i + 1) k, ha]; simp; omega
  · have hne : rank k ≠ some n := fun heq => hk (some.inj (((h n k).2 heq).symm.trans hn))
    rw [if_neg hk]
    cases hr : rank k with
    | none => split <;> simp [h _ k, hr]
    | some m =>
      have hmn : m ≠ n := fun heq => hne (heq ▸ hr)
      split <;> simp only [h _ k, hr, some.injEq, map_some] <;> split <;> omega

/-- The key `a` is put at `n`, and the keys from `n` on make room. -/
theorem insertIdx (h : Lists rank l) (ha : rank a = none) (hn : n ≤ l.length)
    (hrank : ∀ k, rank' k = if k = a then some n else
      (rank k).map fun j => if n ≤ j then j + 1 else j) :
    Lists rank' (l.insertIdx n a) := by
  intro i k
  rw [getElem?_insertIdx, hrank]
  by_cases hk : k = a
  · subst hk
    rw [if_pos rfl]
    split
    · next hi => rw [h i k, ha]; simpa using hi.ne'
    · split
      · next hi => subst hi; simp [hn]
      · next hi => rw [h (i - 1) k, ha]; simp; omega
  · rw [if_neg hk]
    cases hr : rank k with
    | none =>
      split
      · simp [h _ k, hr]
      · split
        · simp [Ne.symm hk]
        · simp [h _ k, hr]
    | some m =>
      split
      · simp only [h _ k, hr, some.injEq, map_some]
        split <;> omega
      · split
        · next hi =>
          have hroom : (if n ≤ m then m + 1 else m) ≠ n := by split <;> omega
          subst hi
          simp [hn, Ne.symm hk, hroom]
        · simp only [h _ k, hr, some.injEq, map_some]
          split <;> omega

/-- The key `a` is put at the place that is named by the key before it, and the later keys
    make room. -/
theorem place (h : Lists rank l) {after : Option κ} (ha : rank a = none)
    (hafter : after = none ∧ n = 0 ∨ ∃ b m, after = some b ∧ rank b = some m ∧ n = m + 1)
    (hrank : ∀ k, rank' k = if k = a then some n else
      (rank k).map fun j => if n ≤ j then j + 1 else j) :
    Lists rank' (place after a l) := by
  rcases hafter with ⟨rfl, rfl⟩ | ⟨b, m, rfl, hb, rfl⟩
  · have hlist := h.insertIdx ha (Nat.zero_le _) hrank
    rwa [insertIdx_zero] at hlist
  · obtain ⟨p, q, rfl, rfl, hnotin⟩ := h.split hb
    have hlist := h.insertIdx ha (by simp) hrank
    rwa [insertIdx_after, ← insertAfter_append hnotin] at hlist

end Lists

end Ranking
