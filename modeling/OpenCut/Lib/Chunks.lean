import OpenCut.Lib.Outcome

/-!
# Streams that come in chunks

A reader keeps in a buffer what it has not used yet. Every chunk is appended to the buffer; then
the pieces that a separator ends are cut off, from the left, and used (`feed`). What is used, and
what is left in the end, does not depend on where the stream is cut into chunks (`foldlM_feed`).
-/

namespace Chunks

open List Outcome

variable {α ε σ : Type} [DecidableEq α]

/-- What comes before the first separator, and what comes after it. -/
def split? (sep : List α) : List α → Option (List α × List α)
  | [] => none
  | a :: l =>
    if sep <+: a :: l then some ([], (a :: l).drop sep.length)
    else (split? sep l).map fun (piece, rest) => (a :: piece, rest)

variable {sep l m piece rest : List α}

theorem eq_of_split? (h : split? sep l = some (piece, rest)) : l = piece ++ sep ++ rest := by
  induction l generalizing piece with
  | nil => cases h
  | cons a l ih =>
    rw [split?] at h
    split at h
    · next hsep =>
      obtain ⟨rfl, rfl⟩ := Prod.mk.inj (Option.some.inj h)
      obtain ⟨rest, heq⟩ := hsep
      rw [← heq, drop_left, nil_append]
    · obtain ⟨⟨_, _⟩, hsplit, heq⟩ := Option.map_eq_some_iff.1 h
      obtain ⟨rfl, rfl⟩ := Prod.mk.inj heq
      rw [ih hsplit, cons_append, cons_append]

/-- What is appended comes after the first separator. -/
theorem split?_append (h : split? sep l = some (piece, rest)) :
    split? sep (l ++ m) = some (piece, rest ++ m) := by
  induction l generalizing piece with
  | nil => cases h
  | cons a l ih =>
    rw [split?] at h
    rw [cons_append, split?]
    split at h
    · next hsep =>
      obtain ⟨rfl, rfl⟩ := Prod.mk.inj (Option.some.inj h)
      have hsep' : sep <+: a :: (l ++ m) := hsep.trans (prefix_append (a :: l) m)
      rw [if_pos hsep', ← cons_append, drop_append_of_le_length hsep.length_le]
    · next hsep =>
      obtain ⟨⟨_, _⟩, hsplit, heq⟩ := Option.map_eq_some_iff.1 h
      obtain ⟨rfl, rfl⟩ := Prod.mk.inj heq
      -- A separator that begins here would end before the one that was found.
      rw [if_neg fun hprefix => hsep ?_, ih hsplit, Option.map_some]
      refine prefix_of_prefix_length_le hprefix (prefix_append (a :: l) m) ?_
      simp only [eq_of_split? hsplit, length_cons, length_append]
      omega

variable (hsep : sep ≠ [])
include hsep

theorem length_of_split? (h : split? sep l = some (piece, rest)) : rest.length < l.length := by
  have := length_pos_iff.2 hsep
  simp only [eq_of_split? h, length_append]
  omega

/-- Cuts off the pieces that end with a separator. -/
def cut (l : List α) : List (List α) × List α :=
  match h : split? sep l with
  | none => ([], l)
  | some (piece, rest) =>
    have := length_of_split? hsep h
    (piece :: (cut rest).1, (cut rest).2)
termination_by l.length

theorem cut_of_none (h : split? sep l = none) : cut hsep l = ([], l) := by
  rw [cut]
  split
  · rfl
  · next hsome => cases h.symm.trans hsome

theorem cut_of_some (h : split? sep l = some (piece, rest)) :
    cut hsep l = (piece :: (cut hsep rest).1, (cut hsep rest).2) := by
  rw [cut]
  split
  · next hnone => cases h.symm.trans hnone
  · next hsome =>
    cases h.symm.trans hsome
    rfl

/-- Nothing is left to be cut off. -/
theorem split?_cut (l : List α) : split? sep (cut hsep l).2 = none := by
  fun_induction cut hsep l with
  | case1 l h => exact h
  | case2 l piece rest h _ ih => exact ih

/-- The pieces of the first part, and those of what it leaves with the second part. -/
theorem cut_append (l m : List α) : cut hsep (l ++ m) = ((cut hsep l).1 ++
    (cut hsep ((cut hsep l).2 ++ m)).1, (cut hsep ((cut hsep l).2 ++ m)).2) := by
  fun_induction cut hsep l with
  | case1 l h => rfl
  | case2 l piece rest h _ ih =>
    rw [cut_of_some hsep (split?_append h), ih]
    rfl

/-- Appends a chunk to the buffer, and uses the pieces that are cut off. -/
def feed (use : σ → List α → Except ε σ) (s : List α × σ) (chunk : List α) :
    Except ε (List α × σ) :=
  ((cut hsep (s.1 ++ chunk)).1.foldlM use s.2).map ((cut hsep (s.1 ++ chunk)).2, ·)

variable {use : σ → List α → Except ε σ} {s : List α × σ}

theorem feed_append (first second : List α) : feed hsep use s (first ++ second) =
      feed hsep use s first >>= fun t => feed hsep use t second := by
  simp only [feed, ← append_assoc, cut_append hsep (s.1 ++ first), foldlM_append]
  cases (cut hsep (s.1 ++ first)).1.foldlM use s.2 <;> rfl

/-- It does not matter where the stream is cut. -/
theorem foldlM_feed (hs : split? sep s.1 = none) (chunks : List (List α)) :
    chunks.foldlM (feed hsep use) s = feed hsep use s chunks.flatten := by
  induction chunks generalizing s with
  | nil =>
    rw [flatten_nil, feed, append_nil, cut_of_none hsep hs]
    rfl
  | cons chunk chunks ih =>
    rw [foldlM_cons, flatten_cons, feed_append hsep]
    cases hfed : feed hsep use s chunk with
    | error e => rfl
    | ok t =>
      obtain ⟨_, -, rfl⟩ := map_ok.1 hfed
      exact ih (split?_cut hsep _)

end Chunks
