import Mathlib.Data.List.Sort

/-!
# Lists with distinct keys

A list in which every entry has a key of its own: it is searched by key (`find?_key`), and
sorting it by key forgets the order it had (`insertionSort_key`).
-/

namespace Keyed

open List

variable {α κ : Type*} {f : α → κ} {l l' : List α}

theorem find?_key [DecidableEq κ] (hl : (l.map f).Nodup) {k : κ} {a : α} :
    l.find? (fun a => f a = k) = some a ↔ a ∈ l ∧ f a = k := by
  constructor
  · intro h
    exact ⟨mem_of_find?_eq_some h, by simpa using find?_some h⟩
  · rintro ⟨ha, rfl⟩
    obtain ⟨b, hb⟩ : ∃ b, l.find? (fun b => f b = f a) = some b :=
      Option.isSome_iff_exists.1 (find?_isSome.2 ⟨a, ha, by simp⟩)
    have hkey : f b = f a := by simpa using find?_some hb
    rw [hb, inj_on_of_nodup_map hl (mem_of_find?_eq_some hb) ha hkey]

theorem insertionSort_key [LinearOrder κ] (hperm : l.Perm l') (hl : (l.map f).Nodup) :
    (l.insertionSort fun a b => f a ≤ f b) = l'.insertionSort fun a b => f a ≤ f b := by
  have : Std.Total fun a b : α => f a ≤ f b := ⟨fun a b => le_total (f a) (f b)⟩
  have : IsTrans α fun a b => f a ≤ f b := ⟨fun _ _ _ => le_trans⟩
  refine List.Perm.eq_of_pairwise ?_ (pairwise_insertionSort _ l) (pairwise_insertionSort _ l') ?_
  · intro a b ha hb hab hba
    have hb' : b ∈ l := hperm.mem_iff.2 ((mem_insertionSort _).1 hb)
    exact inj_on_of_nodup_map hl ((mem_insertionSort _).1 ha) hb' (le_antisymm hab hba)
  · exact (perm_insertionSort _ l).trans (hperm.trans (perm_insertionSort _ l').symm)

end Keyed
