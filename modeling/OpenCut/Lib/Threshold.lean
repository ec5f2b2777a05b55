import Mathlib.Data.Finset.Card
import Mathlib.Data.List.Perm.Subperm

/-!
# Counting signers

A text is signed by several signers, each known under an identity that has a key. The
signatures are gone through in order, and the identities that have a signature which their key
accepts are counted once each (`Threshold.signers`).

The count depends on the set of signatures only, and grows with it (`length_signers_mono`). It
is a count of identities: it counts keys exactly if the identities have keys of their own
(`keys_of_signers`). With two identities of one key, some signatures of as many identities as
one likes are of fewer keys (`exists_few_keys`).
-/

namespace Threshold

open List

variable {ι κ σ : Type*} [DecidableEq ι] (keys : ι → Option κ) (check : κ → σ → Bool)

/-- One more signature. -/
def count (valid : List ι) (signature : ι × σ) : List ι :=
  if signature.1 ∈ valid then valid
  else
    match keys signature.1 with
    | none => valid
    | some key => if check key signature.2 then valid ++ [signature.1] else valid

/-- The identities with a signature that their key accepts. -/
def signers (signatures : List (ι × σ)) : List ι := signatures.foldl (count keys check) []

variable {keys check}

/-- The identity has a signature that its key accepts. -/
def Signs (keys : ι → Option κ) (check : κ → σ → Bool) (signatures : List (ι × σ)) (i : ι) : Prop :=
  ∃ key s, keys i = some key ∧ (i, s) ∈ signatures ∧ check key s

variable {valid : List ι}

theorem mem_count {signature : ι × σ} {i : ι} :
    i ∈ count keys check valid signature ↔ i ∈ valid ∨ Signs keys check [signature] i := by
  obtain ⟨j, s⟩ := signature
  have hsigns : Signs keys check [(j, s)] i ↔ i = j ∧ ∃ key, keys j = some key ∧ check key s := by
    simp only [Signs, mem_singleton, Prod.mk.injEq]
    constructor
    · rintro ⟨key, s, hkey, ⟨rfl, rfl⟩, hcheck⟩
      exact ⟨rfl, key, hkey, hcheck⟩
    · rintro ⟨rfl, key, hkey, hcheck⟩
      exact ⟨key, s, hkey, ⟨rfl, rfl⟩, hcheck⟩
  rw [hsigns, count]
  split
  · next hmem =>
    refine ⟨.inl, fun h => ?_⟩
    rcases h with h | ⟨rfl, -⟩
    · exact h
    · exact hmem
  · split
    · next hnone => simp [show keys j = none from hnone]
    · next key hkey =>
      rw [show keys j = some key from hkey]
      split
      · next hcheck =>
        have hcheck : check key s = true := hcheck
        simp [hcheck]
      · next hcheck =>
        have hcheck : check key s = false := by simpa using hcheck
        simp [hcheck]

theorem nodup_count (h : valid.Nodup) (signature : ι × σ) :
    (count keys check valid signature).Nodup := by
  rw [count]
  split
  · exact h
  · next hmem =>
    split
    · exact h
    · split
      · exact nodup_append.2 ⟨h, nodup_singleton _, by
          rintro a ha b hb rfl
          exact hmem (mem_singleton.1 hb ▸ ha)⟩
      · exact h

variable {signatures : List (ι × σ)}

/-- An identity is counted exactly if it has a signature that its key accepts. -/
theorem mem_signers {i : ι} :
    i ∈ signers keys check signatures ↔ Signs keys check signatures i := by
  suffices hgen : ∀ (signatures : List (ι × σ)) (valid : List ι),
      i ∈ signatures.foldl (count keys check) valid ↔ i ∈ valid ∨ Signs keys check signatures i by
    simpa [signers] using hgen signatures []
  intro signatures
  induction signatures with
  | nil => simp [Signs]
  | cons signature signatures ih =>
    intro valid
    rw [foldl_cons, ih, mem_count, or_assoc]
    refine or_congr_right ⟨?_, ?_⟩
    · rintro (⟨key, s, hkey, hmem, hcheck⟩ | ⟨key, s, hkey, hmem, hcheck⟩)
      · exact ⟨key, s, hkey, mem_cons.2 (.inl (mem_singleton.1 hmem)), hcheck⟩
      · exact ⟨key, s, hkey, mem_cons_of_mem _ hmem, hcheck⟩
    · rintro ⟨key, s, hkey, hmem, hcheck⟩
      rcases mem_cons.1 hmem with heq | hmem
      · exact .inl ⟨key, s, hkey, mem_singleton.2 heq, hcheck⟩
      · exact .inr ⟨key, s, hkey, hmem, hcheck⟩

theorem nodup_signers (signatures : List (ι × σ)) : (signers keys check signatures).Nodup := by
  suffices hgen : ∀ (signatures : List (ι × σ)) (valid : List ι), valid.Nodup →
      (signatures.foldl (count keys check) valid).Nodup from hgen signatures [] nodup_nil
  intro signatures
  induction signatures with
  | nil => exact fun _ h => h
  | cons signature signatures ih => exact fun valid h => ih _ (nodup_count h signature)

/-- With more signatures, no fewer identities are counted. -/
theorem length_signers_mono {signatures' : List (ι × σ)} (h : signatures ⊆ signatures') :
    (signers keys check signatures).length ≤ (signers keys check signatures').length := by
  refine ((nodup_signers signatures).subperm fun i hi => ?_).length_le
  rw [mem_signers] at hi ⊢
  obtain ⟨key, s, hkey, hmem, hcheck⟩ := hi
  exact ⟨key, s, hkey, h hmem, hcheck⟩

/-- The key accepts one of the signatures. -/
def Accepts (check : κ → σ → Bool) (signatures : List (ι × σ)) (key : κ) : Prop :=
  ∃ signature ∈ signatures, check key signature.2

/-- If the identities have keys of their own, as many keys as identities are counted accept a
    signature. -/
theorem keys_of_signers (hkeys : ∀ i j key, keys i = some key → keys j = some key → i = j)
    (check : κ → σ → Bool) (signatures : List (ι × σ)) :
    ∃ found : List κ, found.Nodup ∧ found.length = (signers keys check signatures).length ∧
      ∀ key ∈ found, Accepts check signatures key ∧ ∃ i, keys i = some key := by
  refine ⟨(signers keys check signatures).filterMap keys, ?_, ?_, ?_⟩
  · exact (nodup_signers signatures).filterMap fun i j key hi hj => hkeys i j key hi hj
  · have hsome : ∀ i ∈ signers keys check signatures, (keys i).isSome := by
      intro i hi
      obtain ⟨key, _, hkey, -⟩ := mem_signers.1 hi
      rw [hkey]
      rfl
    generalize signers keys check signatures = valid at hsome
    induction valid with
    | nil => rfl
    | cons i valid ih =>
      obtain ⟨key, hkey⟩ := Option.isSome_iff_exists.1 (hsome i mem_cons_self)
      rw [filterMap_cons_some hkey, length_cons, length_cons,
        ih fun j hj => hsome j (mem_cons_of_mem _ hj)]
  · intro key hkey
    obtain ⟨i, hi, hi'⟩ := mem_filterMap.1 hkey
    obtain ⟨_, s, hkey', hmem, hcheck⟩ := mem_signers.1 hi
    obtain rfl := Option.mem_unique hi' hkey'
    exact ⟨⟨(i, s), hmem, hcheck⟩, i, hi'⟩

/-- One identity that is counted has one key that accepts a signature. -/
theorem key_of_signers (h : signers keys check signatures ≠ []) :
    ∃ key, Accepts check signatures key ∧ ∃ i, keys i = some key := by
  obtain ⟨i, hi⟩ := exists_mem_of_ne_nil _ h
  obtain ⟨key, s, hkey, hmem, hcheck⟩ := mem_signers.1 hi
  exact ⟨key, ⟨(i, s), hmem, hcheck⟩, i, hkey⟩

/-- If two identities have one key, signatures of any choice of identities that has both count
    as many identities and are accepted by fewer keys, when a key accepts only its own. -/
theorem exists_few_keys (hcomplete : ∀ key, ∃ s, check key s)
    (hexclusive : ∀ key key' s, check key s → check key' s → key = key') {chosen : List ι}
    (hchosen : chosen.Nodup) (hkeyed : ∀ i ∈ chosen, (keys i).isSome) {i j : ι} (hi : i ∈ chosen)
    (hj : j ∈ chosen) (hne : i ≠ j) (hsame : keys i = keys j) :
    ∃ signatures : List (ι × σ), (signers keys check signatures).length = chosen.length ∧
      ∀ found : List κ, found.Nodup → (∀ key ∈ found, Accepts check signatures key) →
        found.length < chosen.length := by
  classical
  choose sign hsign using hcomplete
  -- Every chosen identity signs with its own key.
  let signatures : List (ι × σ) := chosen.filterMap fun i => (keys i).map fun key => (i, sign key)
  have hmem : ∀ i s, (i, s) ∈ signatures ↔ i ∈ chosen ∧ ∃ key, keys i = some key ∧
      sign key = s := by
    intro i s
    simp only [signatures, mem_filterMap, Option.map_eq_some_iff, Prod.mk.injEq]
    constructor
    · rintro ⟨i, hi, key, hkey, rfl, rfl⟩
      exact ⟨hi, key, hkey, rfl⟩
    · rintro ⟨hi, key, hkey, rfl⟩
      exact ⟨i, hi, key, hkey, rfl, rfl⟩
  refine ⟨signatures, ?_, fun found hfound haccepts => ?_⟩
  · refine List.Perm.length_eq ((perm_ext_iff_of_nodup (nodup_signers _) hchosen).2 fun k => ?_)
    rw [mem_signers]
    constructor
    · rintro ⟨key, s, -, hin, -⟩
      exact ((hmem k s).1 hin).1
    · intro hk
      obtain ⟨key, hkey⟩ := Option.isSome_iff_exists.1 (hkeyed k hk)
      exact ⟨key, sign key, hkey, (hmem k _).2 ⟨hk, key, hkey, rfl⟩, hsign key⟩
  · -- Every key that accepts is the key of a chosen identity other than `j`.
    have hsub : found ⊆ (chosen.erase j).filterMap keys := by
      intro key hkey
      obtain ⟨⟨k, s⟩, hin, hcheck⟩ := haccepts key hkey
      obtain ⟨hk, key', hkey', rfl⟩ := (hmem k s).1 hin
      obtain rfl := hexclusive key key' _ hcheck (hsign key')
      by_cases hkj : k = j
      · subst hkj
        exact mem_filterMap.2 ⟨i, (mem_erase_of_ne hne).2 hi, hsame.trans hkey'⟩
      · exact mem_filterMap.2 ⟨k, (mem_erase_of_ne hkj).2 hk, hkey'⟩
    calc found.length ≤ ((chosen.erase j).filterMap keys).length := (hfound.subperm hsub).length_le
      _ ≤ (chosen.erase j).length := length_filterMap_le _ _
      _ < chosen.length := by
          rw [length_erase_of_mem hj]
          exact Nat.sub_lt (length_pos_of_mem hj) Nat.one_pos

end Threshold
