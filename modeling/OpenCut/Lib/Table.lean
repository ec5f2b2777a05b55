import Mathlib.Data.List.AList

/-!
# Keyed tables

A table holds one row under each of finitely many keys (an `AList`). It is read
by key (`find?`), written by key (`set`, inserting the row or replacing the one
there; `erase`), rewritten row by row (`mapRows`) and scanned (`rows`, in no
particular order: a query that orders its result sorts it).
-/

/-- A table of rows `α` under distinct keys `κ`. -/
structure Table (κ α : Type*) where
  /-- The rows with their keys. -/
  alist : AList fun _ : κ => α

namespace Table

open List

variable {κ α : Type*}

instance : EmptyCollection (Table κ α) := ⟨⟨∅⟩⟩

variable (t : Table κ α)

/-- The rows of the table, with their keys. -/
def rows : List (κ × α) := t.alist.entries.map fun e => (e.1, e.2)

/-- Every row rewritten, under the same key. -/
def mapRows (f : κ → α → α) (t : Table κ α) : Table κ α :=
  ⟨⟨t.alist.entries.map (Sigma.map id f), by
    rw [List.NodupKeys, map₂_keys]
    exact t.alist.nodupKeys⟩⟩

theorem rows_nodup : (t.rows.map Prod.fst).Nodup := by
  have h : t.rows.map Prod.fst = t.alist.entries.keys := by
    simp [rows, keys, Function.comp_def]
  rw [h]
  exact t.alist.nodupKeys

variable [DecidableEq κ]

/-- The row under the key `k`. -/
def find? (k : κ) : Option α := t.alist.lookup k

/-- The table with the row `a` under `k`. -/
def set (k : κ) (a : α) : Table κ α := ⟨t.alist.insert k a⟩

/-- The table without the row under `k`. -/
def erase (k : κ) : Table κ α := ⟨t.alist.erase k⟩

@[simp]
theorem find?_empty (k : κ) : (∅ : Table κ α).find? k = none := AList.lookup_empty k

@[simp]
theorem find?_set_self (k : κ) (a : α) : (t.set k a).find? k = some a := AList.lookup_insert t.alist

variable {k : κ} {k' : κ}

@[simp]
theorem find?_set_ne (a : α) (h : k' ≠ k) : (t.set k a).find? k' = t.find? k' :=
  AList.lookup_insert_ne h

theorem find?_set (k k' : κ) (a : α) :
    (t.set k a).find? k' = if k' = k then some a else t.find? k' := by
  split
  · next h => rw [h, find?_set_self]
  · next h => rw [find?_set_ne t a h]

variable {a : α}

/-- What is found after an entry is stored is that entry or was there before. -/
theorem of_find?_set {t : Table κ α} {b : α} (h : (t.set k a).find? k' = some b) :
    k' = k ∧ a = b ∨ t.find? k' = some b := by
  rw [find?_set] at h
  split at h
  · next hk => exact .inl ⟨hk, Option.some.inj h⟩
  · exact .inr h

theorem find?_erase (k k' : κ) : (t.erase k).find? k' = if k' = k then none else t.find? k' := by
  split
  · next h => rw [h]; exact AList.lookup_erase k t.alist
  · next h => exact AList.lookup_erase_ne h

theorem of_find?_erase {t : Table κ α} (h : (t.erase k).find? k' = some a) :
    k' ≠ k ∧ t.find? k' = some a := by
  rw [find?_erase] at h
  split at h
  · cases h
  · next hk => exact ⟨hk, h⟩

@[simp]
theorem mem_rows {t : Table κ α} : (k, a) ∈ t.rows ↔ t.find? k = some a := by
  rw [find?, ← Option.mem_def, AList.mem_lookup_iff, rows, mem_map]
  constructor
  · rintro ⟨⟨k', a'⟩, he, h⟩
    obtain ⟨rfl, rfl⟩ := Prod.mk.inj h
    exact he
  · exact fun h => ⟨_, h, rfl⟩

@[simp]
theorem find?_mapRows (f : κ → α → α) (t : Table κ α) (k : κ) :
    (t.mapRows f).find? k = (t.find? k).map (f k) :=
  dlookup_map₂ k

variable {β : Type*} {f : β → κ} {g : β → α} {l : List β}

/-- What is found in a table filled from a list was there before or comes from the list. -/
theorem find?_foldl_set {t : Table κ α}
    (h : (l.foldl (fun t b => t.set (f b) (g b)) t).find? k = some a) :
    (∃ b ∈ l, f b = k ∧ g b = a) ∨ t.find? k = some a := by
  induction l generalizing t with
  | nil => exact .inr h
  | cons b l ih =>
    rcases ih h with ⟨c, hc, hfound⟩ | h
    · exact .inl ⟨c, mem_cons_of_mem b hc, hfound⟩
    · rcases of_find?_set h with ⟨hk, hb⟩ | h
      · exact .inl ⟨b, mem_cons_self, hk.symm, hb⟩
      · exact .inr h

theorem find?_foldl_set_of_not_mem {t : Table κ α} (hk : k ∉ l.map f) :
    (l.foldl (fun t b => t.set (f b) (g b)) t).find? k = t.find? k := by
  induction l generalizing t with
  | nil => rfl
  | cons b l ih =>
    rw [map_cons, mem_cons, not_or] at hk
    exact (ih hk.2).trans (find?_set_ne t _ hk.1)

/-- With keys of their own, all entries of the list are found. -/
theorem find?_foldl_set_of_mem {t : Table κ α} (hl : (l.map f).Nodup) {b : β} (hb : b ∈ l) :
    (l.foldl (fun t b => t.set (f b) (g b)) t).find? (f b) = some (g b) := by
  induction l generalizing t with
  | nil => exact absurd hb not_mem_nil
  | cons c l ih =>
    rw [map_cons, nodup_cons] at hl
    rcases mem_cons.1 hb with rfl | hb
    · exact (find?_foldl_set_of_not_mem hl.1).trans (find?_set_self t _ _)
    · exact ih hl.2 hb

/-- Tables that are read alike hold the same rows. -/
theorem rows_perm {t t' : Table κ α} (h : ∀ k, t.find? k = t'.find? k) : t.rows.Perm t'.rows :=
  (lookup_ext t.alist.nodupKeys t'.alist.nodupKeys fun k _ => by
    rw [← AList.lookup, ← AList.lookup, ← find?, ← find?, h k]).map _

end Table
