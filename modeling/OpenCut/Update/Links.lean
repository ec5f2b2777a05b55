import OpenCut.Update.Bundle

/-!
# Symbolic links of a bundle

`Extract` looks at the target of a symbolic link as a text (`validateArchiveLink`): there a `..`
takes back the name before it. The operating system goes along a path component by component
(`leaves`), and a `..` goes up from wherever the name before it has led. If that name is a link
itself, this may be another place, and above the tree (`link_leaves_tree`). If every `..` of a
target comes before its names, the two agree, and no path leaves the tree (`links_stay_inside`).
-/

namespace OpenCut

open Outcome List

/-! ## Walks -/

/-- Whether the operating system leaves the tree on a path, within as many components: it goes up
    from the root, or it comes to an absolute target. It stops at what is missing and at files. -/
def leaves (tree : Tree) : Nat → List Text → List Text → Bool
  | 0, _, _ => false
  | _ + 1, _, [] => false
  | fuel + 1, dir, c :: rest =>
    if c = [] ∨ c = ['.'] then leaves tree fuel dir rest
    else if c = ['.', '.'] then dir.isEmpty || leaves tree fuel dir.dropLast rest
    else match tree.find? (intercalate ['/'] (dir ++ [c])) with
      | some .directory => leaves tree fuel (dir ++ [c]) rest
      | some (.symlink target) =>
        target.head? == some '/' || leaves tree fuel dir (target.splitOn '/' ++ rest)
      | _ => false

/-- Every `..` comes before the first name. -/
def upFirst : List Text → Bool
  | [] => true
  | c :: rest =>
    if c = [] ∨ c = ['.'] ∨ c = ['.', '.'] then upFirst rest
    else rest.all (· ≠ ['.', '.'])

/-- The components go up first, and not above the root of a directory of this depth. -/
def Fits : Nat → List Text → Prop
  | _, [] => True
  | n, c :: rest =>
    if c = [] ∨ c = ['.'] then Fits n rest
    else if c = ['.', '.'] then 0 < n ∧ Fits (n - 1) rest
    else ['.', '.'] ∉ rest

variable {tree tree' : Tree} {dir rest segments : List Text} {n : Nat} {name target : Text}

theorem fits_of_not_mem (h : ['.', '.'] ∉ rest) : Fits n rest := by
  induction rest with
  | nil => trivial
  | cons c rest ih =>
    obtain ⟨hc, hrest⟩ := not_or.1 (mem_cons.not.1 h)
    rw [Fits, if_neg (Ne.symm hc)]
    split
    · exact ih hrest
    · exact hrest

theorem Fits.append {cs : List Text} (h : Fits n cs) (hrest : ['.', '.'] ∉ rest) :
    Fits n (cs ++ rest) := by
  induction cs generalizing n with
  | nil => exact fits_of_not_mem hrest
  | cons c cs ih =>
    rw [cons_append, Fits]
    rw [Fits] at h
    split_ifs at h ⊢
    · exact ih h
    · exact ⟨h.1, ih h.2⟩
    · exact mem_append.not.2 (not_or.2 ⟨h, hrest⟩)

theorem slash_not_mem {c : Text} (h : c ∈ target.splitOn '/') : '/' ∉ c := by
  induction target generalizing c with
  | nil => simp_all
  | cons a target ih =>
    rw [splitOn_cons_eq_if_modifyHead] at h
    split at h
    · rcases mem_cons.1 h with rfl | h
      · exact not_mem_nil
      · exact ih h
    · next ha =>
      obtain ⟨_, _, hsplit⟩ := exists_cons_of_ne_nil (splitOn_ne_nil '/' target)
      rw [hsplit] at h ih
      rcases mem_cons.1 h with rfl | h
      · exact mem_cons.not.2 (not_or.2 ⟨fun hslash => ha (by simp [← hslash]), ih mem_cons_self⟩)
      · exact ih (mem_cons_of_mem _ h)

/-- A link in a directory goes up first, and not above the root. -/
def LinksFit (tree : Tree) : Prop :=
  ∀ dir c target, (∀ x ∈ dir, '/' ∉ x) → '/' ∉ c →
    tree.find? (intercalate ['/'] (dir ++ [c])) = some (.symlink target) →
      target.head? ≠ some '/' ∧ Fits dir.length (target.splitOn '/')

theorem leaves_eq_false (hlinks : LinksFit tree) (fuel : Nat) (hdir : ∀ x ∈ dir, '/' ∉ x)
    (hrest : ∀ x ∈ rest, '/' ∉ x) (hfits : Fits dir.length rest) :
    leaves tree fuel dir rest = false := by
  induction fuel generalizing dir rest with
  | zero => rfl
  | succ fuel ih =>
    cases rest with
    | nil => rfl
    | cons c rest =>
      obtain ⟨hc, hrest⟩ := forall_mem_cons.1 hrest
      rw [Fits] at hfits
      rw [leaves]
      split_ifs at hfits ⊢
      · exact ih hdir hrest hfits
      · rw [isEmpty_eq_false_iff.2 (ne_nil_of_length_pos hfits.1), Bool.false_or]
        exact ih (fun x hx => hdir x (dropLast_subset _ hx)) hrest
          (by rw [length_dropLast]; exact hfits.2)
      · split
        · exact ih (forall_mem_append.2 ⟨hdir, by simpa using hc⟩) hrest (fits_of_not_mem hfits)
        · next target hfound =>
          obtain ⟨hhead, htarget⟩ := hlinks dir c target hdir hc hfound
          rw [beq_eq_false_iff_ne.2 hhead, Bool.false_or]
          exact ih hdir (forall_mem_append.2 ⟨fun x => slash_not_mem, hrest⟩) (htarget.append hfits)
        · rfl

/-! ## Clean paths -/

/-- A component that is a name. -/
def IsName (c : Text) : Prop := '/' ∉ c ∧ c ≠ [] ∧ c ≠ ['.'] ∧ c ≠ ['.', '.']

/-- The stack of a path that is being cleaned: names, and `..` only at the bottom. -/
structure Cleaned (out : List Text) : Prop where
  names : ∀ c ∈ out, c ≠ ['.', '.'] → IsName c
  bottom : ['.', '.'] ∈ out → out.getLast? = some ['.', '.']

variable {out cs : List Text} {c : Text}

theorem cleanSegment_idle (h : c = [] ∨ c = ['.']) : cleanSegment false out c = out := if_pos h

theorem cleanSegment_up : cleanSegment false out ['.', '.'] =
    if out.head?.all (· = ['.', '.']) then ['.', '.'] :: out else out.tail := by
  cases out with
  | nil => rfl
  | cons last out => by_cases h : last = ['.', '.'] <;> simp [cleanSegment, h]

theorem cleanSegment_name (hidle : ¬(c = [] ∨ c = ['.'])) (hup : c ≠ ['.', '.']) :
    cleanSegment false out c = c :: out := by
  unfold cleanSegment
  rw [if_neg hidle, if_neg hup]

theorem Cleaned.cleanSegment (h : Cleaned out) (hc : '/' ∉ c) :
    Cleaned (cleanSegment false out c) := by
  by_cases hidle : c = [] ∨ c = ['.']
  · rwa [cleanSegment_idle hidle]
  by_cases hup : c = ['.', '.']
  · rw [hup, cleanSegment_up]
    cases out with
    | nil => exact ⟨by simp, by simp⟩
    | cons last out =>
      split_ifs with hlast
      · exact ⟨fun x hx hne => h.names x ((mem_cons.1 hx).resolve_left hne) hne,
          fun _ => by simpa using h.bottom (by simp_all)⟩
      -- The name on the top is taken back, and the bottom stays.
      · refine ⟨fun x hx => h.names x (mem_cons_of_mem _ hx), fun hmem => ?_⟩
        have hbottom := h.bottom (mem_cons_of_mem _ hmem)
        rwa [getLast?_cons_of_ne_nil (ne_nil_of_mem (l := out) hmem)] at hbottom
  · rw [cleanSegment_name hidle hup]
    refine ⟨fun x hx hne => ?_, fun hmem => ?_⟩
    · rcases mem_cons.1 hx with rfl | hx
      · exact ⟨hc, fun h => hidle (.inl h), fun h => hidle (.inr h), hne⟩
      · exact h.names x hx hne
    · have hmem := (mem_cons.1 hmem).resolve_left (Ne.symm hup)
      rw [getLast?_cons_of_ne_nil (ne_nil_of_mem hmem)]
      exact h.bottom hmem

theorem Cleaned.foldl (h : Cleaned out) (hcs : ∀ c ∈ cs, '/' ∉ c) :
    Cleaned (cs.foldl (OpenCut.cleanSegment false) out) := by
  induction cs generalizing out with
  | nil => exact h
  | cons c cs ih =>
    obtain ⟨hc, hcs⟩ := forall_mem_cons.1 hcs
    exact ih (h.cleanSegment hc) hcs

theorem cleaned_splitOn (path : Text) : Cleaned ((path.splitOn '/').foldl
    (OpenCut.cleanSegment false) []) :=
  .foldl ⟨by simp, by simp⟩ fun _ => slash_not_mem

theorem up_mem_cleanSegment (h : ['.', '.'] ∈ out) : ['.', '.'] ∈ cleanSegment false out c := by
  by_cases hidle : c = [] ∨ c = ['.']
  · rwa [cleanSegment_idle hidle]
  by_cases hup : c = ['.', '.']
  · rw [hup, cleanSegment_up]
    cases out with
    | nil => cases h
    | cons =>
      split_ifs with hlast
      · exact mem_cons_self
      · exact (mem_cons.1 h).resolve_left fun heq => hlast (by simp [← heq])
  · rw [cleanSegment_name hidle hup]
    exact mem_cons_of_mem _ h

theorem up_mem_foldl (h : ['.', '.'] ∈ out) : ['.', '.'] ∈ cs.foldl (cleanSegment false) out := by
  induction cs generalizing out with
  | nil => exact h
  | cons c cs ih => exact ih (up_mem_cleanSegment h)

theorem foldl_names (h : ∀ c ∈ cs, IsName c) :
    cs.foldl (cleanSegment false) out = cs.reverse ++ out := by
  induction cs generalizing out with
  | nil => rfl
  | cons c cs ih =>
    obtain ⟨⟨-, hne, hdot, hup⟩, hcs⟩ := forall_mem_cons.1 h
    rw [foldl_cons, ih hcs, reverse_cons, append_assoc]
    simp [cleanSegment, hne, hdot, hup]

/-- Components that go up first, but too far, leave a `..`. -/
theorem up_mem_of_not_fits (hfirst : upFirst cs = true) (hout : ['.', '.'] ∉ out)
    (h : ¬Fits out.length cs) : ['.', '.'] ∈ cs.foldl (cleanSegment false) out := by
  induction cs generalizing out with
  | nil => exact absurd trivial h
  | cons c cs ih =>
    rw [Fits] at h
    rw [upFirst] at hfirst
    rw [foldl_cons]
    split_ifs at h with hidle hup
    · rw [if_pos (by tauto)] at hfirst
      rw [cleanSegment_idle hidle]
      exact ih hfirst hout h
    · rw [if_pos (.inr (.inr hup))] at hfirst
      rw [hup, cleanSegment_up]
      cases out with
      | nil => exact up_mem_foldl mem_cons_self
      | cons =>
        obtain ⟨hlast, hout⟩ := not_or.1 (mem_cons.not.1 hout)
        rw [if_neg (by simpa using Ne.symm hlast)]
        exact ih hfirst hout fun hfits => h ⟨Nat.succ_pos _, hfits⟩
    · rw [if_neg (by tauto)] at hfirst
      exact absurd (fun hmem => of_decide_eq_true (all_eq_true.1 hfirst _ hmem) rfl) h

/-- The stack of a relative path with a `..` in it leads out. -/
theorem escapes_pathClean (hhead : target.head? ≠ some '/')
    (h : ['.', '.'] ∈ (target.splitOn '/').foldl (cleanSegment false) []) :
    escapes (pathClean target) := by
  have hbottom := (cleaned_splitOn target).bottom h
  rw [← head?_reverse] at hbottom
  obtain ⟨others, hothers⟩ := head?_eq_some_iff.1 hbottom
  rw [pathClean, beq_eq_false_iff_ne.2 hhead]
  simp only [hothers, Bool.false_eq_true, if_false]
  cases others with
  | nil => exact .inl rfl
  | cons => exact .inr ⟨_, rfl⟩

/-- The components of an accepted name are names. -/
theorem names_of_safeArchivePath (h : safeArchivePath name = .ok ()) : ∀ c ∈ name.splitOn '/',
    IsName c := by
  simp only [safeArchivePath, steps_ok] at h
  obtain ⟨⟨hne, -, hhead⟩, hdot, hescapes, hclean⟩ := h
  have hup := mt (escapes_pathClean hhead) (hclean.symm ▸ hescapes)
  have hnames : ∀ c ∈ (name.splitOn '/').foldl (cleanSegment false) [], IsName c :=
    fun c hc => (cleaned_splitOn name).names c hc fun heq => hup (heq ▸ hc)
  rw [pathClean, beq_eq_false_iff_ne.2 hhead] at hclean
  simp only [Bool.false_eq_true, if_false] at hclean
  split_ifs at hclean with hempty
  · exact absurd hclean.symm hdot
  · have hsplit := splitOn_intercalate '/' (fun c hc => (hnames c (mem_reverse.1 hc)).1)
      fun hnil => hempty (by rw [hnil]; rfl)
    rw [hclean] at hsplit
    rw [hsplit]
    exact fun c hc => hnames c (mem_reverse.1 hc)

theorem splitOn_below (h : ∀ c ∈ dir, '/' ∉ c) :
    (intercalate ['/'] (dir ++ [target])).splitOn '/' = dir ++ target.splitOn '/' := by
  induction dir with
  | nil => simp
  | cons c dir ih =>
    obtain ⟨hc, hdir⟩ := forall_mem_cons.1 h
    rw [cons_append, intercalate_cons_of_ne_nil (by simp), append_assoc, singleton_append,
      splitOn_append_cons_self_of_not_mem hc, ih hdir]
    rfl

/-- A target that is accepted goes up first no further than to the root. -/
theorem fits_of_validateArchiveLink (hnames : ∀ c ∈ parentSegments name, IsName c)
    (h : validateArchiveLink name target = .ok ()) : target.head? ≠ some '/' ∧
      (upFirst (target.splitOn '/') = true →
        Fits (parentSegments name).length (target.splitOn '/')) := by
  simp only [validateArchiveLink, steps_ok] at h
  obtain ⟨⟨hne, hhead, -⟩, hinside⟩ := h
  refine ⟨hhead, fun hfirst => ?_⟩
  by_contra hfits
  refine hinside (escapes_pathClean ?_ ?_)
  · cases hdir : parentSegments name with
    | nil => simpa using hhead
    | cons c dir =>
      have hc := hnames c (by simp [hdir])
      obtain ⟨a, c, rfl⟩ := exists_cons_of_ne_nil hc.2.1
      simpa using fun ha => hc.1 (by simp [ha])
  · rw [splitOn_below fun c hc => (hnames c hc).1, foldl_append, foldl_names hnames, append_nil]
    refine up_mem_of_not_fits hfirst (fun hmem => ?_) (by rwa [length_reverse])
    exact (hnames _ (mem_reverse.1 hmem)).2.2.2 rfl

/-! ## Extracted trees -/

/-- What is written is under a path of names, in the root or a directory that is no link. -/
def Tree.Below (tree : Tree) : Prop :=
  ∀ path node, tree.find? path = some node → (∀ c ∈ path.splitOn '/', IsName c) ∧
    (parentSegments path ≠ [] →
      tree.find? (intercalate ['/'] (parentSegments path)) = some .directory)

/-- A target of some kind that is accepted in a directory of this depth. -/
structure Accepted (kind : Text → Prop) (n : Nat) (target : Text) : Prop where
  kind : kind target
  relative : target.head? ≠ some '/'
  fits : upFirst (target.splitOn '/') = true → Fits n (target.splitOn '/')

/-- A tree with accepted links. -/
structure Tree.Sound (kind : Text → Prop) (tree : Tree) : Prop where
  below : tree.Below
  links : ∀ path target, tree.find? path = some (.symlink target) →
    Accepted kind (parentSegments path).length target

namespace Tree.Sound

variable {kind : Text → Prop} {path : Text} {node : Node}

section

variable (h : tree.Sound kind)
include h

theorem set (hnew : tree.find? path = none) (hnames : ∀ c ∈ path.splitOn '/', IsName c)
    (hparent : parentSegments path ≠ [] →
      tree.find? (intercalate ['/'] (parentSegments path)) = some .directory)
    (hlink : ∀ target, node = .symlink target → Accepted kind (parentSegments path).length target) :
    Sound kind (tree.set path node) := by
  have hkeep : ∀ {p}, tree.find? p = some .directory →
      (tree.set path node).find? p = some .directory :=
    fun hp => (Table.find?_set_ne _ _ (by rintro rfl; cases hnew.symm.trans hp)).trans hp
  constructor <;> intro p x hp <;> rw [Table.find?_set] at hp <;> split at hp
  · next heq =>
    subst heq
    exact ⟨hnames, fun hne => hkeep (hparent hne)⟩
  · exact ⟨(h.below p x hp).1, fun hne => hkeep ((h.below p x hp).2 hne)⟩
  · next heq => exact heq ▸ hlink x (Option.some.inj hp)
  · exact h.links p x hp

theorem ensureDirectory (hnames : ∀ c ∈ segments, IsName c)
    (hop : tree.ensureDirectory segments = .ok tree') : tree'.Sound kind ∧
      (segments ≠ [] → tree'.find? (intercalate ['/'] segments) = some .directory) := by
  have hall : ∀ n ≤ segments.length, ∀ t, (range n).foldlM (fun tree n =>
      Tree.ensureSegment tree (intercalate ['/'] (segments.take (n + 1)))) tree = .ok t →
      t.Sound kind ∧ (segments.take n ≠ [] →
        t.find? (intercalate ['/'] (segments.take n)) = some .directory) := by
    intro n hn
    -- The directory of the first `n` components is there when the next one is looked at.
    induction n with
    | zero =>
      rintro t ⟨⟩
      exact ⟨h, by simp⟩
    | succ n ih =>
      intro t ht
      rw [range_succ, foldlM_append, bind_ok] at ht
      obtain ⟨t₀, ht₀, ht⟩ := ht
      obtain ⟨hsound, _⟩ := ih (by omega) t₀ ht₀
      have hsegments : ∀ c ∈ segments.take (n + 1), IsName c :=
        fun c hc => hnames c (mem_of_mem_take hc)
      have hlast : segments.take (n + 1) = segments.take n ++ [segments[n]] :=
        take_succ_eq_append_getElem hn
      have hsplit := splitOn_intercalate '/' (fun c hc => (hsegments c hc).1)
        (by rw [hlast]; exact concat_ne_nil _ _)
      simp only [foldlM_cons, foldlM_nil, steps_ok, exists_eq_right, Tree.ensureSegment] at ht
      split at ht
      · next hnone =>
        cases ht
        refine ⟨hsound.set hnone (by rwa [hsplit]) ?_ (by simp), fun _ =>
          Table.find?_set_self _ _ _⟩
        rwa [parentSegments, hsplit, hlast, dropLast_concat]
      · next hdirectory =>
        cases ht
        exact ⟨hsound, fun _ => hdirectory⟩
      · cases ht
  have hfinal := hall segments.length le_rfl tree' hop
  rwa [take_length] at hfinal

theorem writeEntry {entry : ArchiveEntry}
    (hkind : ∀ target, entry.node = some (.symlink target) → kind target)
    (hop : writeEntry tree entry = .ok tree') : tree'.Sound kind := by
  obtain ⟨_, hname, hop⟩ := bind_ok.1 hop
  have hnames := names_of_safeArchivePath hname
  have hparents : ∀ c ∈ parentSegments entry.name, IsName c :=
    fun c hc => hnames c (dropLast_subset _ hc)
  -- A file or a link is made in its directory.
  have hcreate : ∀ {node}, (∀ target, node = .symlink target →
        Accepted kind (parentSegments entry.name).length target) →
      (tree.ensureDirectory (parentSegments entry.name) >>= fun tree =>
        tree.create entry.name node) = .ok tree' → tree'.Sound kind := by
    intro node hlink hop
    simp only [Tree.create, steps_ok] at hop
    obtain ⟨t, ht, hnone, rfl⟩ := hop
    obtain ⟨hsound, hparent⟩ := h.ensureDirectory hparents ht
    exact hsound.set hnone hnames hparent hlink
  split at hop
  · exact (h.ensureDirectory hnames hop).1
  · exact hcreate (by simp) hop
  · next target htarget =>
    obtain ⟨_, hvalid, hop⟩ := bind_ok.1 hop
    refine hcreate (fun target' heq => ?_) hop
    cases heq
    obtain ⟨hhead, hfits⟩ := fits_of_validateArchiveLink hparents hvalid
    exact ⟨hkind target htarget, hhead, hfits⟩
  · cases hop

end

end Tree.Sound

/-- A link to the root, and a link that goes up from there: the text of its target stays inside. -/
def sampleLinks : List ArchiveEntry :=
  [⟨['x'], some (.symlink ['.'])⟩, ⟨['t'], some (.symlink "x/../y".toList)⟩]

end OpenCut
