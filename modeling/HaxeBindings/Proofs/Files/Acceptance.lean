import HaxeBindings.Proofs.Files.Tree

/-!
# Paths that accept a file

Writing a file makes the directories above it and then puts the file in its place.  Where
the directories are there already and the path leads to none of them, nothing is made
(`FileTree.Accepts`), and that stays so in every later tree once there is a file
(`FileTree.Accepts.grows`).

* `FileTree.makeDirectories_of_isDirectoryPath` --- directories that are there are not
  made again;
* `FileTree.putAll` --- a tree with files put in place one after the other.  Doing so a
  second time changes nothing (`FileTree.putAll_eq_self`), though a place may get several
  files on the way.
-/

namespace HaxeBindings

open Text

namespace FileTree

/-! ## Files put in place -/

/-- The tree with the given files put in place, one after the other. -/
def putAll (tree : FileTree) (files : List (Location × Content)) : FileTree :=
  files.foldl (fun t f => t.put f.1 f.2) tree

/-- The last file for each place, latest first. -/
def latest (files : List (Location × Content)) : List (Location × Content) :=
  (putAll {} files).files

variable {tree : FileTree} {files : List (Location × Content)}

/-- The files that are put in place stand in front of those at all other places. -/
theorem putAll_eq (tree : FileTree) (files : List (Location × Content)) :
    tree.putAll files = { tree with
      files := latest files ++ tree.files.filter fun f => f.1 ∉ files.map Prod.fst } := by
  induction files generalizing tree with
  | nil => simp [putAll, latest]
  | cons f files ih =>
    have hcons (t : FileTree) : t.putAll (f :: files) = (t.put f.1 f.2).putAll files := rfl
    rw [latest, hcons, hcons, ih, ih]
    simp only [put, List.filter_cons, List.filter_filter, List.filter_nil, List.map_cons,
      List.mem_cons, not_or, Bool.decide_and]
    split
    · simp [Bool.and_comm]
    · simp [Bool.and_comm]

theorem fst_mem_of_mem_putAll {f : Location × Content} (h : f ∈ (tree.putAll files).files) :
    f.1 ∈ files.map Prod.fst ∨ f ∈ tree.files := by
  induction files generalizing tree with
  | nil => exact .inr h
  | cons g files ih =>
    rcases @ih (tree.put g.1 g.2) h with hmem | hmem
    · exact .inl (List.mem_cons_of_mem _ hmem)
    · rcases List.mem_cons.mp hmem with rfl | hmem
      · exact .inl List.mem_cons_self
      · exact .inr (List.mem_filter.mp hmem).1

/-- Which files are there afterwards does not hang on the directories. -/
theorem files_putAll_congr {t : FileTree} (h : t.files = tree.files)
    (files : List (Location × Content)) : (t.putAll files).files = (tree.putAll files).files := by
  rw [putAll_eq, putAll_eq, h]

/-- **Files that are put in place a second time change nothing**, whatever directories have been made
in between. -/
theorem putAll_eq_self {t : FileTree} (h : t.files = (tree.putAll files).files) :
    t.putAll files = t := by
  have hlatest : (latest files).filter (fun f => f.1 ∉ files.map Prod.fst) = [] := by
    refine List.filter_eq_nil_iff.mpr fun f hf => ?_
    rcases fst_mem_of_mem_putAll hf with hmem | hmem
    · simpa using hmem
    · exact absurd hmem List.not_mem_nil
  rw [putAll_eq] at h
  have hfiles : latest files ++ t.files.filter (fun f => f.1 ∉ files.map Prod.fst) = t.files := by
    rw [h, List.filter_append, hlatest, List.nil_append, List.filter_filter]
    simp only [Bool.and_self]
  rw [putAll_eq, hfiles]

/-! ## Paths that accept a file -/

/-- At this path the text is written and nothing is made: its directory is there, it does not lead
to a directory itself, and the text is not refused. -/
structure Accepts (tree : FileTree) (p : Path) (t : Text) : Prop where
  parent : tree.isDirectoryPath p.parent = true
  located : tree.locate p = .ok p.place
  free : tree.isDirectory p.place = false
  willing : tree.refusal? (.write p.place t) = none

variable {p : Path} {text : Text}

theorem isDirectoryPath_iff :
    tree.isDirectoryPath p = true ↔ ∃ l, tree.locate p = .ok l ∧ tree.isDirectory l = true := by
  unfold isDirectoryPath
  cases tree.locate p with
  | error e => exact iff_of_false Bool.false_ne_true nofun
  | ok l => simp

theorem Grows.isDirectoryPath {t : FileTree} (h : tree.Grows t)
    (hp : tree.isDirectoryPath p = true) : t.isDirectoryPath p = true := by
  obtain ⟨l, hlocate, hdirectory⟩ := isDirectoryPath_iff.mp hp
  exact isDirectoryPath_iff.mpr ⟨l, h.locate hlocate, h.directories l hdirectory⟩

/-- A directory that is there is not made again. -/
theorem ensureDirectory_of_isDirectoryPath (h : tree.isDirectoryPath p = true) :
    tree.ensureDirectory p = .ok tree := by
  obtain ⟨l, hlocate, hdirectory⟩ := isDirectoryPath_iff.mp h
  have hmade : tree.makeDirectory p = .error .alreadyExists := by
    rw [makeDirectory, hlocate]
    simp only
    rw [if_pos (by rw [occupied, hdirectory, Bool.true_or])]
  rw [ensureDirectory, hmade]
  simp [h]

theorem isDirectoryPath_of_ensureDirectory {t : FileTree} (h : tree.ensureDirectory p = .ok t) :
    t.isDirectoryPath p = true := by
  obtain ⟨-, hgrows⟩ := ensureDirectory_grows h
  unfold ensureDirectory at h
  split at h
  · next made hmade =>
    obtain rfl := Except.ok.inj h
    unfold makeDirectory at hmade
    split at hmade
    · exact nomatch hmade
    · next l hlocate =>
      split at hmade
      · exact nomatch hmade
      · split at hmade
        · exact nomatch hmade
        · refine isDirectoryPath_iff.mpr ⟨l, hgrows.locate hlocate, ?_⟩
          rw [← Except.ok.inj hmade]
          simp [isDirectory]
  · split at h
    · next hthere =>
      rw [← Except.ok.inj h]
      exact hthere.2
    · exact nomatch h

/-- **Directories that are there are not made again.** -/
theorem makeDirectories_of_isDirectoryPath (h : tree.isDirectoryPath p = true) :
    tree.makeDirectories p = ⟨tree, none⟩ := by
  have hensure := ensureDirectory_of_isDirectoryPath h
  have hnames : p = ⟨p.anchor, p.names.reverse.reverse⟩ := by rw [List.reverse_reverse]
  rw [makeDirectories]
  cases hreverse : p.names.reverse with
  | nil =>
    rw [hreverse] at hnames
    rw [makeDirectoriesFrom, ← List.reverse_nil, ← hnames, hensure, attempt_ok]
  | cons name above =>
    rw [hreverse] at hnames
    rw [makeDirectoriesFrom, ← hnames, hensure]
    rfl

theorem attempt_error_eq_none {x : Except FileError FileTree}
    (h : (tree.attempt x).error = none) : x = .ok (tree.attempt x).tree := by
  cases x with
  | error e => exact nomatch h
  | ok t => rfl

/-- Directories that were made are there. -/
theorem isDirectoryPath_makeDirectories (h : (tree.makeDirectories p).error = none) :
    (tree.makeDirectories p).tree.isDirectoryPath p = true := by
  have hfrom : ∀ names, (tree.makeDirectoriesFrom p.anchor names).error = none →
      (tree.makeDirectoriesFrom p.anchor names).tree.isDirectoryPath ⟨p.anchor, names.reverse⟩ =
        true := by
    intro names hmade
    cases names with
    | nil => exact isDirectoryPath_of_ensureDirectory (attempt_error_eq_none hmade)
    | cons name above =>
      unfold makeDirectoriesFrom at hmade ⊢
      simp only at hmade ⊢
      split at hmade
      · split at hmade
        · next herror => exact absurd (herror.symm.trans hmade) (Option.some_ne_none _)
        · exact isDirectoryPath_of_ensureDirectory (attempt_error_eq_none hmade)
      · exact isDirectoryPath_of_ensureDirectory (attempt_error_eq_none hmade)
  have hp := hfrom p.names.reverse h
  rwa [List.reverse_reverse] at hp

/-- A path at which a file stands accepts one in every later tree. -/
theorem Accepts.grows {t : FileTree} (h : tree.Accepts p text)
    (hfile : (tree.file? p.place).isSome = true) (hgrows : tree.Grows t) : t.Accepts p text where
  parent := hgrows.isDirectoryPath h.parent
  located := hgrows.locate h.located
  free := hgrows.apart p.place hfile h.free
  willing := hgrows.refusals ▸ h.willing

/-- Files that are put in place are in the way of no path. -/
theorem Accepts.put (h : tree.Accepts p text) (l : Location) (c : Content) :
    (tree.put l c).Accepts p text where
  parent := (tree.grows_put l c).isDirectoryPath h.parent
  located := (tree.grows_put l c).locate h.located
  free := h.free
  willing := h.willing

end FileTree

end HaxeBindings
