import HaxeBindings.Proofs.Files.Acceptance
import Mathlib.Data.List.Induction

/-!
# Directories that can be made

Making a directory fails when a file stands where it, or a directory above it, has to be, or when it
is refused.  Otherwise (`FileTree.IsClear`) it succeeds, whatever is missing, and the only directories
that are added are the one that was asked for and those above it.

* `FileTree.locate_of_isClear` --- a walk through a clear path ends at its place, or where a
  directory is missing;
* `FileTree.makeDirectories_of_isClear` --- the directories of a clear path are made.
-/

namespace HaxeBindings

open Text

namespace Path

/-- The place a last name leads to from the place of the names in front of it. -/
theorem place_concat (a : Anchor) (names : List Text) (name : Text) :
    place ⟨a, names ++ [name]⟩ = (place ⟨a, names⟩).child name := by
  rw [place, place, List.foldl_append]
  rfl

end Path

namespace FileTree

variable {tree : FileTree} {p : Path} {a : Anchor} {names : List Text} {name : Text}

/-- No file is in the way of making the directory that the path names, and nothing is refused. -/
structure IsClear (tree : FileTree) (p : Path) : Prop where
  plain : ∀ name ∈ p.names, Char.ofNat 0 ∉ name
  free : ∀ names, names <+: p.names → tree.file? (Path.place ⟨p.anchor, names⟩) = none
  willing : ∀ access, tree.refusal? access = none

theorem IsClear.above (h : tree.IsClear ⟨a, names ++ [name]⟩) : tree.IsClear ⟨a, names⟩ where
  plain n hn := h.plain n (List.mem_append_left _ hn)
  free ns hns := h.free ns (hns.trans (List.prefix_append _ _))
  willing := h.willing

theorem IsClear.barrier?_eq_none (h : tree.IsClear p) : tree.barrier? p = none :=
  barrier?_eq_none_iff.mpr ⟨h.plain, h.willing _⟩

theorem IsClear.free_self (h : tree.IsClear p) : tree.file? p.place = none :=
  h.free p.names (List.prefix_refl _)

/-! ## Walking where there are no files -/

theorem walk_of_free {front rest : List Text}
    (h : ∀ names, names <+: front ++ rest → tree.file? (Path.place ⟨a, names⟩) = none) :
    tree.walk (Path.place ⟨a, front⟩) rest = .ok (Path.place ⟨a, front ++ rest⟩) ∨
      tree.walk (Path.place ⟨a, front⟩) rest = .error .notFound := by
  induction rest generalizing front with
  | nil =>
    rw [List.append_nil]
    exact .inl rfl
  | cons name rest ih =>
    rw [List.append_cons] at h ⊢
    have hname : tree.file? (Path.place ⟨a, front ++ [name]⟩) = none := h _ (List.prefix_append _ _)
    rw [walk, ← Path.place_concat]
    split
    · exact ih h
    · rw [hname]
      exact .inr rfl

/-- **A clear path leads to its place, or a directory on the way is missing.** -/
theorem locate_of_isClear (h : tree.IsClear p) :
    tree.locate p = .ok p.place ∨ tree.locate p = .error .notFound := by
  obtain ⟨a, names⟩ := p
  rw [locate, h.barrier?_eq_none]
  rcases List.eq_nil_or_concat names with rfl | ⟨init, last, rfl⟩
  · exact .inl rfl
  · rw [List.concat_eq_append, Path.place_concat] at *
    rw [List.getLast?_concat, List.dropLast_concat]
    have hfree : ∀ names, names <+: [] ++ init → tree.file? (Path.place ⟨a, names⟩) = none :=
      h.above.free
    rcases walk_of_free hfree with hwalk | hwalk
    · refine .inl ?_
      rw [List.nil_append] at hwalk
      exact congrArg (Except.map fun l => Location.child l last) hwalk
    · exact .inr (congrArg (Except.map fun l => Location.child l last) hwalk)

theorem walk_concat {l m : Location} (h : tree.walk l names = .ok m)
    (hdirectory : tree.isDirectory (m.child name) = true) :
    tree.walk l (names ++ [name]) = .ok (m.child name) := by
  induction names generalizing l with
  | nil =>
    obtain rfl := Except.ok.inj h
    rw [List.nil_append, walk, if_pos hdirectory]
    rfl
  | cons first rest ih =>
    rw [List.cons_append, walk]
    rw [walk] at h
    split at h
    · next hfirst =>
      rw [if_pos hfirst]
      exact ih h
    · split at h
      · cases h
      · cases h

/-- A path that leads to a directory can be walked to its end. -/
theorem walk_of_isDirectoryPath (h : tree.isDirectoryPath ⟨a, names⟩ = true) :
    tree.walk (.ofAnchor a) names = .ok (Path.place ⟨a, names⟩) := by
  obtain ⟨l, hlocate, hdirectory⟩ := isDirectoryPath_iff.mp h
  obtain rfl := locate_eq_ok hlocate
  rcases (locate_eq_ok_iff.mp hlocate).2 with ⟨hnone, -⟩ | ⟨init, last, m, hnames, hwalk, hlast⟩
  · obtain rfl : names = [] := hnone
    rfl
  · rw [hlast] at hdirectory ⊢
    rw [show names = init ++ [last] from hnames]
    exact walk_concat hwalk hdirectory

/-- **Below a directory a path leads to its place.** -/
theorem locate_concat (h : tree.isDirectoryPath ⟨a, names⟩ = true)
    (hplain : ∀ n ∈ names ++ [name], Char.ofNat 0 ∉ n)
    (hwilling : ∀ access, tree.refusal? access = none) :
    tree.locate ⟨a, names ++ [name]⟩ = .ok (Path.place ⟨a, names ++ [name]⟩) :=
  locate_eq_ok_iff.mpr ⟨barrier?_eq_none_iff.mpr ⟨hplain, hwilling _⟩, .inr
    ⟨names, name, _, rfl, walk_of_isDirectoryPath h, Path.place_concat a names name⟩⟩

/-! ## Making -/

theorem ensureDirectory_of_locate (hfree : tree.file? p.place = none)
    (hwilling : ∀ access, tree.refusal? access = none) (h : tree.locate p = .ok p.place) :
    ∃ made, tree.ensureDirectory p = .ok made ∧
      ∀ l ∈ made.directories, l ∈ tree.directories ∨ l = p.place := by
  by_cases hdirectory : tree.isDirectory p.place = true
  · have hthere : tree.isDirectoryPath p = true := isDirectoryPath_iff.mpr ⟨_, h, hdirectory⟩
    exact ⟨tree, ensureDirectory_of_isDirectoryPath hthere, fun l hl => .inl hl⟩
  · have hunoccupied : ¬tree.occupied p.place = true := by
      rw [occupied, hfree, Option.isSome_none, Bool.or_false]
      exact hdirectory
    refine ⟨{ tree with directories := tree.directories ++ [p.place] }, ?_, fun l hl => ?_⟩
    · rw [ensureDirectory, makeDirectory, h]
      simp only
      rw [if_neg hunoccupied, hwilling]
    · exact (List.mem_append.mp hl).imp_right List.mem_singleton.mp

theorem ensureDirectory_of_notFound (h : tree.locate p = .error .notFound) :
    tree.ensureDirectory p = .error .notFound := by
  rw [ensureDirectory, makeDirectory, h]
  rfl

/-- A directory is tried first, and then again when the one above it has been made. -/
theorem makeDirectories_concat (tree : FileTree) (a : Anchor) (names : List Text) (name : Text) :
    tree.makeDirectories ⟨a, names ++ [name]⟩ =
      match tree.ensureDirectory ⟨a, names ++ [name]⟩ with
      | .error .notFound =>
        match (tree.makeDirectories ⟨a, names⟩).error with
        | some _ => tree.makeDirectories ⟨a, names⟩
        | none => (tree.makeDirectories ⟨a, names⟩).tree.attempt
            ((tree.makeDirectories ⟨a, names⟩).tree.ensureDirectory ⟨a, names ++ [name]⟩)
      | result => tree.attempt result := by
  rw [makeDirectories, List.reverse_concat, makeDirectoriesFrom, List.reverse_cons,
    List.reverse_reverse]
  rfl

/-- **Where no file is in the way all directories of a path are made**, and no others. -/
theorem makeDirectories_of_isClear (h : tree.IsClear p) :
    ∃ made, tree.makeDirectories p = ⟨made, none⟩ ∧
      ∀ l ∈ made.directories,
        l ∈ tree.directories ∨ ∃ names, names <+: p.names ∧ l = Path.place ⟨p.anchor, names⟩ := by
  obtain ⟨a, names⟩ := p
  induction names using List.reverseRecOn with
  | nil =>
    have hlocate : tree.locate ⟨a, []⟩ = .ok (Path.place ⟨a, []⟩) :=
      locate_eq_ok_iff.mpr ⟨h.barrier?_eq_none, .inl ⟨rfl, rfl⟩⟩
    obtain ⟨made, hmade, hadded⟩ := ensureDirectory_of_locate h.free_self h.willing hlocate
    refine ⟨made, ?_, fun l hl => (hadded l hl).imp_right fun heq => ⟨[], List.prefix_refl _, heq⟩⟩
    have hattempt :
        tree.makeDirectories ⟨a, []⟩ = tree.attempt (tree.ensureDirectory ⟨a, []⟩) := rfl
    rw [hattempt, hmade, attempt_ok]
  | append_singleton names name ih =>
    have hself (made : FileTree) (l : Location)
        (hl : l ∈ made.directories ∨ l = Path.place ⟨a, names ++ [name]⟩) :
        l ∈ made.directories ∨ ∃ ns, ns <+: names ++ [name] ∧ l = Path.place ⟨a, ns⟩ :=
      hl.imp_right fun heq => ⟨_, List.prefix_refl _, heq⟩
    rw [makeDirectories_concat]
    rcases locate_of_isClear h with hlocate | hlocate
    · obtain ⟨made, hmade, hadded⟩ := ensureDirectory_of_locate h.free_self h.willing hlocate
      rw [hmade]
      exact ⟨made, rfl, fun l hl => hself tree l (hadded l hl)⟩
    · -- the directory above is made, and then this one is found
      obtain ⟨between, hbetween, habove⟩ := ih h.above
      have hthere : between.isDirectoryPath ⟨a, names⟩ = true := by
        have hmade := isDirectoryPath_makeDirectories (congrArg Change.error hbetween)
        rwa [hbetween] at hmade
      obtain ⟨hfiles, hgrows⟩ : between.files = tree.files ∧ tree.Grows between := by
        have hgrows := tree.makeDirectories_grows ⟨a, names⟩
        rwa [hbetween] at hgrows
      have hwilling : ∀ access, between.refusal? access = none := hgrows.refusals ▸ h.willing
      have hfree : between.file? (Path.place ⟨a, names ++ [name]⟩) = none := by
        rw [file?, hfiles]
        exact h.free_self
      obtain ⟨made, hmade, hadded⟩ := ensureDirectory_of_locate hfree hwilling
        (locate_concat hthere h.plain hwilling)
      rw [ensureDirectory_of_notFound hlocate, hbetween]
      simp only
      rw [hmade, attempt_ok]
      refine ⟨made, rfl, fun l hl => ?_⟩
      rcases hself between l (hadded l hl) with hl | hl
      · refine (habove l hl).imp_right ?_
        rintro ⟨ns, hns, rfl⟩
        exact ⟨ns, hns.trans (List.prefix_append _ _), rfl⟩
      · exact .inr hl

end FileTree

end HaxeBindings
