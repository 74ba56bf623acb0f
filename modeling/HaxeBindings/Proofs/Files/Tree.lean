import HaxeBindings.Proofs.Files.Path
import Mathlib.Data.List.TakeWhile

/-!
# What operations leave of a file tree

Making directories and writing files only ever add to a tree: directories stay, files
stay files, and no directory takes the place of a file (`FileTree.Grows`).  Which place
a path leads to, if it leads anywhere, does not hang on the tree (`Path.place`), so a
place once found is found in every later tree (`FileTree.Grows.locate`).

* `Path.place_injective` --- paths that go on from one directory without leading up
  lead to different places when they differ;
* `FileTree.isDirectory_up` --- what lies above a place that was walked to is a directory;
* `FileTree.makeDirectories_grows` --- making directories touches no file.
-/

namespace HaxeBindings

open Text

/-! ## Places -/

namespace Path

/-- The place a path leads to, once what is on the way is there. -/
def place (p : Path) : Location := p.names.foldl Location.child (.ofAnchor p.anchor)

theorem foldl_child_of_ne_up {names : List Text} (h : ∀ name ∈ names, name ≠ Location.up)
    (l : Location) : names.foldl Location.child l = { l with names := l.names ++ names } := by
  induction names generalizing l with
  | nil => simp
  | cons name rest ih =>
    obtain ⟨hname, hrest⟩ := List.forall_mem_cons.mp h
    rw [List.foldl_cons, ih hrest, Location.child, if_neg hname, List.append_assoc]
    rfl

/-- Names that do not lead up are kept apart by the places they lead to. -/
theorem place_injective {root : Path} {names others : List Text}
    (h : ∀ name ∈ names, name ≠ Location.up) (h' : ∀ name ∈ others, name ≠ Location.up)
    (hplace : place ⟨root.anchor, root.names ++ names⟩ =
      place ⟨root.anchor, root.names ++ others⟩) : names = others := by
  simp only [place, List.foldl_append, foldl_child_of_ne_up h, foldl_child_of_ne_up h'] at hplace
  exact List.append_cancel_left (congrArg Location.names hplace)

end Path

namespace FileTree

variable {tree : FileTree}

/-! ## Walking -/

/-- A place that can be walked to: all places on the way down to it are directories, and double dots
stand in front of all other names. -/
structure IsReached (tree : FileTree) (l : Location) : Prop where
  above : ∀ front behind, l.names = front ++ behind →
    tree.isDirectory { l with names := front } = true
  ups : ∀ front behind, l.names = front ++ Location.up :: behind → ∀ name ∈ front, name = Location.up

theorem isReached_ofAnchor (a : Anchor) : IsReached tree (.ofAnchor a) where
  above front behind h := by
    rw [(List.append_eq_nil_iff.mp h.symm).1]
    rfl
  ups front behind h := absurd h.symm (List.append_ne_nil_of_right_ne_nil _ (List.cons_ne_nil _ _))

theorem isDirectory_of_ups {l : Location} (h : ∀ name ∈ l.names, name = Location.up) :
    tree.isDirectory l = true := by
  have hgiven : l.isGiven = true := List.all_eq_true.mpr fun name hname => by simp [h name hname]
  rw [isDirectory, hgiven, Bool.true_or]

/-- A name that is added leads to a place that is reached, when that is a directory. -/
theorem IsReached.concat {l : Location} (h : IsReached tree l) {name : Text}
    (hups : name = Location.up → ∀ n ∈ l.names, n = Location.up)
    (hdirectory : tree.isDirectory { l with names := l.names ++ [name] } = true) :
    IsReached tree { l with names := l.names ++ [name] } where
  above front behind heq := by
    rcases List.eq_nil_or_concat behind with rfl | ⟨init, last, rfl⟩
    · rwa [← List.append_nil front, ← heq]
    · rw [List.concat_eq_append, ← List.append_assoc] at heq
      exact h.above front init (List.append_inj_left' heq rfl)
  ups front behind heq := by
    rcases List.eq_nil_or_concat behind with rfl | ⟨init, last, rfl⟩
    · obtain ⟨hfront, hlast⟩ := List.append_inj' heq rfl
      rw [← hfront]
      exact hups (List.cons.inj hlast).1
    · rw [List.concat_eq_append, ← List.cons_append, ← List.append_assoc] at heq
      exact h.ups front init (List.append_inj_left' heq rfl)

/-- The place above one that is reached is reached, too. -/
theorem IsReached.dropLast {l : Location} (h : IsReached tree l) :
    IsReached tree { l with names := l.names.dropLast } := by
  obtain ⟨behind, hbehind⟩ := l.names.dropLast_prefix
  constructor
  · intro front rest heq
    refine h.above front (rest ++ behind) ?_
    rw [← hbehind, show l.names.dropLast = _ from heq, List.append_assoc]
  · intro front rest heq
    refine h.ups front (rest ++ behind) ?_
    rw [← hbehind, show l.names.dropLast = _ from heq, List.append_assoc, List.cons_append]

/-- Going up from a place that is reached one stays on the way down to it, or comes out in front of
all names. -/
theorem IsReached.child_up {l : Location} (h : IsReached tree l) :
    IsReached tree (l.child Location.up) ∧ tree.isDirectory (l.child Location.up) = true := by
  have hout (hups : ∀ name ∈ l.names, name = Location.up) :
      IsReached tree { l with names := l.names ++ [Location.up] } ∧
        tree.isDirectory { l with names := l.names ++ [Location.up] } = true := by
    have hdirectory : tree.isDirectory { l with names := l.names ++ [Location.up] } = true :=
      isDirectory_of_ups (by simpa [or_imp, forall_and] using hups)
    exact ⟨h.concat (fun _ => hups) hdirectory, hdirectory⟩
  unfold Location.child
  rw [if_pos rfl]
  split
  · next hnone =>
    rw [List.getLast?_eq_none_iff] at hnone
    split
    · exact ⟨h, h.above l.names [] (List.append_nil _).symm⟩
    · have hups : ∀ name ∈ l.names, name = Location.up := by simp [hnone]
      simpa [hnone] using hout hups
  · next last hlast =>
    obtain ⟨init, hinit⟩ := List.getLast?_eq_some_iff.mp hlast
    split
    · next hup =>
      subst hup
      refine hout ?_
      rw [hinit]
      simpa [or_imp, forall_and] using h.ups init [] hinit
    · have hdrop : l.names = l.names.dropLast ++ [last] := by rw [hinit, List.dropLast_concat]
      exact ⟨h.dropLast, h.above _ _ hdrop⟩

/-- One step of a walk. -/
theorem IsReached.child {l : Location} (h : IsReached tree l) {name : Text}
    (hdirectory : tree.isDirectory (l.child name) = true) : IsReached tree (l.child name) := by
  by_cases hup : name = Location.up
  · rw [hup]
    exact h.child_up.1
  · rw [Location.child, if_neg hup] at hdirectory ⊢
    exact h.concat (fun heq => absurd heq hup) hdirectory

/-- **A walk ends at the place of its names**, and that place is reached. -/
theorem walk_eq_ok {names : List Text} {l place : Location} (h : tree.walk l names = .ok place) :
    place = names.foldl Location.child l ∧ (IsReached tree l → IsReached tree place) := by
  induction names generalizing l with
  | nil =>
    rw [← Except.ok.inj h]
    exact ⟨rfl, id⟩
  | cons name rest ih =>
    rw [walk] at h
    split at h
    · next hdirectory =>
      obtain ⟨hplace, hreached⟩ := ih h
      exact ⟨hplace, fun hl => hreached (hl.child hdirectory)⟩
    · split at h
      · exact nomatch h
      · exact nomatch h

/-- What it takes to find a path: it may be walked, and there is nothing to walk or one walks to the
directory that its last name is looked up in. -/
theorem locate_eq_ok_iff {p : Path} {l : Location} :
    tree.locate p = .ok l ↔ tree.barrier? p = none ∧
      ((p.names = [] ∧ l = .ofAnchor p.anchor) ∨
        ∃ init last place, p.names = init ++ [last] ∧
          tree.walk (.ofAnchor p.anchor) init = .ok place ∧ l = place.child last) := by
  unfold locate
  cases tree.barrier? p with
  | some e => exact iff_of_false nofun nofun
  | none =>
    rw [and_iff_right rfl]
    simp only
    rcases List.eq_nil_or_concat p.names with hnone | ⟨init, last, hnames⟩
    · rw [hnone]
      constructor
      · exact fun h => .inl ⟨rfl, (Except.ok.inj h).symm⟩
      · rintro (⟨-, rfl⟩ | ⟨init, last, -, hnil, -⟩)
        · rfl
        · exact absurd hnil.symm (List.append_ne_nil_of_right_ne_nil _ (List.cons_ne_nil _ _))
    · rw [List.concat_eq_append] at hnames
      rw [hnames, List.getLast?_concat, List.dropLast_concat]
      constructor
      · intro h
        cases hwalk : tree.walk (.ofAnchor p.anchor) init with
        | error e =>
          rw [hwalk] at h
          exact nomatch h
        | ok place =>
          rw [hwalk] at h
          exact .inr ⟨init, last, place, rfl, hwalk, (Except.ok.inj h).symm⟩
      · rintro (⟨hnil, -⟩ | ⟨front, name, place, hfront, hwalk, rfl⟩)
        · exact absurd hnil (List.append_ne_nil_of_right_ne_nil _ (List.cons_ne_nil _ _))
        · obtain ⟨rfl, hlast⟩ := List.append_inj' hfront rfl
          obtain rfl := (List.cons.inj hlast).1
          simp only [hwalk]
          rfl

/-- **A path that is found leads to its place.** -/
theorem locate_eq_ok {p : Path} {l : Location} (h : tree.locate p = .ok l) : l = p.place := by
  rcases (locate_eq_ok_iff.mp h).2 with ⟨hnone, rfl⟩ | ⟨init, last, place, hnames, hwalk, rfl⟩
  · rw [Path.place, hnone]
    rfl
  · rw [Path.place, hnames, List.foldl_append, ← (walk_eq_ok hwalk).1]
    rfl

/-- **Double dots lead to a directory.** -/
theorem isDirectory_up {p : Path} {l : Location} (h : tree.locate p = .ok l)
    (hup : p.names.getLast? = some Location.up) : tree.isDirectory l = true := by
  rcases (locate_eq_ok_iff.mp h).2 with ⟨hnone, -⟩ | ⟨init, last, place, hnames, hwalk, rfl⟩
  · rw [hnone] at hup
    exact nomatch hup
  · rw [hnames, List.getLast?_concat] at hup
    rw [Option.some_inj.mp hup]
    exact ((walk_eq_ok hwalk).2 (isReached_ofAnchor p.anchor)).child_up.2

/-! ## Growing -/

/-- What making directories and writing files leave: directories stay, files stay files, no directory
is made where there is a file, and the same accesses are refused. -/
structure Grows (before after : FileTree) : Prop where
  directories : ∀ l, before.isDirectory l = true → after.isDirectory l = true
  files : ∀ l, (before.file? l).isSome = true → (after.file? l).isSome = true
  apart : ∀ l, (before.file? l).isSome = true → before.isDirectory l = false →
    after.isDirectory l = false
  refusals : after.refusal? = before.refusal?

namespace Grows

variable {t u : FileTree}

protected theorem refl (tree : FileTree) : Grows tree tree :=
  ⟨fun _ h => h, fun _ h => h, fun _ _ h => h, rfl⟩

protected theorem trans (h : Grows tree t) (h' : Grows t u) : Grows tree u where
  directories l hl := h'.directories l (h.directories l hl)
  files l hl := h'.files l (h.files l hl)
  apart l hl hplain := h'.apart l (h.files l hl) (h.apart l hl hplain)
  refusals := h'.refusals.trans h.refusals

/-- A walk through directories can be taken in every later tree. -/
theorem walk (h : Grows tree t) {names : List Text} {l place : Location}
    (hwalk : tree.walk l names = .ok place) : t.walk l names = .ok place := by
  induction names generalizing l with
  | nil => exact hwalk
  | cons name rest ih =>
    rw [FileTree.walk] at hwalk ⊢
    split at hwalk
    · next hdirectory =>
      rw [if_pos (h.directories _ hdirectory)]
      exact ih hwalk
    · split at hwalk
      · exact nomatch hwalk
      · exact nomatch hwalk

/-- A path that was found is found in every later tree. -/
theorem locate (h : Grows tree t) {p : Path} {l : Location} (hlocate : tree.locate p = .ok l) :
    t.locate p = .ok l := by
  obtain ⟨hfree, hfound⟩ := locate_eq_ok_iff.mp hlocate
  rw [barrier?_eq_none_iff, ← h.refusals, ← barrier?_eq_none_iff] at hfree
  refine locate_eq_ok_iff.mpr ⟨hfree, hfound.imp_right ?_⟩
  rintro ⟨init, last, place, hnames, hwalk, rfl⟩
  exact ⟨init, last, place, hnames, h.walk hwalk, rfl⟩

end Grows

/-! ## Making directories -/

theorem makeDirectory_grows {p : Path} {t : FileTree} (h : tree.makeDirectory p = .ok t) :
    t.files = tree.files ∧ Grows tree t := by
  unfold makeDirectory at h
  split at h
  · exact nomatch h
  · next l hlocate =>
    split at h
    · exact nomatch h
    · next hfree =>
      split at h
      · exact nomatch h
      · rw [← Except.ok.inj h]
        rw [occupied, Bool.or_eq_true, not_or] at hfree
        refine ⟨rfl, fun k hk => ?_, fun k hk => hk, fun k hk hplain => ?_, rfl⟩
        · rw [isDirectory, Bool.or_eq_true] at hk ⊢
          exact hk.imp_right fun hmem => by simp [List.mem_of_elem_eq_true hmem]
        · have hne : k ≠ l := fun heq => hfree.2 (heq ▸ hk)
          simpa [isDirectory, hne] using hplain

theorem ensureDirectory_grows {p : Path} {t : FileTree} (h : tree.ensureDirectory p = .ok t) :
    t.files = tree.files ∧ Grows tree t := by
  unfold ensureDirectory at h
  split at h
  · next made hmade =>
    rw [← Except.ok.inj h]
    exact makeDirectory_grows hmade
  · split at h
    · rw [← Except.ok.inj h]
      exact ⟨rfl, Grows.refl tree⟩
    · exact nomatch h

/-- An attempt leaves the tree as it is or does what was attempted. -/
theorem attempt_ensureDirectory_grows (tree : FileTree) (p : Path) :
    (tree.attempt (tree.ensureDirectory p)).tree.files = tree.files ∧
      Grows tree (tree.attempt (tree.ensureDirectory p)).tree := by
  cases hmade : tree.ensureDirectory p with
  | error e => exact ⟨rfl, Grows.refl tree⟩
  | ok t => exact ensureDirectory_grows hmade

/-- **Making directories touches no file**, whether it succeeds or not. -/
theorem makeDirectories_grows (tree : FileTree) (p : Path) :
    (tree.makeDirectories p).tree.files = tree.files ∧
      Grows tree (tree.makeDirectories p).tree := by
  have hfrom : ∀ names, (tree.makeDirectoriesFrom p.anchor names).tree.files = tree.files ∧
      Grows tree (tree.makeDirectoriesFrom p.anchor names).tree := by
    intro names
    induction names with
    | nil => exact attempt_ensureDirectory_grows tree _
    | cons name above ih =>
      unfold makeDirectoriesFrom
      simp only
      split
      · split
        · exact ih
        · obtain ⟨hfiles, hgrows⟩ := attempt_ensureDirectory_grows
            (tree.makeDirectoriesFrom p.anchor above).tree ⟨p.anchor, (name :: above).reverse⟩
          exact ⟨hfiles.trans ih.1, ih.2.trans hgrows⟩
      · exact attempt_ensureDirectory_grows tree _
  exact hfrom p.names.reverse

/-! ## Writing files -/

@[simp] theorem isDirectory_put (tree : FileTree) (l k : Location) (c : Content) :
    (tree.put l c).isDirectory k = tree.isDirectory k := rfl

theorem grows_put (tree : FileTree) (l : Location) (c : Content) : Grows tree (tree.put l c) where
  directories _ h := h
  files k hk := by
    rw [file?_put]
    split
    · rfl
    · exact hk
  apart _ _ h := h
  refusals := rfl

/-- What it takes to read a file. -/
theorem read_eq_ok_iff {p : Path} {c : Content} :
    tree.read p = .ok c ↔ ∃ l, tree.locate p = .ok l ∧ tree.isDirectory l = false ∧
      tree.file? l = some c := by
  unfold read
  cases tree.locate p with
  | error e => exact iff_of_false nofun nofun
  | ok l =>
    simp only [Except.ok.injEq, exists_eq_left']
    by_cases hdirectory : tree.isDirectory l = true
    · rw [if_pos hdirectory, hdirectory]
      exact iff_of_false nofun nofun
    · rw [if_neg hdirectory, and_iff_right (Bool.eq_false_iff.mpr hdirectory)]
      cases tree.file? l with
      | none => exact iff_of_false nofun nofun
      | some content => exact ⟨fun h => congrArg some (Except.ok.inj h), fun h =>
          congrArg Except.ok (Option.some_inj.mp h)⟩

/-- What could be read can be read from every later tree, if not with the same content. -/
theorem Grows.read {t : FileTree} (h : Grows tree t) {p : Path} {c : Content}
    (hread : tree.read p = .ok c) : ∃ c', t.read p = .ok c' := by
  obtain ⟨l, hlocate, hplain, hfile⟩ := read_eq_ok_iff.mp hread
  have hsome : (tree.file? l).isSome = true := by rw [hfile, Option.isSome_some]
  obtain ⟨c', hc'⟩ := Option.isSome_iff_exists.mp (h.files l hsome)
  exact ⟨c', read_eq_ok_iff.mpr ⟨l, h.locate hlocate, h.apart l hsome hplain, hc'⟩⟩

end FileTree
end HaxeBindings
