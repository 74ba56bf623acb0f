import HaxeBindings.Generation.Files
import HaxeBindings.Proofs.Files.Acceptance

/-!
# Placing files one after the other

To place a file is to make its directory and then to write it.  A run does this for its
externs in order, and stops where it fails.

* `Placed` --- all externs of a list were placed.  The files are then those before with
  the texts put in place (`Placed.files`), and every path accepts its text
  (`Placed.accepts`);
* `Written.addAll_eq_ok`, `Written.addAll_eq_error` --- what writing externs comes to: all
  of them are placed, or those in front of the first that could not be;
* `exists_addAll_of_generate`, `generate_of_addAll` --- a run returns exactly when it has
  a root, renders its externs and writes them all.
-/

namespace HaxeBindings

open Text

/-! ## One file -/

namespace Written

variable {tree : FileTree} {p : Path} {t : Text}

theorem place_of_accepts (h : tree.Accepts p t) :
    place tree p t = ⟨tree.put p.place (.text t), none⟩ := by
  have hfree : ¬tree.isDirectory p.place = true := by rw [h.free]; exact Bool.false_ne_true
  rw [place, FileTree.makeDirectories_of_isDirectoryPath h.parent]
  simp only
  rw [FileTree.write, h.located]
  simp only
  rw [if_neg hfree, h.willing]
  exact FileTree.attempt_ok tree _

/-- **What it takes to place a file**: directories are made, the path accepts the text afterwards, and
the file is put at its place. -/
theorem place_eq_ok (h : (place tree p t).error = none) :
    ∃ made : FileTree, made.files = tree.files ∧ tree.Grows made ∧ made.Accepts p t ∧
      place tree p t = ⟨made.put p.place (.text t), none⟩ := by
  obtain ⟨hfiles, hgrows⟩ := tree.makeDirectories_grows p.parent
  have hparent := @FileTree.isDirectoryPath_makeDirectories tree p.parent
  unfold place at h ⊢
  simp only at h ⊢
  split at h
  · next e herror => exact nomatch herror.symm.trans h
  · next herror =>
    have hwrite := FileTree.attempt_error_eq_none h
    have hparent := hparent herror
    generalize (tree.makeDirectories p.parent).tree = made at *
    unfold FileTree.write at hwrite ⊢
    split at hwrite
    · exact nomatch hwrite
    · next l hlocate =>
      obtain rfl := FileTree.locate_eq_ok hlocate
      split at hwrite
      · exact nomatch hwrite
      · next hfree =>
        split at hwrite
        · exact nomatch hwrite
        · next hwilling =>
          have haccepts : made.Accepts p t :=
            ⟨hparent, hlocate, Bool.eq_false_iff.mpr hfree, hwilling⟩
          refine ⟨made, hfiles, hgrows, haccepts, ?_⟩
          rw [if_neg hfree, FileTree.attempt_ok]

/-- A file that cannot be placed leaves all files as they are. -/
theorem files_place_of_error {e : FileError} (h : (place tree p t).error = some e) :
    (place tree p t).tree.files = tree.files := by
  obtain ⟨hfiles, -⟩ := tree.makeDirectories_grows p.parent
  unfold place at h ⊢
  simp only at h ⊢
  split
  · exact hfiles
  · next herror =>
    rw [herror] at h
    simp only at h
    cases hwrite : (tree.makeDirectories p.parent).tree.write p t with
    | error e => exact hfiles
    | ok after =>
      rw [hwrite] at h
      exact nomatch h

end Written

/-! ## Externs placed one after the other -/

/-- The externs were placed in order, and this led from the one tree to the other. -/
inductive Placed (path : Rendered → Path) : FileTree → List Rendered → FileTree → Prop
  | nil (tree : FileTree) : Placed path tree [] tree
  | cons {tree next after : FileTree} {r : Rendered} {rest : List Rendered}
      (first : Written.place tree (path r) r.text = ⟨next, none⟩)
      (others : Placed path next rest after) : Placed path tree (r :: rest) after

/-- The files of externs, each at the place of its path. -/
def placedFiles (path : Rendered → Path) (externs : List Rendered) : List (Location × Content) :=
  externs.map fun r => ((path r).place, .text r.text)

namespace Placed

variable {path : Rendered → Path} {tree after : FileTree} {externs : List Rendered}

/-- One extern that was placed. -/
theorem step {next : FileTree} {r : Rendered}
    (h : Written.place tree (path r) r.text = ⟨next, none⟩) :
    next.files = (tree.put (path r).place (.text r.text)).files ∧ tree.Grows next ∧
      next.Accepts (path r) r.text ∧ (next.file? (path r).place).isSome = true := by
  obtain ⟨made, hfiles, hgrows, haccepts, hplace⟩ := Written.place_eq_ok (by rw [h])
  obtain rfl : made.put (path r).place (.text r.text) = next :=
    congrArg FileTree.Change.tree (hplace.symm.trans h)
  refine ⟨?_, hgrows.trans (made.grows_put _ _), haccepts.put _ _, ?_⟩
  · rw [FileTree.put, FileTree.put, hfiles]
  · rw [FileTree.file?_put, if_pos rfl, Option.isSome_some]

protected theorem grows (h : Placed path tree externs after) : tree.Grows after := by
  induction h with
  | nil tree => exact .refl tree
  | cons first others ih => exact (step first).2.1.trans ih

/-- **The files are those before, with the texts of the externs put in place in order.** -/
protected theorem files (h : Placed path tree externs after) :
    after.files = (tree.putAll (placedFiles path externs)).files := by
  induction h with
  | nil tree => rfl
  | cons first others ih =>
    rw [ih]
    exact FileTree.files_putAll_congr (step first).1 _

/-- **The paths of externs that were placed accept their texts.** -/
protected theorem accepts (h : Placed path tree externs after) :
    ∀ r ∈ externs, after.Accepts (path r) r.text := by
  induction h with
  | nil tree => exact fun r hr => absurd hr List.not_mem_nil
  | cons first others ih =>
    obtain ⟨-, -, haccepts, hfile⟩ := step first
    exact List.forall_mem_cons.mpr ⟨haccepts.grows hfile others.grows, ih⟩

end Placed

namespace Written

variable {root : Path} {extension : Text} {externs : List Rendered} {w w' : Written}

theorem add_eq_ok {p : Path} {r : Rendered} (h : w.add p r = (w', none)) :
    place w.tree p r.text = ⟨w'.tree, none⟩ ∧ w'.owners = own p r.nativeName w.owners ∧
      w'.log = w.log ++ w.replacementNote p r.nativeName := by
  unfold add at h
  simp only at h
  split at h
  · exact nomatch (Prod.mk.inj h).2
  · next herror =>
    obtain ⟨rfl, -⟩ := Prod.mk.inj h
    exact ⟨congrArg (FileTree.Change.mk _) herror, rfl, rfl⟩

theorem add_eq_error {p : Path} {r : Rendered} {e : FileError} (h : w.add p r = (w', some e)) :
    place w.tree p r.text = ⟨w'.tree, some e⟩ := by
  unfold add at h
  simp only at h
  split at h
  · next cause herror =>
    obtain ⟨rfl, hcause⟩ := Prod.mk.inj h
    rw [← hcause]
    exact congrArg (FileTree.Change.mk _) herror
  · exact nomatch (Prod.mk.inj h).2

/-- **Externs that are all written are all placed.** -/
theorem addAll_eq_ok (h : addAll root extension w externs = (w', none)) :
    Placed (·.outputPath root extension) w.tree externs w'.tree := by
  induction externs generalizing w with
  | nil =>
    obtain ⟨rfl, -⟩ := Prod.mk.inj h
    exact .nil w.tree
  | cons r rest ih =>
    unfold addAll at h
    split at h
    · exact nomatch (Prod.mk.inj h).2
    · next between hadd => exact .cons (add_eq_ok hadd).1 (ih h)

/-- **Externs that are not all written are placed up to the first one that cannot be.** -/
theorem addAll_eq_error {e : FileError} (h : addAll root extension w externs = (w', some e)) :
    ∃ front r behind between, externs = front ++ r :: behind ∧
      Placed (·.outputPath root extension) w.tree front between ∧
      place between (r.outputPath root extension) r.text = ⟨w'.tree, some e⟩ := by
  induction externs generalizing w with
  | nil => exact nomatch (Prod.mk.inj h).2
  | cons r rest ih =>
    unfold addAll at h
    split at h
    · next hadd =>
      obtain ⟨rfl, hcause⟩ := Prod.mk.inj h
      obtain rfl := Option.some_inj.mp hcause
      exact ⟨[], r, rest, w.tree, rfl, .nil w.tree, add_eq_error hadd⟩
    · next hadd =>
      obtain ⟨front, last, behind, between, rfl, hplaced, hlast⟩ := ih h
      exact ⟨r :: front, last, behind, between, rfl, .cons (add_eq_ok hadd).1 hplaced, hlast⟩

end Written

/-! ## A run -/

variable {o : Options} {types : List Descriptor} {out : Text} {before : FileTree}

/-- What a run comes to when its output root is there and its externs are all written. -/
theorem generate_of_addAll {made : FileTree} {externs : List Rendered} {w : Written}
    (hnamed : isBlankText out = false)
    (hroot : before.makeDirectories (Path.ofText out) = ⟨made, none⟩)
    (hrendered : (renderTypes o types).result = .ok externs)
    (hall : Written.addAll (Path.ofText out) o.extension { tree := made } externs = (w, none)) :
    let s := Summary.ofExterns (Path.ofText out) externs w
    generate o types out before = ⟨.ok s,
      (renderTypes o types).log ++ w.log ++ [.finished s.typeCount s.memberCount], w.tree⟩ := by
  intro s
  rw [generate, if_neg (by rw [hnamed]; exact Bool.false_ne_true)]
  simp only
  rw [hroot, writeExterns, hrendered]
  simp only
  rw [hall]

/-- What has happened when a run returns. -/
theorem exists_addAll_of_generate {s : Summary}
    (h : (generate o types out before).result = .ok s) :
    ∃ made externs w, isBlankText out = false ∧
      before.makeDirectories (Path.ofText out) = ⟨made, none⟩ ∧
      (renderTypes o types).result = .ok externs ∧
      Written.addAll (Path.ofText out) o.extension { tree := made } externs = (w, none) := by
  unfold generate at h
  split at h
  · exact nomatch h
  · next hnamed =>
    simp only at h
    split at h
    · exact nomatch h
    · next herror =>
      unfold writeExterns at h
      split at h
      · exact nomatch h
      · next externs hrendered =>
        split at h
        · exact nomatch h
        · next w hall =>
          exact ⟨_, externs, w, Bool.eq_false_iff.mpr hnamed,
            congrArg (FileTree.Change.mk _) herror, hrendered, hall⟩

end HaxeBindings
