import HaxeBindings.Files.System
import HaxeBindings.Proofs.Generation.Placement

/-!
# Runs that are stopped

What a run on a dump leaves when it fails.  It fails in one of five places: the dump is
not loaded, the output root is blank, the root cannot be made, rendering stops, or an
extern cannot be placed.  Nothing is assumed of the system: it may refuse any access,
for whatever reason, and leave any number of calls for loading the dump.

* `Stopped` --- how generation was stopped, and the externs it had placed by then.  They
  stand in front of the first extern that could not be placed, and only the last of the
  ways leaves any;
* `generate_stopped` --- generation that fails was stopped in one of these ways;
* `generateFromDump_stopped` --- a failed run leaves a prefix: the texts of the externs in
  front of the failure were put in place in order, and no other file has changed.
-/

namespace HaxeBindings

open Text

/-- How generation was stopped: for which cause, with which externs placed, and with what tree. -/
inductive Stopped (o : Options) (types : List Descriptor) (out : Text) (before : FileTree) :
    Failure → List Rendered → FileTree → Prop
  | blankRoot (blank : isBlankText out = true) : Stopped o types out before .blankRoot [] before
  | root {made : FileTree} {e : FileError}
      (unmade : before.makeDirectories (Path.ofText out) = ⟨made, some e⟩) :
      Stopped o types out before (.file e) [] made
  | rendering {made : FileTree} {cause : Failure}
      (root : before.makeDirectories (Path.ofText out) = ⟨made, none⟩)
      (unrendered : (renderTypes o types).result = .error cause) :
      Stopped o types out before cause [] made
  | placing {made between after : FileTree} {front behind : List Rendered} {r : Rendered}
      {e : FileError} (root : before.makeDirectories (Path.ofText out) = ⟨made, none⟩)
      (rendered : (renderTypes o types).result = .ok (front ++ r :: behind))
      (placed : Placed (·.outputPath (Path.ofText out) o.extension) made front between)
      (unplaced : Written.place between (r.outputPath (Path.ofText out) o.extension) r.text =
        ⟨after, some e⟩) :
      Stopped o types out before (.file e) front after

variable {o : Options} {types : List Descriptor} {out : Text} {before after : FileTree}
  {cause : Failure}

namespace Stopped

variable {front : List Rendered}

/-- **The files are those before, with the texts of the externs put in place in order.** -/
protected theorem files (h : Stopped o types out before cause front after) :
    let path (r : Rendered) := r.outputPath (Path.ofText out) o.extension
    after.files = (before.putAll (placedFiles path front)).files := by
  have hroot := (before.makeDirectories_grows (Path.ofText out)).1
  cases h with
  | blankRoot blank => rfl
  | root unmade =>
    rw [unmade] at hroot
    exact hroot
  | rendering root unrendered =>
    rw [root] at hroot
    exact hroot
  | @placing made between _ _ _ r _ root rendered placed unplaced =>
    rw [root] at hroot
    have hlast := Written.files_place_of_error (congrArg FileTree.Change.error unplaced)
    rw [unplaced] at hlast
    calc after.files = between.files := hlast
      _ = (made.putAll _).files := placed.files
      _ = (before.putAll _).files := FileTree.files_putAll_congr hroot _

end Stopped

/-- **Generation that fails was stopped in one of four ways.** -/
theorem generate_stopped (h : (generate o types out before).result = .error cause) :
    ∃ front, Stopped o types out before cause front (generate o types out before).tree := by
  unfold generate at h ⊢
  split at h
  · next hblank =>
    rw [if_pos hblank, ← Except.error.inj h]
    exact ⟨[], .blankRoot hblank⟩
  · next hnamed =>
    rw [if_neg hnamed]
    simp only at h ⊢
    split at h
    · next e herror =>
      rw [← Except.error.inj h]
      exact ⟨[], .root (congrArg (FileTree.Change.mk _) herror)⟩
    · next herror =>
      have hroot := congrArg (FileTree.Change.mk (before.makeDirectories (Path.ofText out)).tree) herror
      unfold writeExterns at h ⊢
      split at h
      · next hrendered =>
        rw [← Except.error.inj h]
        exact ⟨[], .rendering hroot hrendered⟩
      · next externs hrendered =>
        split at h
        · next w e hall =>
          obtain ⟨front, r, behind, between, rfl, hplaced, hlast⟩ := Written.addAll_eq_error hall
          rw [← Except.error.inj h]
          exact ⟨front, .placing hroot hrendered hplaced hlast⟩
        · exact nomatch h

/-- **A failed run leaves a prefix.**  When the dump is not loaded, the tree is as before.  Otherwise
generation was stopped, and the files are those before with the texts put in place, in order, of
exactly the externs in front of the first one that could not be placed.  So no file has changed if
there are none. -/
theorem generateFromDump_stopped {limits : Limits} {dump : Path}
    (h : (generateFromDump limits o dump out before).result = .error cause) :
    let loaded := Catalog.load limits before dump
    let run := generateFromDump limits o dump out before
    let path (r : Rendered) := r.outputPath (Path.ofText out) o.extension
    (loaded.result = .error cause ∧ run.tree = before) ∨
      ∃ catalog front, loaded.result = .ok catalog ∧
        Stopped o (Catalog.exported o.rootNamespace dump ⟨catalog, loaded.log⟩).value out before
          cause front run.tree ∧
        run.tree.files = (before.putAll (placedFiles path front)).files ∧
        (front = [] → run.tree.files = before.files) := by
  intro loaded run path
  have hrun : run = withCatalog limits dump before fun catalog =>
      (generate o (Catalog.exported o.rootNamespace dump catalog).value out before).after
        (Catalog.exported o.rootNamespace dump catalog).log := rfl
  replace h : run.result = .error cause := h
  simp only [withCatalog] at hrun
  split at hrun
  · next e hload =>
    rw [hrun] at h ⊢
    obtain rfl := Except.error.inj h
    exact .inl ⟨hload, rfl⟩
  · next catalog hload =>
    rw [hrun] at h ⊢
    obtain ⟨front, hstopped⟩ := generate_stopped h
    refine .inr ⟨catalog, front, hload, hstopped, hstopped.files, fun hfront => ?_⟩
    rw [hfront] at hstopped
    exact hstopped.files

/-- A comment in the second extern holds half of a character: the first extern was written, the second
was refused, the third was not reached, and the files that were there are kept. -/
theorem generateFromDump_stopped_half :
    let file (names : List String) : Path := ⟨.current, names.map String.toList⟩
    let dump := file ["dump"]
    let entry (name members : String) : Text :=
      "\x7b\"full_name\":\"Sandbox.".toList ++ name.toList ++ '"' :: members.toList ++ "\x7d".toList
    let half := ",\"properties\":[\x7b\"name\":\"P\",\"type\":\"System.Int32\"," ++
      "\"getter\":\"public\",\"summary\":\"\\ud800\"\x7d]"
    let types := [entry "A" "", entry "B" half, entry "User" ""]
    let text := "\x7b\"assemblies\":[\x7b\"name\":\"Sandbox.Engine\",\"types\":[".toList ++
      join [','] types ++ "]\x7d]\x7d".toList
    let old : List (Location × Content) :=
      [(dump.place, .text text), ((file ["out", "B.hx"]).place, .text "kept".toList)]
    let before : FileTree :=
      { FileTree.onSystem with directories := [(file ["out"]).place], files := old }
    let o : Options := {}
    let run := generateFromDump {} o dump "out".toList before
    let loaded := Catalog.load {} before dump
    run.result = .error (.file (.refused .unencodable)) ∧
      (∃ t, run.tree.files = ((file ["out", "A.hx"]).place, .text t) :: old) ∧
      ∃ catalog front, loaded.result = .ok catalog ∧
        Stopped o (Catalog.exported o.rootNamespace dump ⟨catalog, loaded.log⟩).value "out".toList
          before (.file (.refused .unencodable)) front run.tree ∧
        run.tree.files = (before.putAll
          (placedFiles (·.outputPath (Path.ofText "out".toList) o.extension) front)).files := by
  intro file dump entry half types text old before o run loaded
  let only : Text := "package sbox;\n\n@:native(\"Sandbox.A\")\nextern class A \x7b\n\x7d\n".toList
  have hends : (run.result, run.tree.files) =
      (.error (.file (.refused .unencodable)),
        ((file ["out", "A.hx"]).place, .text only) :: old) := by
    decide +kernel
  obtain ⟨hfailed, hwritten⟩ := Prod.mk.inj hends
  refine ⟨hfailed, ⟨only, hwritten⟩, ?_⟩
  have hrun : generateFromDump {} o dump "out".toList before = run := rfl
  have hload : Catalog.load {} before dump = loaded := rfl
  have hstopped := @generateFromDump_stopped o "out".toList before _ {} dump hfailed
  simp only at hstopped
  rw [hrun, hload] at hstopped
  rcases hstopped with ⟨-, hunread⟩ | ⟨catalog, front, hload, hstopped, hfiles, -⟩
  · rw [hunread] at hwritten
    exact absurd hwritten.symm (List.cons_ne_self _ _)
  · exact ⟨catalog, front, hload, hstopped, hfiles⟩

end HaxeBindings
