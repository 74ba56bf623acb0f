import HaxeBindings.Proofs.Generation.Records

/-!
# Running twice

A run that returns leaves a tree in which it can be run again.  Everything it needs is
there: the directories it made, and a file at every path it wrote to.  So the second run
makes nothing, and it puts the same texts in the same places in the same order.  On the
way it may bring back a text that was replaced in the first run, when two externs share a
place, but the last one is the last one again (`FileTree.putAll_eq_self`).

* `Written.addAll_of_accepts` --- what the externs are written to when all paths accept a
  file: owners and reports do not hang on the tree;
* `generate_generate` --- the second run cannot be told from the first.
-/

namespace HaxeBindings

open Text

namespace Written

variable {root : Path} {extension : Text} {externs : List Rendered} {w w' u : Written}

/-- **Writing externs again**, into a tree that accepts a file at each of their paths. -/
theorem addAll_of_accepts (h : addAll root extension w externs = (w', none))
    (howners : u.owners = w.owners) (hlog : u.log = w.log)
    (haccepts : ∀ r ∈ externs, u.tree.Accepts (r.outputPath root extension) r.text) :
    addAll root extension u externs =
      ({ w' with tree := u.tree.putAll (placedFiles (·.outputPath root extension) externs) },
        none) := by
  induction externs generalizing w u with
  | nil =>
    obtain ⟨rfl, -⟩ := Prod.mk.inj h
    rw [addAll, ← howners, ← hlog]
    rfl
  | cons r rest ih =>
    obtain ⟨hfirst, hrest⟩ := List.forall_mem_cons.mp haccepts
    unfold addAll at h ⊢
    split at h
    · exact absurd (Prod.mk.inj h).2 (Option.some_ne_none _)
    · next between hadd =>
      obtain ⟨-, hown, hreport⟩ := add_eq_ok hadd
      have hagain : u.add (r.outputPath root extension) r =
          ({ between with
            tree := u.tree.put (r.outputPath root extension).place (.text r.text) }, none) := by
        rw [add, place_of_accepts hfirst, hown, hreport, howners, hlog, replacementNote,
          replacementNote, howners]
      rw [hagain]
      exact ih h rfl rfl fun e he => (hrest e he).put _ _

end Written

variable {o : Options} {types : List Descriptor} {out : Text} {before : FileTree}

/-- **Generation is idempotent.**  A run that returns is repeated exactly by a run on the tree that
it leaves: the second returns as well, with the same summary and the same log, and leaves the tree
as it found it. -/
theorem generate_generate {s : Summary} (h : (generate o types out before).result = .ok s) :
    let run := generate o types out before
    generate o types out run.tree = run := by
  intro run
  obtain ⟨made, externs, w, hnamed, hroot, hrendered, hall⟩ := exists_addAll_of_generate h
  have hrun : run = _ := generate_of_addAll hnamed hroot hrendered hall
  have hplaced := Written.addAll_eq_ok hall
  -- the directories that were made for the root are still there at the end
  have hthere : w.tree.isDirectoryPath (Path.ofText out) = true := by
    have hmade := @FileTree.isDirectoryPath_makeDirectories before (Path.ofText out) (by rw [hroot])
    rw [hroot] at hmade
    exact hplaced.grows.isDirectoryPath hmade
  have hagain := Written.addAll_of_accepts (u := { tree := w.tree }) hall rfl rfl hplaced.accepts
  rw [FileTree.putAll_eq_self hplaced.files] at hagain
  have htwice := generate_of_addAll hnamed
    (FileTree.makeDirectories_of_isDirectoryPath hthere) hrendered hagain
  rw [hrun]
  exact htwice

/-- A run that replaces a text twice: once at one path, which it reports, and once at the place of
two paths, which it does not.  Both happen again in the second run. -/
theorem generate_generate_replaced :
    let pool := "Sandbox.Pool".toList ++ [arityMark]
    let types : List Descriptor :=
      [{ fullName := pool ++ "1<T>".toList, genericParameters := [['T']] },
       { fullName := "Sandbox.!".toList }, { fullName := "Sandbox.x".toList },
       { fullName := pool ++ "2<T,U>".toList, genericParameters := [['T'], ['U']] }]
    let o : Options := { defaultTypeName := "sub/../x".toList }
    let file (names : List String) : Path := ⟨.current, names.map String.toList⟩
    let before : FileTree :=
      { directories := [(file ["out"]).place]
        files := [((file ["notes"]).place, .text "kept".toList),
          ((file ["out", "x.hx"]).place, .text "old".toList)] }
    let run := generate o types "out".toList before
    let written := [file ["out", "Pool.hx"], file ["out", "sub", "..", "x.hx"], file ["out", "x.hx"]]
    run.result = .ok ⟨file ["out"], 4, 0, written⟩ ∧
      (file ["out", "sub", "..", "x.hx"]).place = (file ["out", "x.hx"]).place ∧
      (run.log.filter Event.isReplacement).length = 1 ∧
      generate o types "out".toList run.tree = run := by
  intro pool types o file before run written
  have hok : run.result = .ok ⟨file ["out"], 4, 0, written⟩ := by decide +kernel
  exact ⟨hok, by decide, by decide +kernel, generate_generate hok⟩

end HaxeBindings
