import HaxeBindings.Proofs.Generation.OutputPath
import HaxeBindings.Proofs.Generation.Records
import Mathlib.Algebra.GroupWithZero.Nat
import Mathlib.Data.List.Find

/-!
# What a run writes

* `Run.Leaves` --- what a run that returns leaves of its externs: the written paths, the
  files, the counts and the reports (`generate_written`);
* `generate_aliased` --- two paths that lead to one file, where the file holds the last
  extern of one of them only.

## Paths and places

A path with double dots in it may lead to the place of another one.  Directories hold
no dots and the output root is common to all paths, so that takes a file name with a
slash in it; if neither the extension nor the default class name has one, different
paths lead to different places (`place_outputPath_injective`).
-/

namespace HaxeBindings

open Text

/-! ## The log of a run -/

theorem mem_log_ofRenderings {rs : List Rendering} {e : Event}
    (h : e ∈ (Batch.ofRenderings rs).log) : ∃ r ∈ rs, e ∈ r.log := by
  induction rs with
  | nil => exact absurd h List.not_mem_nil
  | cons r rest ih =>
    have hcons (hmem : e ∈ r.log ++ (Batch.ofRenderings rest).log) :
        ∃ r' ∈ r :: rest, e ∈ r'.log := by
      rcases List.mem_append.mp hmem with hmem | hmem
      · exact ⟨r, List.mem_cons_self, hmem⟩
      · obtain ⟨r', hr', he⟩ := ih hmem
        exact ⟨r', List.mem_cons_of_mem r hr', he⟩
    cases r with
    | file f => exact hcons h
    | skipped report => exact hcons h
    | stopped cause => exact absurd h List.not_mem_nil

/-- Rendering a descriptor replaces nothing. -/
theorem isReplacement_of_mem_log {m : Mapping} {d : Descriptor} {e : Event}
    (h : e ∈ (m.render d).log) : e.isReplacement = false := by
  unfold Mapping.render at h
  split at h
  · next early hearly =>
    unfold Rendering.early? at hearly
    split at hearly
    · rw [← Option.some_inj.mp hearly] at h
      exact absurd h List.not_mem_nil
    · split at hearly
      · rw [← Option.some_inj.mp hearly] at h
        rw [List.mem_singleton.mp h]
        rfl
      · exact nomatch hearly
  · unfold Rendering.ofMembers at h
    split at h
    · unfold Rendering.ofGroups at h
      split at h
      · exact absurd h List.not_mem_nil
      · split at h
        · exact absurd h List.not_mem_nil
        · rw [List.mem_singleton.mp h]
          rfl
    · rw [List.mem_singleton.mp h]
      rfl
    · exact absurd h List.not_mem_nil

/-- **A run reports no replacement before it writes.** -/
theorem filter_isReplacement_renderTypes (o : Options) (types : List Descriptor) :
    (renderTypes o types).log.filter Event.isReplacement = [] := by
  refine List.filter_eq_nil_iff.mpr fun e he => ?_
  unfold renderTypes at he
  cases hm : Mapping.ofTypes o types with
  | error cause =>
    rw [hm] at he
    exact absurd he List.not_mem_nil
  | ok m =>
    have hbatch : e ∈ (m.renderAll types).log := by
      rw [hm] at he
      simp only at he
      split at he
      · exact he
      · exact he
    rw [Mapping.renderAll_eq] at hbatch
    obtain ⟨r, hr, he⟩ := mem_log_ofRenderings hbatch
    obtain ⟨d, -, rfl⟩ := List.mem_map.mp hr
    rw [isReplacement_of_mem_log he]
    exact Bool.false_ne_true

theorem filter_isReplacement_replacements (path : Rendered → Path) (front : List Rendered) :
    (replacements path front).filter Event.isReplacement = replacements path front := by
  induction front with
  | nil => rfl
  | cons r front ih =>
    rw [replacements, List.filter_append, ih, replacement?]
    cases front.find? fun e => path e = path r with
    | none => rfl
    | some e => rfl

/-! ## A run -/

/-- What a run leaves when it writes its externs to the given paths. -/
structure Run.Leaves (path : Rendered → Path) (before : FileTree) (externs : List Rendered)
    (s : Summary) (run : Run) : Prop where
  written : s.written = Sorted.firstPerKey id (externs.map path)
  /-- At a written path one reads the last extern whose path leads to the same place. -/
  last : ∀ p ∈ s.written, ∃ r, externs.reverse.find? (fun e => (path e).place = p.place) = some r ∧
    run.tree.read p = .ok (.text r.text)
  unchanged : ∀ l, (∀ r ∈ externs, (path r).place ≠ l) → run.tree.file? l = before.file? l
  kept : ∀ p c, before.read p = .ok c → ∃ c', run.tree.read p = .ok c'
  typeCount : s.typeCount = externs.length
  memberCount : s.memberCount = (externs.map Rendered.memberCount).sum
  reports : run.log.filter Event.isReplacement = replacements path externs.reverse
  count : (run.log.filter Event.isReplacement).length + s.written.length = s.typeCount

/-- A run that returns has rendered its externs and written them all. -/
theorem generate_eq_ok {o : Options} {types : List Descriptor} {out : Text} {before : FileTree}
    {s : Summary} (h : (generate o types out before).result = .ok s) :
    let root := Path.ofText out
    ∃ externs w, (renderTypes o types).result = .ok externs ∧
      w.Records (·.outputPath root o.extension) before externs.reverse ∧
      generate o types out before = ⟨.ok (.ofExterns root externs w),
        (renderTypes o types).log ++ w.log ++ [.finished s.typeCount s.memberCount], w.tree⟩ := by
  intro root
  obtain ⟨made, externs, w, hnamed, hroot, hrendered, hall⟩ := exists_addAll_of_generate h
  have hmade := before.makeDirectories_grows root
  rw [hroot] at hmade
  have hrecords := (Written.records_nil _ hmade.1 hmade.2).addAll hall
  rw [List.append_nil] at hrecords
  have hrun := generate_of_addAll hnamed hroot hrendered hall
  obtain rfl : Summary.ofExterns root externs w = s := by
    rw [hrun] at h
    exact Except.ok.inj h
  exact ⟨externs, w, hrendered, hrecords, hrun⟩

/-- What the records of a run say about the run. -/
theorem Written.Records.leaves {path : Rendered → Path} {before : FileTree} {root : Path}
    {externs : List Rendered} {w : Written} {log : List Event} {types members : Nat}
    (h : w.Records path before externs.reverse) (hlog : log.filter Event.isReplacement = []) :
    let s := Summary.ofExterns root externs w
    Run.Leaves path before externs s ⟨.ok s, log ++ w.log ++ [Event.finished types members], w.tree⟩ := by
  intro s
  have hreports : (log ++ w.log ++ [Event.finished types members]).filter Event.isReplacement =
      replacements path externs.reverse := by
    have hfinished : [Event.finished types members].filter Event.isReplacement = [] := rfl
    rw [List.filter_append, List.filter_append, hlog, hfinished, List.nil_append, List.append_nil,
      h.log, filter_isReplacement_replacements]
  have hwritten : s.written = Sorted.firstPerKey id (externs.map path) := by
    rw [← List.reverse_reverse externs]
    exact h.owners
  refine ⟨hwritten, fun p hp => ?_, fun l hl => ?_, fun p c => h.grows.read, rfl, ?_, hreports, ?_⟩
  · rw [hwritten, Sorted.mem_firstPerKey_id] at hp
    obtain ⟨r, hr, rfl⟩ := List.mem_map.mp hp
    exact h.read (List.mem_reverse.mpr hr)
  · have hnone : (externs.reverse.find? fun r => (path r).place = l) = none := by
      simpa using hl
    rw [h.file, hnone]
    rfl
  · show externs.foldr (fun r n => r.memberCount + n) 0 = _
    rw [List.sum_eq_foldr, List.foldr_map]
  · have hcount := h.count
    have hlength : s.written.length = w.owners.length := List.length_map _
    rw [List.length_reverse] at hcount
    rw [hreports, ← h.log, hlength, Nat.add_comm]
    exact hcount

/-! ## Paths and places -/

namespace Rendered

variable {r : Rendered} {extension : Text}

/-- Behind the output root stand the names of the directory and of the file. -/
theorem mem_names_behind {root : Path} {names : List Text} (hne : r.className ≠ [])
    (hclass : '/' ∉ r.className) (hextension : '/' ∉ extension)
    (hbehind : r.outputPath root extension = ⟨root.anchor, root.names ++ names⟩) {name : Text}
    (hname : name ∈ names) :
    name ∈ (Path.ofText r.package.directory).names ∨ name = r.fileName extension := by
  rw [outputPath_eq hne hclass hextension] at hbehind
  have hnames := congrArg Path.names hbehind
  simp only at hnames
  by_cases hanchored : r.package.directory.head? = some '/'
  · rw [Path.join_of_anchored hanchored] at hnames
    have hmem : name ∈ (Path.ofText r.package.directory).names ++ [r.fileName extension] := by
      rw [hnames]
      exact List.mem_append_right _ hname
    exact (List.mem_append.mp hmem).imp_right List.mem_singleton.mp
  · rw [Path.join_of_relative hanchored, List.append_assoc] at hnames
    rw [← List.append_cancel_left hnames] at hname
    exact (List.mem_append.mp hname).imp_right List.mem_singleton.mp

/-- A file name that could be written to does not lead up. -/
theorem fileName_ne_up {tree : FileTree} {root : Path} {l : Location} (hne : r.className ≠ [])
    (hclass : '/' ∉ r.className) (hextension : '/' ∉ extension)
    (hlocate : tree.locate (r.outputPath root extension) = .ok l)
    (hplain : tree.isDirectory l = false) : r.fileName extension ≠ Location.up := by
  intro hup
  have hlast : (r.outputPath root extension).names.getLast? = some Location.up := by
    rw [outputPath_eq hne hclass hextension, List.getLast?_concat, hup]
  rw [FileTree.isDirectory_up hlocate hlast] at hplain
  exact nomatch hplain

end Rendered

/-- An extern of a run has a class name, its directory has no dot, and if the default class name has
no slash, its class name has none. -/
theorem names_of_mem_renderTypes {o : Options} {types : List Descriptor} {externs : List Rendered}
    (h : (renderTypes o types).result = .ok externs) {r : Rendered} (hr : r ∈ externs) :
    r.className ≠ [] ∧ ('/' ∉ o.defaultTypeName → '/' ∉ r.className) ∧
      '.' ∉ r.package.directory := by
  obtain ⟨m, hm, rfl⟩ := renderTypes_eq_ok h
  obtain ⟨d, -, hfile⟩ := List.mem_filterMap.mp hr
  obtain ⟨hpackage, hclass⟩ := Mapping.render_eq_file (Rendering.file?_eq_some_iff.mp hfile)
  rw [options_of_ofTypes hm] at hpackage hclass
  obtain ⟨hne, hchars⟩ := mem_of_typeIdentifier? hclass
  refine ⟨hne, fun hdefault hslash => ?_, ?_⟩
  · rcases hchars '/' hslash with hidentifier | hmem
    · exact absurd hidentifier (by decide)
    · exact hdefault hmem
  · rw [hpackage]
    exact Package.no_dot_directory o d.namespaceName

/-- **Different paths lead to different places**, when files were written to both. -/
theorem place_outputPath_injective {o : Options} {types : List Descriptor} {externs : List Rendered}
    {root : Path} {before : FileTree} {w : Written}
    (h : (renderTypes o types).result = .ok externs)
    (hrecords : w.Records (·.outputPath root o.extension) before externs.reverse)
    (hextension : '/' ∉ o.extension) (hdefault : '/' ∉ o.defaultTypeName)
    (hbehind : ∀ r ∈ externs, (r.outputPath root o.extension).Continues root)
    {r e : Rendered} (hr : r ∈ externs) (he : e ∈ externs)
    (hplace : (e.outputPath root o.extension).place = (r.outputPath root o.extension).place) :
    e.outputPath root o.extension = r.outputPath root o.extension := by
  have hplain : ∀ x ∈ externs, ∃ names, (∀ name ∈ names, name ≠ Location.up) ∧
      x.outputPath root o.extension = ⟨root.anchor, root.names ++ names⟩ := by
    intro x hx
    obtain ⟨names, hnames⟩ := hbehind x hx
    obtain ⟨hne, hclass, hdot⟩ := names_of_mem_renderTypes h hx
    obtain ⟨hlocate, hfree⟩ := hrecords.found x (List.mem_reverse.mpr hx)
    refine ⟨names, fun name hname => ?_, hnames⟩
    rcases Rendered.mem_names_behind hne (hclass hdefault) hextension hnames hname with
      hdirectory | rfl
    · exact (Path.isEntry_of_mem_names hdot hdirectory).ne_up
    · exact Rendered.fileName_ne_up hne (hclass hdefault) hextension hlocate hfree
  obtain ⟨names, hnames, hr⟩ := hplain r hr
  obtain ⟨others, hothers, he⟩ := hplain e he
  rw [hr, he] at hplace ⊢
  rw [Path.place_injective hothers hnames hplace]

/-! ## The written tree -/

/-- **What a run has written.**  A run that returns writes the paths of its externs, each once and
in the order of their first occurrence.  At each path one reads the last extern whose path leads to
the same place; no other file changes and none goes away.  The summary counts the externs and their
members, and the log has a report for every extern that is not the first with its path, which names
the one before it.  If neither the extension nor the default class name has a slash in it and all
paths continue the output root, then what one reads at a path is the last extern with that path. -/
theorem generate_written {o : Options} {types : List Descriptor} {out : Text} {before : FileTree}
    {s : Summary} (h : (generate o types out before).result = .ok s) :
    let root := Path.ofText out
    let path (r : Rendered) := r.outputPath root o.extension
    let run := generate o types out before
    ∃ externs, (renderTypes o types).result = .ok externs ∧ run.Leaves path before externs s ∧
      ('/' ∉ o.extension → '/' ∉ o.defaultTypeName →
        (∀ r ∈ externs, (path r).Continues root) →
        ∀ p ∈ s.written, ∃ r, externs.reverse.find? (fun e => path e = p) = some r ∧
          run.tree.read p = .ok (.text r.text)) := by
  intro root path run
  obtain ⟨externs, w, hexterns, hrecords, hrun⟩ := generate_eq_ok h
  have hleaves : run.Leaves path before externs s := by
    show (generate o types out before).Leaves path before externs s
    rw [hrun] at h ⊢
    rw [← Except.ok.inj h]
    exact hrecords.leaves (filter_isReplacement_renderTypes o types)
  refine ⟨externs, hexterns, hleaves, fun hextension hdefault hbehind p hp => ?_⟩
  obtain ⟨r, hr, hread⟩ := hleaves.last p hp
  refine ⟨r, ?_, hread⟩
  rw [hleaves.written, Sorted.mem_firstPerKey_id] at hp
  obtain ⟨e, he, rfl⟩ := List.mem_map.mp hp
  rw [← hr]
  refine List.find?_congr fun x hx => decide_eq_decide.mpr ⟨congrArg Path.place, fun hplace => ?_⟩
  exact place_outputPath_injective hexterns hrecords hextension hdefault hbehind he
    (List.mem_reverse.mp hx) hplace

/-- Two definitions of one generic share a file, and a third type replaces a file that was there. -/
theorem generate_written_pool :
    let pool := "Sandbox.Pool".toList ++ [arityMark]
    let types : List Descriptor :=
      [{ fullName := pool ++ "1<T>".toList, genericParameters := [['T']] },
       { fullName := "Sandbox.User".toList },
       { fullName := pool ++ "2<T,U>".toList, genericParameters := [['T'], ['U']] }]
    let o : Options := {}
    let root : Path := ⟨.current, ["out".toList]⟩
    let file (name : String) : Path := ⟨.current, ["out".toList, name.toList]⟩
    let before : FileTree :=
      { directories := [root.place], files := [((file "User.hx").place, .text "old".toList)] }
    let run := generate o types "out".toList before
    ∃ s externs, run.result = .ok s ∧ (renderTypes o types).result = .ok externs ∧
      '/' ∉ o.extension ∧ '/' ∉ o.defaultTypeName ∧
      (∀ r ∈ externs, (r.outputPath root o.extension).Continues root) ∧
      s.written = [file "Pool.hx", file "User.hx"] ∧
      (run.log.filter Event.isReplacement).length = 1 ∧
      ∃ r, externs.reverse.head? = some r ∧ run.tree.read (file "Pool.hx") = .ok (.text r.text) := by
  intro pool types o root file before run
  let bare := Rendered.bare ⟨"sbox".toList, []⟩
  let externs := [bare (pool ++ "1<T>".toList) "Pool".toList "Pool<T>".toList,
    bare "Sandbox.User".toList "User".toList "User".toList,
    bare (pool ++ "2<T,U>".toList) "Pool".toList "Pool<T,U>".toList]
  let s : Summary := ⟨root, 3, 0, [file "Pool.hx", file "User.hx"]⟩
  have hok : run.result = .ok s := by decide +kernel
  have hrendered : (renderTypes o types).result = .ok externs := by decide +kernel
  have hextension : '/' ∉ o.extension := by decide
  have hdefault : '/' ∉ o.defaultTypeName := by decide
  have hbehind : ∀ r ∈ externs, (r.outputPath root o.extension).Continues root := by
    intro r hr
    obtain ⟨names, hnames⟩ : ∃ names, r.outputPath root o.extension =
        ⟨.current, "out".toList :: names⟩ := by
      refine ⟨(r.outputPath root o.extension).names.tail, ?_⟩
      revert r
      decide
    exact ⟨names, hnames⟩
  obtain ⟨others, hothers, hleaves, hlast⟩ := generate_written hok
  obtain rfl : externs = others := Except.ok.inj (hrendered.symm.trans hothers)
  obtain ⟨r, hr, hread⟩ := hlast hextension hdefault hbehind (file "Pool.hx") List.mem_cons_self
  have hcount : (run.log.filter Event.isReplacement).length + 2 = 3 := hleaves.count
  refine ⟨s, externs, hok, hrendered, hextension, hdefault, hbehind, rfl, by omega, r, ?_, hread⟩
  rw [← hr]
  decide

/-- **A slash in the default class name lets two paths lead to one file.**  Both are below the output
root, and the extern at the first one is lost without a report. -/
theorem generate_aliased :
    let types : List Descriptor :=
      [{ fullName := "Sandbox.!".toList }, { fullName := "Sandbox.x".toList }]
    let o : Options := { defaultTypeName := "sub/../x".toList }
    let root : Path := ⟨.current, ["out".toList]⟩
    let path (r : Rendered) := r.outputPath root o.extension
    let run := generate o types "out".toList {}
    ∃ s externs, run.result = .ok s ∧ (renderTypes o types).result = .ok externs ∧
      '/' ∉ o.extension ∧ (∀ r ∈ externs, (path r).Continues root) ∧
      run.log.filter Event.isReplacement = [] ∧
      ∃ p ∈ s.written, ∃ r, externs.reverse.find? (fun e => path e = p) = some r ∧
        run.tree.read p ≠ .ok (.text r.text) := by
  intro types o root path run
  let first := Rendered.bare ⟨"sbox".toList, []⟩ "Sandbox.!".toList o.defaultTypeName
    o.defaultTypeName
  let second := Rendered.bare ⟨"sbox".toList, []⟩ "Sandbox.x".toList ['x'] ['x']
  let aliased : Path := ⟨.current, ["out".toList, "sub".toList, Location.up, "x.hx".toList]⟩
  let plain : Path := ⟨.current, ["out".toList, "x.hx".toList]⟩
  have hfirst : path first = aliased := by decide
  have hsecond : path second = plain := by decide
  refine ⟨⟨root, 2, 0, [aliased, plain]⟩, [first, second], by decide +kernel, by decide +kernel,
    by decide, ?_, by decide +kernel, aliased, List.mem_cons_self, first, by decide,
    by decide +kernel⟩
  refine List.forall_mem_cons.mpr ⟨⟨_, hfirst⟩, List.forall_mem_singleton.mpr ⟨_, hsecond⟩⟩

end HaxeBindings
