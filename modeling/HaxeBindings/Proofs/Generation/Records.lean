import HaxeBindings.Proofs.ArityIndex.Definitions
import HaxeBindings.Proofs.Generation.Placement
import HaxeBindings.Proofs.Sorted.Exchange

/-!
# What is known of the externs written so far

A run writes its externs one after the other, and an extern replaces the one that was
written to its path before.  So what is left of a list of externs is read from its
end, and here the externs written so far are given latest first: the first one with a
path is the one that holds it.

`Written.Records` says what is known between two files: the owners, the files and the
reports, all read off the list of externs.  It is kept by every file (`Records.add`)
and so by a run of them (`Records.addAll`).

Owners and reports go by the path as it is written, files by the place it leads to.
-/

namespace HaxeBindings

open Text

/-! ## Reports -/

/-- Whether an event reports that an extern replaces another. -/
def Event.isReplacement : Event → Bool
  | overwritten _ _ _ => true
  | _ => false

section

variable (path : Rendered → Path)

/-- The report on an extern that replaces another, when those in front of it are given latest
first. -/
def replacement? (front : List Rendered) (r : Rendered) : Option Event :=
  (front.find? fun e => path e = path r).map fun e =>
    .overwritten r.nativeName e.nativeName (path r).text

/-- The reports on externs that replace others, when the externs are given latest first. -/
def replacements : List Rendered → List Event
  | [] => []
  | r :: front => replacements front ++ (replacement? path front r).toList

end

/-! ## One file -/

namespace Written

theorem map_fst_own (path : Path) (name : Text) (owners : List (Path × Text)) :
    (own path name owners).map Prod.fst =
      owners.map Prod.fst ++ if path ∈ owners.map Prod.fst then [] else [path] := by
  induction owners with
  | nil => rfl
  | cons o rest ih =>
    obtain ⟨p, n⟩ := o
    unfold own
    by_cases hp : p = path
    · subst hp
      rw [if_pos rfl, if_pos (by simp), List.append_nil]
      rfl
    · have hmem : path ∈ p :: rest.map Prod.fst ↔ path ∈ rest.map Prod.fst := by
        simp [Ne.symm hp]
      rw [if_neg hp, List.map_cons, ih, List.map_cons, List.cons_append]
      simp only [hmem]

theorem lookup_own (path p : Path) (name : Text) (owners : List (Path × Text)) :
    (own path name owners).lookup p = if p = path then some name else owners.lookup p := by
  induction owners with
  | nil => rw [own, lookup_cons_eq]
  | cons o rest ih =>
    obtain ⟨q, n⟩ := o
    unfold own
    by_cases hq : q = path
    · subst hq
      rw [if_pos rfl, lookup_cons_eq, lookup_cons_eq]
      split
      · rfl
      · rfl
    · rw [if_neg hq, lookup_cons_eq, lookup_cons_eq, ih]
      by_cases hpq : p = q
      · have hp : p ≠ path := fun h => hq (hpq.symm.trans h)
        rw [if_pos hpq, if_pos hpq, if_neg hp]
      · rw [if_neg hpq, if_neg hpq]

/-- Each extern adds a path to the written ones or a report. -/
theorem length_own_add (w : Written) (path : Path) (name : Text) :
    (own path name w.owners).length + (w.replacementNote path name).length =
      w.owners.length + 1 := by
  have hlength (owners : List (Path × Text)) : (own path name owners).length =
      if (owners.lookup path).isSome then owners.length else owners.length + 1 := by
    induction owners with
    | nil => rfl
    | cons o rest ih =>
      obtain ⟨p, n⟩ := o
      unfold own
      rw [lookup_cons_eq]
      by_cases hp : p = path
      · rw [if_pos hp, if_pos hp.symm]
        rfl
      · rw [if_neg hp, if_neg (Ne.symm hp), List.length_cons, List.length_cons, ih]
        split
        · rfl
        · rfl
  rw [hlength, replacementNote]
  cases w.owners.lookup path with
  | none => rfl
  | some previous => rfl

/-- A file that is placed is found at the place of its path, and no other file is touched. -/
theorem place_eq {tree : FileTree} {path : Path} {t : Text} (h : (place tree path t).error = none) :
    let after := (place tree path t).tree
    after.locate path = .ok path.place ∧ after.isDirectory path.place = false ∧
      tree.Grows after ∧
        ∀ l, after.file? l = if l = path.place then some (.text t) else tree.file? l := by
  obtain ⟨made, hfiles, hgrows, haccepts, hplace⟩ := place_eq_ok h
  have hput := haccepts.put path.place (.text t)
  rw [hplace]
  refine ⟨hput.located, hput.free, hgrows.trans (made.grows_put _ _), fun l => ?_⟩
  rw [FileTree.file?_put, FileTree.file?, FileTree.file?, hfiles]

/-! ## What is known between two files -/

/-- What has been written, when the externs written so far are `front`, latest first. -/
structure Records (path : Rendered → Path) (before : FileTree) (front : List Rendered)
    (w : Written) : Prop where
  owners : w.owners.map Prod.fst = Sorted.firstPerKey id (front.reverse.map path)
  owner : ∀ p, w.owners.lookup p = (front.find? fun r => path r = p).map Rendered.nativeName
  found : ∀ r ∈ front, w.tree.locate (path r) = .ok (path r).place ∧
    w.tree.isDirectory (path r).place = false
  grows : before.Grows w.tree
  file : ∀ l, w.tree.file? l =
    ((front.find? fun r => (path r).place = l).map fun r => .text r.text).or (before.file? l)
  log : w.log = replacements path front
  count : w.owners.length + w.log.length = front.length

variable {path : Rendered → Path} {before : FileTree} {front : List Rendered} {w w' : Written}

/-- Before the first file there may be new directories, but no other files. -/
theorem records_nil {tree : FileTree} (path : Rendered → Path) (hfiles : tree.files = before.files)
    (hgrows : before.Grows tree) : Records path before [] { tree } where
  owners := rfl
  owner _ := rfl
  found _ h := absurd h List.not_mem_nil
  grows := hgrows
  file l := congrArg (List.lookup l) hfiles
  log := rfl
  count := rfl

/-- **One more file.** -/
theorem Records.add (h : Records path before front w) {r : Rendered}
    (hadd : w.add (path r) r = (w', none)) : Records path before (r :: front) w' := by
  unfold Written.add at hadd
  simp only at hadd
  split at hadd
  · exact nomatch (Prod.mk.inj hadd).2
  · next herror =>
    obtain ⟨hlocate, hplain, hgrows, hfile⟩ := place_eq herror
    obtain ⟨rfl, -⟩ := Prod.mk.inj hadd
    have hlast {p : Rendered → Bool} : (r :: front).find? p = if p r then some r else front.find? p := by
      rw [List.find?_cons]
      cases p r with
      | true => rfl
      | false => rfl
    refine ⟨?_, fun p => ?_, ?_, h.grows.trans hgrows, fun l => ?_, ?_, ?_⟩
    · rw [map_fst_own, h.owners, List.reverse_cons, List.map_append, List.map_singleton,
        Sorted.firstPerKey_id_concat]
      simp only [Sorted.mem_firstPerKey_id]
    · rw [lookup_own, h.owner, hlast]
      by_cases hp : p = path r
      · rw [if_pos hp, if_pos (by simp [hp])]
        rfl
      · rw [if_neg hp, if_neg (by simpa using Ne.symm hp)]
    · rw [List.forall_mem_cons]
      refine ⟨⟨hlocate, hplain⟩, fun e he => ?_⟩
      obtain ⟨hfound, hfree⟩ := h.found e he
      have hwritten : (w.tree.file? (path e).place).isSome = true := by
        have hsome : (front.find? fun r => (path r).place = (path e).place).isSome = true :=
          List.find?_isSome.mpr ⟨e, he, by simp⟩
        rw [h.file, Option.isSome_or, Option.isSome_map, hsome, Bool.true_or]
      exact ⟨hgrows.locate hfound, hgrows.apart _ hwritten hfree⟩
    · rw [hfile, h.file, hlast]
      by_cases hl : l = (path r).place
      · rw [if_pos hl, if_pos (by simp [hl])]
        rfl
      · rw [if_neg hl, if_neg (by simpa using Ne.symm hl)]
    · rw [replacements, h.log, replacementNote, h.owner, replacement?]
      cases front.find? fun e => path e = path r with
      | none => rfl
      | some e => rfl
    · have hmore := length_own_add w (path r) r.nativeName
      rw [List.length_append, List.length_cons, ← h.count]
      dsimp only
      omega

/-- **All files of a run.** -/
theorem Records.addAll {root : Path} {extension : Text} {externs : List Rendered}
    (h : Records (·.outputPath root extension) before front w)
    (hall : addAll root extension w externs = (w', none)) :
    Records (·.outputPath root extension) before (externs.reverse ++ front) w' := by
  induction externs generalizing front w with
  | nil =>
    obtain ⟨rfl, -⟩ := Prod.mk.inj hall
    exact h
  | cons r rest ih =>
    unfold Written.addAll at hall
    split at hall
    · exact nomatch (Prod.mk.inj hall).2
    · next between hadd =>
      rw [List.reverse_cons, List.append_assoc]
      exact ih (h.add hadd) hall

/-- At the path of an extern one reads the last one that was written to its place. -/
theorem Records.read (h : Records path before front w) {r : Rendered} (hr : r ∈ front) :
    ∃ last, front.find? (fun e => (path e).place = (path r).place) = some last ∧
      w.tree.read (path r) = .ok (.text last.text) := by
  have hsome : (front.find? fun e => (path e).place = (path r).place).isSome = true :=
    List.find?_isSome.mpr ⟨r, hr, by simp⟩
  obtain ⟨last, hlast⟩ := Option.isSome_iff_exists.mp hsome
  obtain ⟨hlocate, hplain⟩ := h.found r hr
  have hfile : w.tree.file? (path r).place = some (.text last.text) := by
    rw [h.file, hlast]
    rfl
  exact ⟨last, hlast, FileTree.read_eq_ok_iff.mpr ⟨_, hlocate, hplain, hfile⟩⟩

end Written

end HaxeBindings
