import HaxeBindings.Generation.Pipeline
import HaxeBindings.Memo.Agreement
import HaxeBindings.Proofs.Mapping.Failures
import HaxeBindings.Proofs.Member.Emitted
import HaxeBindings.Proofs.Schema.Arity

/-!
# What one entry can do to a run

A run over a dump takes its entries one by one, and what is wrong with one of them
should not be felt by the others.  This file says how far that goes under the
default options.

* `renderTypes_result` --- once there is an arity index, the run returns, and it
  returns the files that its descriptors come to one by one;
* `exists_file_iff` --- a descriptor comes to a file exactly when it is not compiler
  generated and its types are mapped; nothing that is wrong with its types stops
  the run (`render_ne_stopped`);
* `ofTypes_isOk_iff` --- but the index is built before any descriptor is rendered, and
  from all of them: one generic definition whose arity marker cannot be read is
  enough that there is none;
* `renderDump_isolates` --- so a run over a dump returns exactly when the marker of
  every exported generic definition can be read;
* `renderDump_unreadable_marker` --- a dump with one good type for which it does not.
-/

namespace HaxeBindings

open Text Schema Name

/-! ## One descriptor -/

/-- The file of a rendering that has one. -/
def Rendering.file? : Rendering → Option Rendered
  | file r => some r
  | _ => none

theorem Rendering.file?_eq_some_iff {rendering : Rendering} {r : Rendered} :
    rendering.file? = some r ↔ rendering = .file r := by
  cases rendering with
  | file e => simp [file?]
  | skipped report => exact iff_of_false nofun nofun
  | stopped cause => exact iff_of_false nofun nofun

section

variable {m : Mapping}

theorem early?_eq_none_iff {d : Descriptor} :
    Rendering.early? d = none ↔ d.reportName ≠ [] ∧ isCompilerGenerated d.reportName = false := by
  unfold Rendering.early?
  rw [← Bool.not_eq_true, Ne, ← List.isEmpty_iff]
  split
  · next hempty => simp [hempty]
  · next hempty =>
    split
    · next hgenerated => simp [hgenerated]
    · next hgenerated => simp [hempty, hgenerated]

theorem exists_of_early? {d : Descriptor} {r : Rendering} (h : Rendering.early? d = some r) :
    ∃ report, r = .skipped report := by
  unfold Rendering.early? at h
  split at h
  · exact ⟨_, (Option.some_inj.mp h).symm⟩
  · split at h
    · exact ⟨_, (Option.some_inj.mp h).symm⟩
    · exact nomatch h

theorem exists_ofGroups (h : m.options.IsComplete) (d : Descriptor) (groups : List MemberGroup) :
    ∃ r, Rendering.ofGroups m.options d groups = .file r := by
  unfold Rendering.ofGroups
  rw [if_neg (by simp [Package.isUnnamable_of_named h.rootPackage])]
  have hsome : (d.className? m.options.defaultTypeName).isSome = true :=
    isSome_typeIdentifier? h.defaultTypeName _
  obtain ⟨className, hclass⟩ := Option.isSome_iff_exists.mp hsome
  rw [hclass]
  exact ⟨_, rfl⟩

theorem failsByArity_memberGroups (h : m.options.IsComplete) (d : Descriptor) :
    FailsByArity (memberGroups m.map m d) := by
  intro e he
  obtain ⟨t, -, ht⟩ := (asks_memberGroups m d).exists_of_error he
  exact Mapping.failsByArity_map h t e ht

/-- What a descriptor comes to when it is mapped, and when it cannot be. -/
theorem render_cases (h : m.options.IsComplete) (d : Descriptor) :
    ((∃ r, m.render d = .file r) ∧ d.reportName ≠ [] ∧ isCompilerGenerated d.reportName = false ∧
        ∀ t ∈ m.askedTypes d, m.Maps t) ∨
      ((∃ report, m.render d = .skipped report) ∧ ¬(d.reportName ≠ [] ∧
        isCompilerGenerated d.reportName = false ∧ ∀ t ∈ m.askedTypes d, m.Maps t)) := by
  unfold Mapping.render
  cases hearly : Rendering.early? d with
  | some r =>
    refine .inr ⟨exists_of_early? hearly, ?_⟩
    rintro ⟨hne, hplain, -⟩
    have hnone := early?_eq_none_iff.mpr ⟨hne, hplain⟩
    exact nomatch hearly.symm.trans hnone
  | none =>
    obtain ⟨hne, hplain⟩ := early?_eq_none_iff.mp hearly
    have hmaps := (asks_memberGroups m d).isOk_iff
    by_cases hall : ∀ t ∈ m.askedTypes d, m.Maps t
    · have hfile := exists_ofGroups h d (m.allGroupsOf d)
      rw [hmaps.mpr hall]
      exact .inl ⟨hfile, hne, hplain, hall⟩
    · obtain ⟨e, he⟩ := (asks_memberGroups m d).exists_error hall
      obtain ⟨cause, rfl⟩ := failsByArity_memberGroups h d e he
      rw [he]
      refine .inr ⟨⟨_, rfl⟩, ?_⟩
      rintro ⟨-, -, hmapped⟩
      exact hall hmapped

/-- **What is in the file of a descriptor**: its types are mapped, and its text is written from the
groups that come of that. -/
theorem of_render_eq_file {d : Descriptor} {r : Rendered} (h : m.render d = .file r) :
    (∀ t ∈ m.askedTypes d, m.Maps t) ∧ ∃ className,
      d.className? m.options.defaultTypeName = some className ∧
      r = {
        nativeName := d.reportName
        className
        package := Package.ofType m.options d.namespaceName
        text := (ExternFile.write m.options.indent className d
          (Package.ofType m.options d.namespaceName).name (m.allGroupsOf d)).text
        memberCount := (m.allGroupsOf d).foldr (fun g n => g.size + n) 0 } := by
  unfold Mapping.render at h
  split at h
  · next hearly =>
    obtain ⟨report, hreport⟩ := exists_of_early? hearly
    exact nomatch hreport.symm.trans h
  · by_cases hmaps : ∀ t ∈ m.askedTypes d, m.Maps t
    · rw [(asks_memberGroups m d).isOk_iff.mpr hmaps, Rendering.ofMembers, Rendering.ofGroups] at h
      split at h
      · exact nomatch h
      · split at h
        · exact nomatch h
        · next className hclass => exact ⟨hmaps, className, hclass, (Rendering.file.inj h).symm⟩
    · obtain ⟨e, he⟩ := (asks_memberGroups m d).exists_error hmaps
      rw [he] at h
      cases e with
      | arity cause => exact nomatch h
      | noTypeName => exact nomatch h
      | noRootPackage => exact nomatch h

/-- Nothing about one descriptor stops a run. -/
theorem render_ne_stopped (h : m.options.IsComplete) (d : Descriptor) (cause : MappingError) :
    m.render d ≠ .stopped cause := by
  rcases render_cases h d with ⟨⟨r, hr⟩, -⟩ | ⟨⟨report, hr⟩, -⟩
  · rw [hr]
    exact fun heq => nomatch heq
  · rw [hr]
    exact fun heq => nomatch heq

/-- **The descriptors that come to a file.** -/
theorem exists_file_iff (h : m.options.IsComplete) (d : Descriptor) :
    (∃ r, m.render d = .file r) ↔ d.reportName ≠ [] ∧ isCompilerGenerated d.reportName = false ∧
      ∀ t ∈ m.askedTypes d, m.Maps t := by
  rcases render_cases h d with ⟨hfile, hmapped⟩ | ⟨⟨report, hr⟩, hnot⟩
  · exact iff_of_true hfile hmapped
  · refine iff_of_false ?_ hnot
    rintro ⟨r, hfile⟩
    exact nomatch hr.symm.trans hfile

end

/-! ## One run -/

theorem ofRenderings_of_not_stopped {rs : List Rendering}
    (h : ∀ r ∈ rs, ∀ cause, r ≠ .stopped cause) :
    (Batch.ofRenderings rs).stop = none ∧
      (Batch.ofRenderings rs).externs = rs.filterMap Rendering.file? := by
  induction rs with
  | nil => exact ⟨rfl, rfl⟩
  | cons r rs ih =>
    obtain ⟨hstop, hexterns⟩ := ih fun r' hr' => h r' (List.mem_cons_of_mem r hr')
    cases r with
    | stopped cause => exact absurd rfl (h _ List.mem_cons_self cause)
    | file e =>
      refine ⟨hstop, ?_⟩
      rw [List.filterMap_cons_some (by rfl : (Rendering.file e).file? = some e), ← hexterns]
      rfl
    | skipped report =>
      refine ⟨hstop, ?_⟩
      rw [List.filterMap_cons_none (by rfl), ← hexterns]
      rfl

/-- A run that no descriptor stops returns the files of its descriptors, each as it is rendered
alone. -/
theorem renderTypes_of_not_stopped {o : Options} {types : List Descriptor} {m : Mapping}
    (hm : Mapping.ofTypes o types = .ok m)
    (h : ∀ d ∈ types, ∀ cause, m.render d ≠ .stopped cause) :
    (renderTypes o types).result = .ok (types.filterMap fun d => (m.render d).file?) := by
  have hrun : ∀ r ∈ types.map m.render, ∀ cause, r ≠ .stopped cause := by
    intro r hr cause
    obtain ⟨d, hd, rfl⟩ := List.mem_map.mp hr
    exact h d hd cause
  obtain ⟨hstop, hexterns⟩ := ofRenderings_of_not_stopped hrun
  unfold renderTypes
  simp only [hm, Mapping.renderAll_eq, hstop, hexterns, List.filterMap_map]
  rfl

/-- Once there is an index, a run with complete options returns the files of its descriptors. -/
theorem renderTypes_result {o : Options} {types : List Descriptor} {m : Mapping}
    (h : m.options.IsComplete) (hm : Mapping.ofTypes o types = .ok m) :
    (renderTypes o types).result = .ok (types.filterMap fun d => (m.render d).file?) :=
  renderTypes_of_not_stopped hm fun d _ => render_ne_stopped h d

/-! ## The index -/

theorem definition?_isOk_iff (d : Descriptor) :
    (∃ r, ArityIndex.definition? d = .ok r) ↔
      (d.isGenericDefinition = true → HasReadableArity d.baseName) := by
  rw [← splitArity_isOk_iff]
  unfold ArityIndex.definition?
  split
  · next hgeneric =>
    rw [forall_prop_of_true hgeneric]
    cases splitArity d.baseName with
    | ok r => exact iff_of_true ⟨_, rfl⟩ ⟨r, rfl⟩
    | error e => exact iff_of_false not_exists_ok not_exists_ok
  · next hplain => exact iff_of_true ⟨_, rfl⟩ fun hgeneric => absurd hgeneric hplain

/-- **There is an index exactly when the marker of every generic definition can be read.** -/
theorem ofTypes_isOk_iff (o : Options) (types : List Descriptor) :
    (∃ m, Mapping.ofTypes o types = .ok m) ↔
      ∀ d ∈ types, d.isGenericDefinition = true → HasReadableArity d.baseName := by
  have hindex : (∃ m, Mapping.ofTypes o types = .ok m) ↔
      ∃ definitions, types.mapM ArityIndex.definition? = .ok definitions := by
    unfold Mapping.ofTypes ArityIndex.ofTypes
    cases types.mapM ArityIndex.definition? with
    | ok definitions => exact iff_of_true ⟨_, rfl⟩ ⟨_, rfl⟩
    | error e => exact iff_of_false not_exists_ok not_exists_ok
  rw [hindex, mapM_isOk_iff]
  exact forall₂_congr fun d _ => definition?_isOk_iff d

/-- The mapping of a catalog has the index of the catalog and the options it was made with. -/
theorem ofTypes_eq_ok {o : Options} {types : List Descriptor} {m : Mapping}
    (h : Mapping.ofTypes o types = .ok m) :
    ArityIndex.ofTypes types = .ok m.index ∧ m.options = o := by
  unfold Mapping.ofTypes at h
  cases hindex : ArityIndex.ofTypes types with
  | error e =>
    rw [hindex] at h
    exact nomatch h
  | ok index =>
    rw [hindex] at h
    have heq : (⟨index, o⟩ : Mapping) = m := Except.ok.inj h
    rw [← heq]
    exact ⟨rfl, rfl⟩

theorem options_of_ofTypes {o : Options} {types : List Descriptor} {m : Mapping}
    (h : Mapping.ofTypes o types = .ok m) : m.options = o := (ofTypes_eq_ok h).2

/-! ## A run over a dump -/

/-- The descriptors of the exported types of a catalog. -/
def Catalog.descriptors (o : Options) (assemblies : List Catalog.Assembly) : List Descriptor :=
  Catalog.describeAll (Catalog.select o.rootNamespace assemblies).value

theorem reportName_ne_nil {o : Options} {assemblies : List Catalog.Assembly} {d : Descriptor}
    (h : d ∈ Catalog.descriptors o assemblies) : d.reportName ≠ [] := by
  have hblank : isBlankText d.fullName = false := by simpa using (List.mem_filter.mp h).2
  rw [Descriptor.reportName, if_neg (by simp [hblank])]
  simpa [isBlankText] using hblank

/-- What a run over an accepted dump returns is decided by its descriptors. -/
theorem renderDump_result (o : Options) (path : Text) {dump : Json}
    {catalog : Logged (List Catalog.Assembly)} (h : Catalog.ofJson dump = .ok catalog) :
    (renderDump o ((Catalog.ofJson dump).mapError (Failure.notADump path))).result =
      (renderTypes o (Catalog.descriptors o catalog.value)).result := by
  rw [h]
  rfl

/-- **One entry is felt by the others only through the index.**  Over a dump that is accepted, a run
returns exactly when the arity marker of every exported generic definition can be read, and fails
for nothing else.  Where it returns, each exported type is rendered as it is rendered alone, and
it has a file unless it is compiler generated or one of its own types is not mapped. -/
theorem renderDump_isolates (path : Text) {dump : Json} {catalog : Logged (List Catalog.Assembly)}
    (h : Catalog.ofJson dump = .ok catalog) :
    let types := Catalog.descriptors {} catalog.value
    let run := renderDump {} ((Catalog.ofJson dump).mapError (Failure.notADump path))
    ((∃ externs, run.result = .ok externs) ↔
      ∀ d ∈ types, d.isGenericDefinition = true → HasReadableArity d.baseName) ∧
    (∀ failure, run.result = .error failure → ∃ cause, failure = .unreadableNumber cause) ∧
    ∀ externs, run.result = .ok externs → ∃ m, Mapping.ofTypes {} types = .ok m ∧
      externs = types.filterMap (fun d => (m.render d).file?) ∧
      ∀ d ∈ types, (∃ r, m.render d = .file r) ↔
        isCompilerGenerated d.reportName = false ∧ ∀ t ∈ m.askedTypes d, m.Maps t := by
  intro types run
  have hrun : run.result = (renderTypes {} types).result := renderDump_result {} path h
  rw [← ofTypes_isOk_iff {} types, hrun]
  cases hm : Mapping.ofTypes {} types with
  | error cause =>
    have hfails : (renderTypes {} types).result = .error (.unreadableNumber cause) := by
      unfold renderTypes
      rw [hm]
    rw [hfails]
    refine ⟨iff_of_false not_exists_ok not_exists_ok, fun failure hfailure => ?_,
      fun externs hok => nomatch hok⟩
    exact ⟨cause, (Except.error.inj hfailure).symm⟩
  | ok m =>
    have hcomplete : m.options.IsComplete := by
      rw [options_of_ofTypes hm]
      exact Options.isComplete_default
    rw [renderTypes_result hcomplete hm]
    refine ⟨iff_of_true ⟨_, rfl⟩ ⟨m, rfl⟩, fun failure hfailure => (nomatch hfailure),
      fun externs hok => ⟨m, rfl, (Except.ok.inj hok).symm, fun d hd => ?_⟩⟩
    rw [exists_file_iff hcomplete d, and_iff_right (reportName_ne_nil hd)]

/-- A dump with one assembly below the root namespace. -/
def dumpOf (types : List Json) : Json :=
  .object [("assemblies".toList, .array [.object [("name".toList, .string "Sandbox.Engine".toList),
    ("types".toList, .array types)]])]

/-- The entry of a type with a full name and the given further fields. -/
def entryOf (fullName : Text) (fields : List (Text × Json)) : Json :=
  .object (("full_name".toList, .string fullName) :: fields)

/-- Generic definitions, of which one has a marker that is no number, are no obstacle to a run. -/
theorem renderDump_isolates_pool :
    let parameters := [("generic_parameters".toList, Json.array [.string ['T']])]
    let dump := dumpOf [entryOf ("Sandbox.Pool".toList ++ [arityMark, '1']) parameters,
      entryOf ("Sandbox.Pool".toList ++ [arityMark, 'x']) parameters]
    ∃ catalog, Catalog.ofJson dump = .ok catalog ∧
      (∀ d ∈ Catalog.descriptors {} catalog.value,
        d.isGenericDefinition = true → HasReadableArity d.baseName) ∧
      ∃ externs, (renderDump {} ((Catalog.ofJson dump).mapError
        (Failure.notADump "dump.json".toList))).result = .ok externs := by
  intro parameters dump
  obtain ⟨catalog, hcatalog, hreadable⟩ : ∃ catalog, Catalog.ofJson dump = .ok catalog ∧
      ∀ d ∈ Catalog.descriptors {} catalog.value,
        d.isGenericDefinition = true → HasReadableArity d.baseName :=
    ⟨_, rfl, by decide +kernel⟩
  exact ⟨catalog, hcatalog, hreadable,
    (renderDump_isolates "dump.json".toList hcatalog).1.mpr hreadable⟩

/-- **A superscript in the marker of one definition costs every type its file.**  The dump is
accepted, and its other type is rendered as long as the definition is not there. -/
theorem renderDump_unreadable_marker :
    let superscript := Char.ofNat 0xB2
    let pool := entryOf ("Sandbox.Pool".toList ++ [arityMark, superscript])
      [("generic_parameters".toList, Json.array [.string ['T']])]
    let good := entryOf "Sandbox.Good".toList []
    let run (types : List Json) := (renderDump {} ((Catalog.ofJson (dumpOf types)).mapError
      (Failure.notADump "dump.json".toList))).result
    run [pool, good] = .error (.unreadableNumber (.notPositional [superscript])) ∧
      (run [good]).toOption.map (fun externs => externs.map Rendered.nativeName) =
        some ["Sandbox.Good".toList] := by
  intro superscript pool good run
  constructor
  · decide +kernel
  · decide +kernel

end HaxeBindings
