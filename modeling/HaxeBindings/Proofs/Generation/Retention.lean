import HaxeBindings.Proofs.Catalog.Loaded
import HaxeBindings.Proofs.Generation.Isolation
import HaxeBindings.Proofs.Name.CompilerGenerated

/-!
# No selected type is left out later

Compiler generated types are left out when the types of a dump are selected, by their names in the
host, and once more when a descriptor is rendered, by its canonical name.  A type that passes the
first filter passes the second (`early?_describe`): its canonical name is the host's name with dots
for plus signs, and the parameter list of a generic definition behind it.

The parameters must be words, and the name must not end in a separator (`HasPlainParameters`): a
dollar sign in a parameter, or a dot in front of the list, are marks of a generated name.

What is left is the mapping of the types in a descriptor.  A run that reports no failure there has
one file for each such type, in the order of the selection (`renderDump_retains`).
-/

namespace HaxeBindings

open Text Schema Name

namespace Catalog

/-! ## The canonical name -/

/-- Whether the canonical name of a type shows nothing but its name and the words that are its
generic parameters. -/
def TypeEntry.HasPlainParameters (t : TypeEntry) : Prop :=
  (∀ parameter ∈ t.genericParameters, parameter.all isIdentifierChar = true) ∧
    (t.genericParameters ≠ [] → t.fullName.getLast? ≠ some '.' ∧ t.fullName.getLast? ≠ some '+')

instance (t : TypeEntry) : Decidable t.HasPlainParameters :=
  inferInstanceAs (Decidable (_ ∧ _))

variable {t : TypeEntry}

theorem strip_canonicalName (hne : t.fullName ≠ []) (htrim : strip t.fullName = t.fullName) :
    strip t.canonicalName = t.canonicalName := by
  have hdotted : dotted t.fullName ≠ [] := mt List.map_eq_nil_iff.mp hne
  unfold TypeEntry.canonicalName
  split
  · exact strip_dotted htrim
  · exact strip_applied hdotted (strip_dotted htrim) _

/-- **The second filter agrees with the first.** -/
theorem isCompilerGenerated_canonicalName (hne : t.fullName ≠ [])
    (hname : isCompilerGenerated t.fullName = false) (h : t.HasPlainParameters) :
    isCompilerGenerated t.canonicalName = false := by
  unfold TypeEntry.canonicalName
  split
  · exact isCompilerGenerated_dotted hname
  · next hgeneric =>
    obtain ⟨hdot, hplus⟩ := h.2 (mt List.isEmpty_iff.mpr hgeneric)
    have hlast : ∀ sep, sep = '.' ∨ sep = '+' → (dotted t.fullName).getLast? ≠ some sep := by
      rintro sep hsep heq
      obtain ⟨c, hc, ⟨rfl, -⟩ | ⟨rfl, hsep'⟩⟩ := getLast?_dotted heq
      · exact hplus hc
      · exact hdot (hsep.resolve_right hsep' ▸ hc)
    refine isCompilerGenerated_applied (isCompilerGenerated_dotted hname)
      (mt List.map_eq_nil_iff.mp hne) (hlast '.' (.inl rfl)) (hlast '+' (.inr rfl)) fun c hc => ?_
    obtain hcomma | ⟨parameter, hparameter, hc⟩ := mem_join hc
    · exact .inr (List.mem_singleton.mp hcomma)
    · exact .inl (List.all_eq_true.mp (h.1 parameter hparameter) c hc)

variable {dump : Json} {catalog : Logged (List Assembly)} {root : Text}

theorem reportName_describe (hload : ofJson dump = .ok catalog)
    (ht : t ∈ (select root catalog.value).value) :
    t.describe.reportName = t.canonicalName := by
  obtain ⟨hne, htrim⟩ := fullName_of_mem_select hload ht
  have hname : t.describe.fullName = t.canonicalName := rfl
  rw [Descriptor.reportName, hname, not_isBlankText_canonicalName hne htrim,
    strip_canonicalName hne htrim]
  rfl

/-- A selected type is worth mapping. -/
theorem early?_describe (hload : ofJson dump = .ok catalog)
    (ht : t ∈ (select root catalog.value).value) (h : t.HasPlainParameters) :
    Rendering.early? t.describe = none := by
  obtain ⟨hne, htrim⟩ := fullName_of_mem_select hload ht
  have hname : isCompilerGenerated t.fullName = false := by
    have hexportable := (of_mem_select ht).2
    simp only [TypeEntry.isExportable, TypeEntry.isGenerated, Bool.and_eq_true,
      Bool.not_eq_true', Bool.or_eq_false_iff] at hexportable
    exact hexportable.1.2.2
  refine early?_eq_none_iff.mpr ?_
  rw [reportName_describe hload ht]
  refine ⟨?_, isCompilerGenerated_canonicalName hne hname h⟩
  intro hnil
  have hblank := not_isBlankText_canonicalName hne htrim
  rw [hnil] at hblank
  exact nomatch hblank

end Catalog

/-! ## Rendering -/

/-- A descriptor that is worth mapping is skipped for a type that is not mapped only. -/
theorem eq_unmappable_of_render {m : Mapping} {d : Descriptor} {report : Option Event}
    (hearly : Rendering.early? d = none) (h : m.render d = .skipped report) :
    ∃ cause, report = some (.unmappable d.reportName cause) := by
  have hrender : m.render d = .ofMembers m.options d (memberGroups m.map m d) := by
    rw [Mapping.render, hearly]
  rw [hrender] at h
  cases hgroups : memberGroups m.map m d with
  | ok groups =>
    rw [hgroups, Rendering.ofMembers, Rendering.ofGroups] at h
    split at h
    · cases h
    · split at h
      · cases h
      · cases h
  | error e =>
    rw [hgroups] at h
    cases e with
    | arity cause => exact ⟨cause, (Rendering.skipped.inj h).symm⟩
    | noTypeName => cases h
    | noRootPackage => cases h

/-- A batch that nothing stops reports what its renderings report. -/
theorem log_ofRenderings {rs : List Rendering} (h : ∀ r ∈ rs, ∀ cause, r ≠ .stopped cause) :
    (Batch.ofRenderings rs).log = rs.flatMap Rendering.log := by
  induction rs with
  | nil => rfl
  | cons r rs ih =>
    have hrest := ih fun r' hr' => h r' (List.mem_cons_of_mem r hr')
    rw [List.flatMap_cons, ← hrest]
    cases r with
    | stopped cause => exact absurd rfl (h _ List.mem_cons_self cause)
    | file e => rfl
    | skipped report => rfl

/-- Once there is an index, a run with complete options reports what its descriptors report. -/
theorem mem_log_renderTypes {o : Options} {types : List Descriptor} {m : Mapping}
    (hcomplete : m.options.IsComplete) (hm : Mapping.ofTypes o types = .ok m) {d : Descriptor}
    (hd : d ∈ types) {event : Event} (h : event ∈ (m.render d).log) :
    event ∈ (renderTypes o types).log := by
  have hrun : ∀ r ∈ types.map m.render, ∀ cause, r ≠ .stopped cause := by
    intro r hr cause
    obtain ⟨d, -, rfl⟩ := List.mem_map.mp hr
    exact render_ne_stopped hcomplete d cause
  have hmem : event ∈ (Batch.ofRenderings (types.map m.render)).log := by
    rw [log_ofRenderings hrun]
    exact List.mem_flatMap.mpr ⟨_, List.mem_map_of_mem hd, h⟩
  unfold renderTypes
  simp only [hm, Mapping.renderAll_eq, (ofRenderings_of_not_stopped hrun).1]
  exact hmem

/-- A descriptor that is worth mapping has a file unless the run reports that it is not mapped. -/
theorem exists_file_of_not_reported {o : Options} {types : List Descriptor} {m : Mapping}
    (hcomplete : m.options.IsComplete) (hm : Mapping.ofTypes o types = .ok m) {d : Descriptor}
    (hd : d ∈ types) (hearly : Rendering.early? d = none)
    (hmapped : ∀ cause, .unmappable d.reportName cause ∉ (renderTypes o types).log) :
    ∃ r, m.render d = .file r ∧ r.nativeName = d.reportName := by
  rcases render_cases hcomplete d with ⟨⟨r, hr⟩, -⟩ | ⟨⟨report, hreport⟩, -⟩
  · obtain ⟨-, className, -, rfl⟩ := of_render_eq_file hr
    exact ⟨_, hr, rfl⟩
  · obtain ⟨cause, rfl⟩ := eq_unmappable_of_render hearly hreport
    refine absurd (mem_log_renderTypes hcomplete hm hd ?_) (hmapped cause)
    rw [hreport]
    exact List.mem_singleton_self _

/-! ## A run over a dump -/

/-- **No selected type is left out later.**  Whatever the mapping, a selected type with plain
parameters is not skipped for its name.  Under the default options a run over the dump that finds
no number it cannot read has the externs of the selected types in their order, and each selected
type with plain parameters has one. -/
theorem renderDump_retains (path : Text) {dump : Json} {catalog : Logged (List Catalog.Assembly)}
    (h : Catalog.ofJson dump = .ok catalog) :
    (∀ (m : Mapping) (root : Text), ∀ t ∈ (Catalog.select root catalog.value).value,
      t.HasPlainParameters → m.render t.describe ≠ .skipped none ∧
        ∀ name, m.render t.describe ≠ .skipped (some (.generatedDescriptor name))) ∧
    let selected := (Catalog.select ({} : Options).rootNamespace catalog.value).value
    let run := renderDump {} ((Catalog.ofJson dump).mapError (Failure.notADump path))
    (∀ cause, run.result ≠ .error (.unreadableNumber cause)) →
    (∀ name cause, .unmappable name cause ∉ run.log) →
      ∃ m, Mapping.ofTypes {} (Catalog.describeAll selected) = .ok m ∧
        run.result = .ok (selected.filterMap fun t => (m.render t.describe).file?) ∧
        ∀ t ∈ selected, t.HasPlainParameters →
          ∃ r, m.render t.describe = .file r ∧ r.nativeName = t.canonicalName := by
  refine ⟨fun m root t ht hplain => ?_, ?_⟩
  · have hskipped {report : Option Event} (hreport : m.render t.describe = .skipped report) :=
      eq_unmappable_of_render (Catalog.early?_describe h ht hplain) hreport
    refine ⟨fun hnone => ?_, fun name hgenerated => ?_⟩
    · obtain ⟨cause, hcause⟩ := hskipped hnone
      exact nomatch hcause
    · obtain ⟨cause, hcause⟩ := hskipped hgenerated
      exact nomatch hcause
  · intro selected run hindex hmapped
    have hresult : run.result = (renderTypes {} (Catalog.describeAll selected)).result :=
      renderDump_result {} path h
    have hlog : run.log = catalog.log ++ ((Catalog.select ({} : Options).rootNamespace
        catalog.value).log ++ (renderTypes {} (Catalog.describeAll selected)).log) := by
      simp only [run, h]
      rfl
    rw [hresult] at hindex ⊢
    rw [hlog] at hmapped
    cases hm : Mapping.ofTypes {} (Catalog.describeAll selected) with
    | error cause =>
      refine absurd ?_ (hindex cause)
      unfold renderTypes
      rw [hm]
    | ok m =>
      have hcomplete : m.options.IsComplete := by
        rw [options_of_ofTypes hm]
        exact Options.isComplete_default
      refine ⟨m, rfl, ?_, fun t ht hplain => ?_⟩
      · rw [renderTypes_result hcomplete hm, Catalog.describeAll_select_eq_map h,
          List.filterMap_map]
        rfl
      · rw [← Catalog.reportName_describe h ht]
        refine exists_file_of_not_reported hcomplete hm (Catalog.describe_mem_describeAll h ht)
          (Catalog.early?_describe h ht hplain) fun cause hevent => ?_
        refine hmapped t.describe.reportName cause ?_
        exact List.mem_append_right _ (List.mem_append_right _ hevent)

/-- A nested type of a generic definition, in a namespace that is called like a closure: the fragment
is not in a simple name, and the type keeps its file. -/
theorem renderDump_retains_slot :
    let dump := dumpOf [entryOf "Sandbox.Node".toList [],
      entryOf ("Sandbox.DisplayClass.Map".toList ++ [arityMark, '2'] ++ "+Slot".toList)
        [("generic_parameters".toList, .array [.string "TKey".toList, .string "T_2".toList])]]
    let run := renderDump {} ((Catalog.ofJson dump).mapError
      (Failure.notADump "dump.json".toList))
    let shown := "Sandbox.DisplayClass.Map".toList ++ [arityMark, '2'] ++ ".Slot<TKey,T_2>".toList
    ∃ catalog, Catalog.ofJson dump = .ok catalog ∧
      (∀ cause, run.result ≠ .error (.unreadableNumber cause)) ∧
      (∀ name cause, .unmappable name cause ∉ run.log) ∧
      ∃ t ∈ (Catalog.select ({} : Options).rootNamespace catalog.value).value,
        t.HasPlainParameters ∧ ∃ externs, run.result = .ok externs ∧
          ∃ r ∈ externs, r.nativeName = shown := by
  intro dump run shown
  obtain ⟨catalog, hload, t, ht, hplain, hshown⟩ : ∃ catalog, Catalog.ofJson dump = .ok catalog ∧
      ∃ t ∈ (Catalog.select ({} : Options).rootNamespace catalog.value).value,
        t.HasPlainParameters ∧ t.canonicalName = shown :=
    ⟨_, rfl, by decide +kernel⟩
  have hindex : ∀ cause, run.result ≠ .error (.unreadableNumber cause) := by
    have hreturns : run.result.isOk = true := by decide +kernel
    intro cause hcause
    rw [hcause] at hreturns
    exact nomatch hreturns
  have hmapped : ∀ name cause, .unmappable name cause ∉ run.log := by
    have hnone : run.log.all (fun | .unmappable _ _ => false | _ => true) = true := by
      decide +kernel
    intro name cause hevent
    exact nomatch List.all_eq_true.mp hnone _ hevent
  obtain ⟨m, -, hresult, hfiles⟩ := (renderDump_retains _ hload).2 hindex hmapped
  obtain ⟨r, hr, hname⟩ := hfiles t ht hplain
  refine ⟨catalog, hload, hindex, hmapped, t, ht, hplain, _, hresult, r, ?_, hname.trans hshown⟩
  exact List.mem_filterMap.mpr ⟨t, ht, Rendering.file?_eq_some_iff.mpr hr⟩

end HaxeBindings
