import HaxeBindings.Catalog.Select
import HaxeBindings.Proofs.Generation.OutputPath
import HaxeBindings.Proofs.Mapping.DefinedArity
import HaxeBindings.Proofs.Mapping.TargetGrammar

/-!
# Packages of nested types

The name of a nested type starts with the names of the types it is nested in, so these
become segments of its namespace and of its package.  A segment is lowered, and nothing
else is done to it.  The simple name of a type is treated otherwise: it loses its arity
marker before it becomes an identifier.

* `HasComponents` --- the names of the host below its root namespace: identifiers with an
  arity marker behind them or without one;
* `IsComponent.isWord_lower_iff` --- a lowered component is a word of the target language
  exactly when it has no marker;
* `package_isWord_iff` --- the package of a type, in its extern and in references to it,
  and when its pieces are words: when no type around it is generic;
* `package_entry` --- a type inside a generic one, and the mark in its package.
-/

namespace HaxeBindings

open Text Schema Name

/-! ## Components -/

namespace Name

/-- A text of ASCII letters, digits and underscores with something in it. -/
def IsWord (t : Text) : Prop := t ≠ [] ∧ ∀ c ∈ t, isIdentifierChar c = true

/-- An identifier, with an arity marker behind it or without one. -/
def IsComponent (t : Text) : Prop :=
  ∃ word marker, t = word ++ marker ∧ IsIdentifier word ∧
    (marker = [] ∨ ∃ digits, marker = arityMark :: digits ∧ ∀ d ∈ digits, d.isDigit = true)

theorem IsIdentifier.isWord {t : Text} (h : IsIdentifier t) : IsWord t := by
  obtain ⟨c, rest, rfl, hc, hrest⟩ := h
  refine ⟨List.cons_ne_nil c rest, List.forall_mem_cons.mpr ⟨?_, hrest⟩⟩
  rcases hc with hc | rfl
  · exact isIdentifierChar_of_isAlphanum (by rw [Char.isAlphanum, hc, Bool.true_or])
  · decide

theorem isIdentifier_cons {c : Char} {rest : Text} (hc : c.isAlpha = true)
    (h : rest.all isIdentifierChar = true) : IsIdentifier (c :: rest) :=
  ⟨c, rest, rfl, .inl hc, List.all_eq_true.mp h⟩

variable {t : Text}

theorem IsIdentifier.isComponent (h : IsIdentifier t) : IsComponent t :=
  ⟨t, [], (List.append_nil t).symm, h, .inl rfl⟩

/-- The name of a generic definition. -/
theorem IsIdentifier.isComponent_marked (h : IsIdentifier t) (n : Nat) :
    IsComponent (t ++ arityMark :: ofNat n) :=
  ⟨t, _, rfl, h, .inr ⟨_, rfl, fun _ hd => Nat.isDigit_of_mem_toDigits (by decide) (by decide) hd⟩⟩

/-- The characters of a component. -/
theorem IsComponent.mem (h : IsComponent t) {c : Char} (hc : c ∈ t) :
    isIdentifierChar c = true ∨ c = arityMark := by
  obtain ⟨word, marker, rfl, hword, hmarker⟩ := h
  rcases List.mem_append.mp hc with hc | hc
  · exact .inl (hword.isWord.2 c hc)
  · rcases hmarker with rfl | ⟨digits, rfl, hdigits⟩
    · exact absurd hc List.not_mem_nil
    · rcases List.mem_cons.mp hc with rfl | hc
      · exact .inr rfl
      · exact .inl (isIdentifierChar_of_isDigit (hdigits c hc))

theorem IsComponent.no_dot (h : IsComponent t) : '.' ∉ t := fun hdot =>
  absurd (h.mem hdot) (by decide)

/-- A component is lowered letter by letter. -/
theorem IsComponent.lower_eq (h : IsComponent t) : lower t = t.map lowerChar := by
  refine lower_eq_map fun c hc => ⟨?_, ?_⟩
  all_goals
    rintro rfl
    exact absurd (h.mem hc) (by decide)

/-- **Lowering makes a word of a component without a marker**, and of no other. -/
theorem IsComponent.isWord_lower_iff (h : IsComponent t) : IsWord (lower t) ↔ arityMark ∉ t := by
  rw [h.lower_eq]
  constructor
  · rintro ⟨-, hchars⟩ hmark
    have hlowered : lowerChar arityMark = arityMark := by decide +kernel
    have hchar := hchars _ (List.mem_map_of_mem hmark)
    rw [hlowered] at hchar
    exact absurd hchar (by decide)
  · intro hmark
    have hchars : ∀ c ∈ t, isIdentifierChar c = true := fun c hc =>
      (h.mem hc).resolve_right (ne_of_mem_of_not_mem hc hmark)
    obtain ⟨word, marker, rfl, hword, -⟩ := h
    refine ⟨?_, fun d hd => ?_⟩
    · rw [ne_eq, List.map_eq_nil_iff]
      exact List.append_ne_nil_of_left_ne_nil hword.isWord.1 marker
    · obtain ⟨c, hc, rfl⟩ := List.mem_map.mp hd
      exact isIdentifierChar_lowerChar (hchars c hc)

end Name

/-! ## Names of the host -/

namespace Catalog.TypeEntry

/-- A type of the host: its name is the root namespace with components behind it, nested types
included. -/
structure HasComponents (t : TypeEntry) (components : List Text) : Prop where
  eq : dotted t.fullName = "Sandbox".toList ++ components.flatMap ('.' :: ·)
  isComponent : ∀ c ∈ components, IsComponent c

/-- Whatever the parameters are called, the base name of a type is its dotted name. -/
theorem baseName_describe {t : TypeEntry} (hne : dotted t.fullName ≠ [])
    (htrim : strip (dotted t.fullName) = dotted t.fullName) (hopen : '<' ∉ dotted t.fullName) :
    t.describe.baseName = dotted t.fullName := by
  rw [Descriptor.baseName, describe, canonicalName]
  split
  · rw [split_plain htrim hopen]
  · rw [split_applied hne htrim hopen]

namespace HasComponents

variable {t : TypeEntry} {components : List Text}

/-- What a name of the host holds. -/
theorem mem (h : t.HasComponents components) {c : Char} (hc : c ∈ dotted t.fullName) :
    isIdentifierChar c = true ∨ c = arityMark ∨ c = '.' := by
  have hroot : ∀ c ∈ "Sandbox".toList, isIdentifierChar c = true := forall_mem_of_all (by decide)
  rw [h.eq, List.mem_append, List.mem_flatMap] at hc
  rcases hc with hc | ⟨component, hcomponent, hc⟩
  · exact .inl (hroot c hc)
  · rcases List.mem_cons.mp hc with rfl | hc
    · exact .inr (.inr rfl)
    · exact ((h.isComponent component hcomponent).mem hc).imp_right .inl

theorem isName (h : t.HasComponents components) : IsName (dotted t.fullName) where
  ne_nil := by
    rw [h.eq]
    exact List.append_ne_nil_of_left_ne_nil (by decide) _
  trimmed := strip_eq_self_of_not_blank fun c hc => by
    rcases h.mem hc with hc | rfl | rfl
    · exact isBlank_of_isIdentifierChar hc
    · decide
    · decide
  no_open hc := absurd (h.mem hc) (by decide)
  no_close hc := absurd (h.mem hc) (by decide)
  no_comma hc := absurd (h.mem hc) (by decide)
  not_array := by
    by_contra harray
    have hlast := TypeExpr.getLast?_of_isArrayText (Bool.not_eq_false _ ▸ harray)
    exact absurd (h.mem (List.mem_of_getLast? hlast)) (by decide)

theorem baseName (h : t.HasComponents components) : t.describe.baseName = dotted t.fullName :=
  baseName_describe h.isName.ne_nil h.isName.trimmed h.isName.no_open

/-- No word of the vocabulary starts with the root namespace. -/
theorem not_keyword (h : t.HasComponents components) :
    dotted t.fullName ∉ ({} : Options).vocabulary := by
  have hwords : ∀ word ∈ ({} : Options).vocabulary, word.take 7 ≠ "Sandbox".toList := by decide
  rw [h.eq]
  exact fun hword => hwords _ hword rfl

theorem hasSegments (h : t.HasComponents components) :
    Package.HasSegments {} t.describe.namespaceName components.dropLast := by
  rw [Descriptor.namespaceName, h.baseName, h.eq]
  exact Package.hasSegments_namespaceOf (by decide) fun c hc => (h.isComponent c hc).no_dot

theorem isReferable (h : t.HasComponents components)
    (hparameter : ¬NamesParameter (dotted t.fullName)) : t.describe.IsReferable where
  ne_nil := h.baseName ▸ h.isName.ne_nil
  no_open := h.baseName ▸ h.isName.no_open
  no_close := h.baseName ▸ h.isName.no_close
  no_comma := h.baseName ▸ h.isName.no_comma
  not_array := h.baseName ▸ h.isName.not_array
  not_keyword := h.baseName ▸ h.not_keyword
  not_parameter := h.baseName ▸ hparameter
  home := h.hasSegments.isHome

theorem name_ofType (h : t.HasComponents components) :
    (Package.ofType {} t.describe.namespaceName).name = Package.nameOf {} components.dropLast :=
  h.hasSegments.name_ofType (by decide)

/-- The name of the root namespace makes a name of the host too long for a parameter, so only its
simple name can be one. -/
theorem map_of_namesParameter (h : t.HasComponents components)
    (hparameter : NamesParameter (dotted t.fullName)) (m : Mapping) (hm : m.options = {}) :
    m.map (dotted t.fullName) = .ok (simpleName (dotted t.fullName)) := by
  have hwhole : isParameterName (dotted t.fullName) = false := by
    rw [isParameterName, h.isName.trimmed, h.eq]
    rfl
  rw [Mapping.map, Mapping.parse, hm,
    TypeExpr.parse_parameter h.isName.trimmed h.isName.no_open h.not_keyword hparameter,
    Mapping.mapExpr, TypeExpr.parameterIdentifier, if_neg (by rw [hwhole]; exact Bool.false_ne_true)]

/-- What is not taken for a parameter is mapped to the package and the class, and behind these stands
at most the list of arguments that the index implies. -/
theorem map_eq_ok (h : t.HasComponents components)
    (hparameter : ¬NamesParameter (dotted t.fullName)) {index : ArityIndex} {u : Text}
    (hu : (⟨index, {}⟩ : Mapping).map (dotted t.fullName) = .ok u) :
    ∃ className list,
      typeIdentifier? "Type".toList (simpleName (dotted t.fullName)) = some className ∧
        u = Package.nameOf {} components.dropLast ++ '.' :: className ++ list ∧
        (list = [] ∨ IsArgumentList list) := by
  have hreferable := h.isReferable hparameter
  have hns : namespaceOf (dotted t.fullName) = t.describe.namespaceName := by
    rw [Descriptor.namespaceName, h.baseName]
  have hhome : Package.IsHome {} (namespaceOf (dotted t.fullName)) := hns ▸ hreferable.home
  obtain ⟨className, hclass, huser⟩ := Mapping.userType_of_isHome hhome index
  rw [hns, h.name_ofType] at huser
  have hparse := hreferable.parse_baseName index
  rw [h.baseName] at hparse
  rw [Mapping.map, hparse] at hu
  rcases Mapping.mapExpr_named_eq_ok hu with hcore | ⟨-, base, hbase, hu⟩
  · rw [Mapping.coreType?_of_isHome hhome] at hcore
    exact absurd hcore.symm (Option.some_ne_none u)
  · obtain rfl := Except.ok.inj (huser.symm.trans hbase)
    rcases hu with rfl | ⟨-, ts, hts, rfl, hdynamic⟩
    · exact ⟨className, [], hclass, (List.append_nil _).symm, .inl rfl⟩
    · refine ⟨className, _, hclass, List.append_assoc _ _ _, .inr ⟨ts, hts, fun v hv => ?_, rfl⟩⟩
      rcases hdynamic v hv with rfl | ⟨a, ha, -⟩
      · exact (isVocabulary_default.names _ List.mem_cons_self).isArgument.isClosed
      · exact absurd ha List.not_mem_nil

end HasComponents

/-! ## Packages -/

theorem pieces_nameOf {components : List Text} (h : ∀ c ∈ components, IsComponent c) :
    pieces '.' (Package.nameOf {} components) = "sbox".toList :: components.map lower := by
  have hlowered : ∀ s ∈ components.map lower, '.' ∉ s := by
    rw [List.forall_mem_map]
    intro c hc hdot
    rcases mem_lower hdot with hdot | hletter
    · exact (h c hc).no_dot hdot
    · exact absurd hletter (by decide)
  have hroot : '.' ∉ "sbox".toList := by decide
  have hpieces := pieces_append_flatMap hroot hlowered
  rwa [List.flatMap_map] at hpieces

variable {t : TypeEntry} {components : List Text}

/-- **The package of a nested type.**  It is the root package with the lowered names of the enclosing
namespaces and types behind it, in the extern and in every reference by name that is not taken for a
parameter.  Its pieces are words exactly when none of these names has an arity marker. -/
theorem package_isWord_iff {index : ArityIndex} (h : t.HasComponents components) :
    let m : Mapping := ⟨index, {}⟩
    let name := dotted t.fullName
    let package := Package.nameOf {} components.dropLast
    (∀ r, m.render t.describe = .file r → r.package.name = package) ∧
      (∀ u, m.map name = .ok u → NamesParameter name ∧ u = simpleName name ∨
        ∃ className list, typeIdentifier? "Type".toList (simpleName name) = some className ∧
          u = package ++ '.' :: className ++ list ∧ (list = [] ∨ IsArgumentList list)) ∧
      ((∀ piece ∈ pieces '.' package, IsWord piece) ↔
        ∀ c ∈ components.dropLast, arityMark ∉ c) := by
  intro m name package
  have hcomponents : ∀ c ∈ components.dropLast, IsComponent c := fun c hc =>
    h.isComponent c (List.dropLast_subset _ hc)
  refine ⟨fun r hr => ?_, fun u hu => ?_, ?_⟩
  · rw [(Mapping.render_eq_file hr).1]
    exact h.name_ofType
  · by_cases hparameter : NamesParameter name
    · rw [h.map_of_namesParameter hparameter m rfl] at hu
      exact .inl ⟨hparameter, (Except.ok.inj hu).symm⟩
    · exact .inr (h.map_eq_ok hparameter hu)
  · have hroot : IsWord "sbox".toList := ⟨by decide, forall_mem_of_all (by decide)⟩
    rw [pieces_nameOf hcomponents, List.forall_mem_cons, and_iff_right hroot,
      List.forall_mem_map]
    exact forall₂_congr fun c hc => (hcomponents c hc).isWord_lower_iff

/-- A generic type inside two plain ones. -/
theorem package_isWord_iff_cell :
    let t : TypeEntry :=
      { fullName := "Sandbox.UI.Grid_2+Row+Cell".toList ++ [arityMark, '1']
        name := "Cell".toList ++ [arityMark, '1']
        namespaceName := "Sandbox.UI".toList
        visibility := "nested_public".toList
        isPointer := false
        compilerGenerated := false
        genericParameters := [['T']]
        constructors := []
        properties := []
        methods := []
        assembly := "Sandbox.Engine".toList }
    let components := ["UI".toList, "Grid_2".toList, "Row".toList, "Cell".toList ++ [arityMark, '1']]
    let package := "sbox.ui.grid_2.row".toList
    t.HasComponents components ∧ (∃ r, Mapping.render {} t.describe = .file r ∧
        r.package.name = package) ∧
      (∃ list, Mapping.map {} (dotted t.fullName) = .ok (package ++ ".Cell".toList ++ list)) ∧
      ∀ piece ∈ pieces '.' package, IsWord piece := by
  intro t components package
  have hcomponents : t.HasComponents components := by
    refine ⟨by decide, ?_⟩
    simp only [components, List.forall_mem_cons]
    exact ⟨(isIdentifier_cons rfl rfl).isComponent, (isIdentifier_cons rfl rfl).isComponent,
      (isIdentifier_cons rfl rfl).isComponent, (isIdentifier_cons rfl rfl).isComponent_marked 1,
      fun _ hc => absurd hc List.not_mem_nil⟩
  obtain ⟨hrender, hmap, hwords⟩ := @package_isWord_iff t components {} hcomponents
  have hfile : ((Mapping.render {} t.describe).file?).isSome = true := by decide +kernel
  obtain ⟨r, hr⟩ := Option.isSome_iff_exists.mp hfile
  have hr := Rendering.file?_eq_some_iff.mp hr
  have hpackage : Package.nameOf {} components.dropLast = package := by decide +kernel
  have hmapped : Mapping.map {} (dotted t.fullName) = .ok (package ++ ".Cell".toList) := by
    decide +kernel
  rw [hpackage] at hrender hmap hwords
  refine ⟨hcomponents, ⟨r, hr, hrender r hr⟩, ?_, hwords.mpr (by decide)⟩
  rcases hmap _ hmapped with ⟨hparameter, -⟩ | ⟨className, list, hclass, hu, -⟩
  · exact absurd hparameter (by decide +kernel)
  · obtain rfl : "Cell".toList = className := Option.some_inj.mp (by rw [← hclass]; decide +kernel)
    exact ⟨list, hmapped.trans (congrArg Except.ok hu)⟩

/-- **A generic type leaves its mark in the package of the types inside it.**  The mark is dropped
from the name of the class only. -/
theorem package_entry :
    let pool := "Pool".toList ++ [arityMark, '1']
    let t : TypeEntry :=
      { fullName := "Sandbox.".toList ++ pool ++ "+Entry".toList
        name := "Entry".toList
        namespaceName := "Sandbox".toList
        visibility := "nested_public".toList
        isPointer := false
        compilerGenerated := false
        genericParameters := [['T']]
        constructors := []
        properties := []
        methods := []
        assembly := "Sandbox.Engine".toList }
    let m : Mapping := ⟨⟨[("Sandbox.Pool".toList, [1])]⟩, {}⟩
    let package := "sbox.pool".toList ++ [arityMark, '1']
    t.isExportable "Sandbox".toList = true ∧ t.HasComponents [pool, "Entry".toList] ∧
      Mapping.ofTypes {} [t.describe] = .ok m ∧
      (∃ r, m.render t.describe = .file r ∧ r.package.name = package) ∧
      m.map (dotted t.fullName) = .ok (package ++ ".Entry<Dynamic>".toList) ∧
      ¬∀ piece ∈ pieces '.' package, IsWord piece := by
  intro pool t m package
  have hcomponents : t.HasComponents [pool, "Entry".toList] := by
    refine ⟨by decide, ?_⟩
    rw [List.forall_mem_cons, List.forall_mem_singleton]
    exact ⟨@IsIdentifier.isComponent_marked "Pool".toList (isIdentifier_cons rfl rfl) 1,
      (isIdentifier_cons rfl rfl).isComponent⟩
  have hfile : (m.render t.describe).file?.map (fun r => r.package.name) = some package := by
    decide +kernel
  obtain ⟨r, hr, hpackage⟩ := Option.map_eq_some_iff.mp hfile
  refine ⟨by decide +kernel, hcomponents, by decide +kernel,
    ⟨r, Rendering.file?_eq_some_iff.mp hr, hpackage⟩, by decide +kernel, fun hwords => ?_⟩
  have hpiece := (hwords ("pool".toList ++ [arityMark, '1']) (by decide +kernel)).2 arityMark (by simp)
  exact absurd hpiece (by decide)

end Catalog.TypeEntry
end HaxeBindings
