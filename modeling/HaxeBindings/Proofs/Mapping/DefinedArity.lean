import HaxeBindings.Catalog.Describe
import HaxeBindings.Proofs.ArityIndex.Nesting
import HaxeBindings.Proofs.Generation.Isolation
import HaxeBindings.Proofs.Mapping.Referral
import HaxeBindings.Proofs.Schema.Arity

/-!
# The number of parameters of a definition

A generic type says in four ways how many parameters it has: by the list of them, by
what stands between the brackets of its schema name, by the entry of the arity index
under its name without the marker, and by the digits of that marker.  A reference to
the type knows the last only, and the mapping asks the index whether to believe it.

* `TypeEntry.IsDefinition` --- the recorded types about which that can be said: the
  marker is the number of parameters, and the names are such as a schema string holds;
* `TypeEntry.IsDefinition.split_fullName` --- the name and the parameters are read back
  from the schema name;
* `TypeEntry.IsDefinition.impliedArity` --- the marker is believed in every catalog that
  holds the definition;
* `TypeEntry.IsDefinition.map_marked` --- definition and reference agree.
-/

namespace HaxeBindings

open Text Schema Name

theorem Text.not_mem_ofNat {c : Char} (h : c.isDigit = false) (n : Nat) : c ∉ ofNat n := fun hc =>
  Bool.false_ne_true (h.symm.trans (Nat.isDigit_of_mem_toDigits (by decide) (by decide) hc))

/-- A marked name ends in a digit or in the mark, so it is no array. -/
theorem Schema.isArrayText_marked (p : Text) (n : Nat) :
    TypeExpr.isArrayText (p ++ arityMark :: ofNat n) = false := by
  by_contra harray
  have hlast := TypeExpr.getLast?_of_isArrayText (Bool.not_eq_false _ ▸ harray)
  rw [List.getLast?_append_of_ne_nil _ (List.cons_ne_nil _ _)] at hlast
  exact List.not_mem_cons_of_ne_of_not_mem (by decide) (not_mem_ofNat (by decide) n)
    (List.mem_of_getLast? hlast)

namespace Descriptor.IsReferable

variable {d : Descriptor}

/-- The name of a referable type is read as a type without arguments. -/
theorem parse_baseName (h : d.IsReferable) (index : ArityIndex) :
    (⟨index, {}⟩ : Mapping).parse d.baseName = .named d.baseName [] := by
  rw [Mapping.parse, TypeExpr.parse, TypeExpr.parseWithin_succ,
    TypeExpr.shape_bare h.isName h.not_parameter h.not_keyword]
  rfl

theorem coreType?_eq_none (h : d.IsReferable) (index : ArityIndex) :
    (⟨index, {}⟩ : Mapping).coreType? d.baseName = none :=
  Mapping.coreType?_of_isHome h.home _

/-- A referable type is mapped to its package and its class name. -/
theorem userType (h : d.IsReferable) (index : ArityIndex) :
    ∃ className, d.className? ({} : Options).defaultTypeName = some className ∧
      (⟨index, {}⟩ : Mapping).userType d.baseName =
        .ok ((Package.ofType {} d.namespaceName).name ++ '.' :: className) := by
  have hne : ¬d.baseName.isEmpty = true := fun hnil => h.ne_nil (List.isEmpty_iff.mp hnil)
  rw [className?, if_neg hne]
  exact Mapping.userType_of_isHome h.home index

end Descriptor.IsReferable

/-- A name without arguments is mapped to its class, applied to what the index says. -/
theorem Mapping.mapExpr_bare {m : Mapping} {name base : Text} {arity : Nat}
    (harity : m.impliedArity name = .ok arity) (hcore : m.coreType? name = none)
    (huser : m.userType name = .ok base) :
    m.mapExpr (.named name []) = .ok (m.applyTo base (List.replicate arity m.options.dynamicType)) := by
  simp only [mapExpr, harity, hcore, huser, bind, Except.bind]
  rfl

namespace Catalog

/-- A definition of a generic type below the root namespace: its name ends in the number of its
parameters, and schema strings can hold its name and those of its parameters. -/
structure TypeEntry.IsDefinition (t : TypeEntry) (p : Text) : Prop where
  marked : dotted t.fullName = p ++ arityMark :: ofNat t.genericParameters.length
  generic : t.genericParameters ≠ []
  below : ∃ rest, p = "Sandbox.".toList ++ rest
  plain : ∀ c ∈ p, isBlank c = false ∧ c ≠ arityMark ∧ c ≠ '<' ∧ c ≠ '>' ∧ c ≠ ','
  parameters : ∀ a ∈ t.genericParameters,
    a ≠ [] ∧ ∀ c ∈ a, isBlank c = false ∧ c ≠ '<' ∧ c ≠ '>' ∧ c ≠ ','

namespace TypeEntry.IsDefinition

variable {t : TypeEntry} {p : Text}

/-- What the marked name holds. -/
theorem of_mem (h : t.IsDefinition p) {c : Char}
    (hc : c ∈ p ++ arityMark :: ofNat t.genericParameters.length) :
    isBlank c = false ∧ c ≠ '<' ∧ c ≠ '>' ∧ c ≠ ',' := by
  rcases List.mem_append.mp hc with hc | hc
  · obtain ⟨hblank, -, hpunctuation⟩ := h.plain c hc
    exact ⟨hblank, hpunctuation⟩
  · rcases List.mem_cons.mp hc with rfl | hc
    · decide
    · have hdigit : c.isDigit = true := Nat.isDigit_of_mem_toDigits (by decide) (by decide) hc
      refine ⟨isBlank_of_isIdentifierChar (isIdentifierChar_of_isDigit hdigit), ?_, ?_, ?_⟩
      all_goals
        rintro rfl
        exact absurd hdigit (by decide)

theorem isName (h : t.IsDefinition p) :
    IsName (p ++ arityMark :: ofNat t.genericParameters.length) where
  ne_nil := by simp
  trimmed := strip_eq_self_of_not_blank fun c hc => (h.of_mem hc).1
  no_open hc := (h.of_mem hc).2.1 rfl
  no_close hc := (h.of_mem hc).2.2.1 rfl
  no_comma hc := (h.of_mem hc).2.2.2 rfl
  not_array := isArrayText_marked p _

/-- **The schema name of a definition is read back** as its name and its parameters. -/
theorem split_fullName (h : t.IsDefinition p) :
    split t.describe.fullName =
      ⟨p ++ arityMark :: ofNat t.genericParameters.length, t.genericParameters⟩ := by
  have harguments : ∀ a ∈ t.genericParameters, IsArgument a := by
    intro a ha
    obtain ⟨hne, hchars⟩ := h.parameters a ha
    exact {
      ne_nil := hne
      trimmed := strip_eq_self_of_not_blank fun c hc => (hchars c hc).1
      balanced := balanced_of_no_bracket (fun hc => (hchars _ hc).2.1 rfl)
        fun hc => (hchars _ hc).2.2.1 rfl
      unsplit := unsplit_of_no_comma fun hc => (hchars _ hc).2.2.2 rfl }
  have hgeneric : ¬t.genericParameters.isEmpty = true := fun hnil =>
    h.generic (List.isEmpty_iff.mp hnil)
  rw [describe, canonicalName, if_neg hgeneric, h.marked,
    split_applied h.isName.ne_nil h.isName.trimmed h.isName.no_open,
    argumentsOf_join h.generic harguments]

theorem baseName (h : t.IsDefinition p) :
    t.describe.baseName = p ++ arityMark :: ofNat t.genericParameters.length := by
  rw [Descriptor.baseName, h.split_fullName]

theorem typeParameters (h : t.IsDefinition p) :
    t.describe.typeParameters = t.genericParameters := by
  rw [Descriptor.typeParameters, h.split_fullName, List.filter_eq_self]
  intro a ha
  simpa using (h.parameters a ha).1

theorem isReferable (h : t.IsDefinition p) : t.describe.IsReferable where
  ne_nil := h.baseName ▸ h.isName.ne_nil
  no_open := h.baseName ▸ h.isName.no_open
  no_close := h.baseName ▸ h.isName.no_close
  no_comma := h.baseName ▸ h.isName.no_comma
  not_array := h.baseName ▸ h.isName.not_array
  not_keyword := by
    -- no word of the vocabulary has a mark in it
    have hwords : ∀ word ∈ ({} : Options).vocabulary, arityMark ∉ word := by decide
    rw [h.baseName]
    exact fun hword => hwords _ hword (by simp)
  not_parameter := h.baseName ▸ TypeExpr.not_namesParameter_marked (not_mem_ofNat (by decide) _) p
  home := by
    obtain ⟨rest, rfl⟩ := h.below
    rw [Descriptor.namespaceName, h.baseName, List.append_assoc]
    exact Package.isHome_namespaceOf _

/-- **The marker of a definition is believed** in every catalog that holds it, whatever the others
are. -/
theorem impliedArity (h : t.IsDefinition p) {types : List Descriptor} {m : Mapping}
    (hmem : t.describe ∈ types) (hm : Mapping.ofTypes {} types = .ok m) :
    m.impliedArity (p ++ arityMark :: ofNat t.genericParameters.length) =
      .ok t.genericParameters.length := by
  have hgeneric : t.describe.isGenericDefinition = true := by
    simpa [Descriptor.isGenericDefinition, describe] using h.generic
  have hmark : arityMark ∉ p := fun hc => (h.plain _ hc).2.1 rfl
  have hne : p ≠ [] := by
    obtain ⟨rest, rfl⟩ := h.below
    exact List.append_ne_nil_of_left_ne_nil (by decide) rest
  -- the index is there, so the marker can be read
  obtain ⟨r, hread⟩ := (splitArity_isOk_iff _).mpr
    ((ofTypes_isOk_iff {} types).mp ⟨m, hm⟩ _ hmem hgeneric)
  rw [h.baseName] at hread
  obtain rfl := splitArity_ofNat hmark hread
  have hknown : (t.genericParameters.length : Int) ∈ m.index.arities p := by
    refine (ArityIndex.mem_arities_ofTypes (ofTypes_eq_ok hm).1 hne hmark).mpr
      ⟨t.describe, hmem, .inl ⟨⟨h.generic, rfl⟩, .inr ⟨_, ?_, h.baseName⟩⟩⟩
    exact not_mem_ofNat (by decide) _
  have harity : m.index.instantiationArity?
      (p ++ arityMark :: ofNat t.genericParameters.length) =
        .ok (some (t.genericParameters.length : Int)) := by
    rw [ArityIndex.instantiationArity?, hread]
    exact congrArg Except.ok (if_pos hknown)
  rw [Mapping.impliedArity, harity]
  rfl

/-- **Definition and reference agree on the number of parameters.**  The name and the parameters of
a definition are read back from its descriptor, and in every catalog that holds the definition its
name alone is mapped to its class with as many dynamic arguments as it has parameters. -/
theorem map_marked (h : t.IsDefinition p) :
    let d := t.describe
    let n := t.genericParameters.length
    let name := p ++ arityMark :: ofNat n
    d.baseName = name ∧ d.typeParameters = t.genericParameters ∧
      ∀ types m, d ∈ types → Mapping.ofTypes {} types = .ok m →
        ∃ className, d.className? ({} : Options).defaultTypeName = some className ∧
          m.map name = .ok (Mapping.applied
            ((Package.ofType {} d.namespaceName).name ++ '.' :: className)
            (List.replicate n "Dynamic".toList)) := by
  refine ⟨h.baseName, h.typeParameters, fun types m hmem hm => ?_⟩
  have harity := h.impliedArity hmem hm
  obtain ⟨index, o⟩ := m
  obtain rfl : o = {} := (ofTypes_eq_ok hm).2
  obtain ⟨className, hclass, huser⟩ := h.isReferable.userType index
  refine ⟨className, hclass, ?_⟩
  have hdots : '.' ∉ ({} : Options).dynamicType := by decide
  have herased : (Package.ofType {} t.describe.namespaceName).name ++ '.' :: className ≠
      ({} : Options).dynamicType := by
    intro heq
    exact hdots (heq ▸ by simp)
  have hsome : ¬(List.replicate t.genericParameters.length
      ({} : Options).dynamicType).isEmpty = true := by
    simpa using h.generic
  rw [← h.baseName] at harity ⊢
  rw [Mapping.map, h.isReferable.parse_baseName,
    Mapping.mapExpr_bare harity (h.isReferable.coreType?_eq_none index) huser, Mapping.applyTo,
    if_neg hsome, if_neg herased]

/-- A nested definition with two parameters, in a catalog that has another one with the same base. -/
theorem map_marked_pool :
    let base := "Sandbox.UI.Pool".toList
    let t : TypeEntry :=
      { fullName := "Sandbox.UI+Pool".toList ++ [arityMark, '2']
        name := "Pool".toList ++ [arityMark, '2']
        namespaceName := "Sandbox".toList
        visibility := "nested_public".toList
        isPointer := false
        compilerGenerated := false
        genericParameters := ["TKey".toList, ['V']]
        constructors := []
        properties := []
        methods := []
        assembly := "Sandbox.Engine".toList }
    let other : Descriptor :=
      { fullName := base ++ [arityMark, '1'] ++ "<T>".toList, genericParameters := [['T']] }
    let types := [{ fullName := "Sandbox.User".toList }, other, t.describe]
    ∃ m, t.IsDefinition base ∧ Mapping.ofTypes {} types = .ok m ∧
      m.index.arities base = [1, 2] ∧
      t.describe.typeParameters = ["TKey".toList, ['V']] ∧
      t.describe.className? ({} : Options).defaultTypeName = some "Pool".toList ∧
      m.map t.describe.baseName = .ok "sbox.ui.Pool<Dynamic,Dynamic>".toList := by
  intro base t other types
  have hdefinition : t.IsDefinition base := by
    refine ⟨by decide, by decide, ⟨"UI.Pool".toList, by decide⟩, forall_mem_of_all (by decide), ?_⟩
    exact List.forall_mem_cons.mpr ⟨⟨by decide, forall_mem_of_all (by decide)⟩,
      List.forall_mem_singleton.mpr ⟨by decide, forall_mem_of_all (by decide)⟩⟩
  let m : Mapping := ⟨⟨[(base, [1, 2])]⟩, {}⟩
  have hm : Mapping.ofTypes {} types = .ok m := by decide +kernel
  obtain ⟨hbase, hparameters, hmap⟩ := hdefinition.map_marked
  obtain ⟨className, hclass, hmapped⟩ :=
    hmap types m (List.mem_of_getLast? rfl) hm
  have hname : t.describe.className? ({} : Options).defaultTypeName = some "Pool".toList := by
    decide +kernel
  obtain rfl : "Pool".toList = className := Option.some_inj.mp (hname.symm.trans hclass)
  refine ⟨m, hdefinition, hm, by decide, hparameters, hname, ?_⟩
  rw [hbase, hmapped]
  decide +kernel

end TypeEntry.IsDefinition
end Catalog
end HaxeBindings
