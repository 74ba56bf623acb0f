import HaxeBindings.ExternFile
import HaxeBindings.Proofs.Catalog.Reference
import HaxeBindings.Proofs.Mapping.Shape

/-!
# References point at the class that is generated

A class is declared under the package of its namespace and the identifier of its
simple name, both taken from its descriptor.  A member that refers to the type knows
only a schema string, from which the same two names are found by another way: the
string is read, the base is split off, and package and identifier are made from that.
This file says that both ways lead to the same name.

* `Descriptor.IsReferable` --- the types for which that can be said: by its form the
  base name is a host type, and it lies in the root namespace or below it;
* `Descriptor.IsReference` --- the texts that refer to a type: its base name, alone or
  with a list of arguments behind it;
* `map_reference` --- a reference to such a type that is mapped at all is mapped to the
  package and the class name of the extern, with nothing behind it or one list of
  arguments, and the package is the directory of the extern with dots for slashes.
-/

namespace HaxeBindings

open Text Schema Name

namespace Mapping

/-- A type that members can refer to is mapped to its package and an identifier. -/
theorem userType_of_isHome {name : Text} (h : Package.IsHome {} (namespaceOf name))
    (index : ArityIndex) :
    ∃ className, typeIdentifier? ({} : Options).defaultTypeName (simpleName name) = some className ∧
      (⟨index, {}⟩ : Mapping).userType name =
        .ok ((Package.ofType {} (namespaceOf name)).name ++ '.' :: className) := by
  have hdefault : ({} : Options).defaultTypeName ≠ [] := by decide
  obtain ⟨className, hclass⟩ :=
    Option.isSome_iff_exists.mp (isSome_typeIdentifier? hdefault (simpleName name))
  have hpackage := Package.nameOfReference_of_isHome (o := {}) (by decide) h
  refine ⟨className, hclass, ?_⟩
  rw [userType, Package.isUnnamable_of_named rfl, if_neg Bool.false_ne_true, hpackage]
  simp only
  rw [hclass]

theorem coreType?_of_isHome {name : Text} (h : Package.IsHome {} (namespaceOf name))
    (m : Mapping) : m.coreType? name = none := by
  rw [Option.eq_none_iff_forall_ne_some]
  exact fun u hu => h.ne_system (namespaceOf_of_coreType? hu)

/-- A qualified name is not what types are erased to. -/
theorem qualified_ne_dynamicType (package className : Text) :
    package ++ '.' :: className ≠ ({} : Options).dynamicType := by
  have hdots : '.' ∉ ({} : Options).dynamicType := by decide
  intro heq
  exact hdots (heq ▸ by simp)

end Mapping

/-! ## References -/

namespace Descriptor

variable {d : Descriptor}

/-- With the default options, types whose base name is a host type by its form and lies in a
namespace that members can refer to.  The core types of the host do not, and neither does the
nullable wrapper. -/
structure IsReferable (d : Descriptor) : Prop where
  ne_nil : d.baseName ≠ []
  no_open : '<' ∉ d.baseName
  no_close : '>' ∉ d.baseName
  no_comma : ',' ∉ d.baseName
  not_array : TypeExpr.isArrayText d.baseName = false
  not_keyword : d.baseName ∉ ({} : Options).vocabulary
  not_parameter : ¬NamesParameter d.baseName
  home : Package.IsHome {} d.namespaceName

/-- The base name of a type, alone or with a list of canonical arguments behind it. -/
def IsReference (d : Descriptor) (text : Text) : Prop :=
  text = d.baseName ∨ ∃ arguments : List TypeExpr,
    (∀ a ∈ arguments, TypeExpr.IsCanonical ({} : Options).vocabulary a) ∧
      text = d.baseName ++ '<' :: join [','] (arguments.map TypeExpr.schema) ++ ['>']

theorem strip_baseName : strip d.baseName = d.baseName := strip_base_split d.fullName

theorem IsReferable.isName (h : d.IsReferable) : IsName d.baseName :=
  ⟨h.ne_nil, strip_baseName, h.no_open, h.no_close, h.no_comma, h.not_array⟩

/-- The names that the mapping knows lie in the namespace of the host itself. -/
theorem IsReferable.namespaceName_ne (h : d.IsReferable) : d.namespaceName ≠ "System".toList :=
  h.home.ne_system

/-- A reference is read as the base name with canonical arguments. -/
theorem IsReference.parse (h : d.IsReferable) {text : Text} (htext : d.IsReference text) :
    ∃ arguments : List TypeExpr,
      (∀ a ∈ arguments, TypeExpr.IsCanonical ({} : Options).vocabulary a) ∧
        TypeExpr.parse ({} : Options).vocabulary text = .named d.baseName arguments := by
  have hvocabulary := isVocabulary_default
  have hnullable : d.baseName ≠ nullableName := by
    intro heq
    have hns : d.namespaceName = "System".toList := by
      rw [namespaceName, heq]
      decide
    exact h.namespaceName_ne hns
  rcases htext with rfl | ⟨arguments, harguments, rfl⟩
  · refine ⟨[], fun a ha => absurd ha List.not_mem_nil, ?_⟩
    rw [TypeExpr.parse, TypeExpr.parseWithin_succ,
      TypeExpr.shape_bare h.isName h.not_parameter h.not_keyword]
    rfl
  · rw [TypeExpr.parse, TypeExpr.parseWithin_succ,
      TypeExpr.shape_bracketed hvocabulary.names h.ne_nil h.isName.trimmed h.no_open,
      TypeExpr.shapeOfApplication_named h.not_parameter (.inl hnullable), TypeExpr.ofShape]
    by_cases hne : arguments = []
    · rw [hne]
      exact ⟨[], fun a ha => absurd ha List.not_mem_nil, rfl⟩
    · have hprinted : ∀ t ∈ arguments.map TypeExpr.schema, IsArgument t := by
        intro t ht
        obtain ⟨a, ha, rfl⟩ := List.mem_map.mp ht
        exact (harguments a ha).isArgument_schema hvocabulary.names
      rw [argumentsOf_join (by simpa using hne) hprinted, List.map_map]
      refine ⟨_, fun e he => ?_, rfl⟩
      obtain ⟨a, ha, rfl⟩ := List.mem_map.mp he
      have ha := harguments a ha
      rw [Function.comp_apply, TypeExpr.parseWithin_schema_eq_cut hvocabulary.names ha]
      exact ha.cut hvocabulary.isCanonical_object _

end Descriptor

/-- One list of arguments between brackets. -/
def Schema.IsArgumentList (t : Text) : Prop :=
  ∃ ts : List Text, ts ≠ [] ∧ (∀ u ∈ ts, IsClosed u) ∧ t = '<' :: join [','] ts ++ ['>']

/-- **References point at the extern that is generated.**  A reference that is mapped is mapped to
the package and the class name of the extern, and behind these stands at most one list of arguments.
The package is the directory of the extern below the root package, as long as that can be read
off. -/
theorem Mapping.map_reference {index : ArityIndex} {d : Descriptor} (h : d.IsReferable) :
    (∀ text u, d.IsReference text → (⟨index, {}⟩ : Mapping).map text = .ok u →
      ∃ className list, d.className? ({} : Options).defaultTypeName = some className ∧
        u = (Package.ofType {} d.namespaceName).name ++ '.' :: className ++ list ∧
        (list = [] ∨ IsArgumentList list)) ∧
    ((∀ rest, d.namespaceName = "Sandbox.".toList ++ rest →
        ∀ segment ∈ pieces '.' rest, segment ≠ [] ∧ '/' ∉ segment) →
      (Package.ofType {} d.namespaceName).name =
        if (Package.ofType {} d.namespaceName).directory = [] then "sbox".toList
        else "sbox.".toList ++
          replaceChar '/' '.' (Package.ofType {} d.namespaceName).directory) := by
  have hroot : ({} : Options).rootNamespace ≠ [] := by decide
  constructor
  · intro text u htext hu
    obtain ⟨arguments, harguments, hparse⟩ := htext.parse h
    rw [map, parse, hparse] at hu
    rcases mapExpr_named_eq_ok hu with hcore | ⟨-, base, hbase, hu⟩
    · exact absurd (namespaceOf_of_coreType? hcore) h.namespaceName_ne
    · have hhome := Package.nameOfReference_of_isHome hroot h.home
      rcases userType_eq_ok hbase with ⟨hforeign, -⟩ | ⟨package, className, hpackage, hclass, rfl⟩
      · exact absurd (hhome.symm.trans hforeign) (Option.some_ne_none _)
      · obtain rfl : package = (Package.ofType {} d.namespaceName).name :=
          Option.some_inj.mp (hpackage.symm.trans hhome)
        have hname : d.className? ({} : Options).defaultTypeName = some className := by
          have hne : ¬d.baseName.isEmpty = true := fun hnil => h.ne_nil (List.isEmpty_iff.mp hnil)
          rw [Descriptor.className?, if_neg hne]
          exact hclass
        rcases hu with rfl | ⟨-, ts, hts, rfl, hmem⟩
        · exact ⟨className, [], hname, (List.append_nil _).symm, .inl rfl⟩
        · refine ⟨className, _, hname, List.append_assoc _ _ _, .inr ⟨ts, hts, fun t ht => ?_, rfl⟩⟩
          rcases hmem t ht with rfl | ⟨a, ha, hat⟩
          · exact (isVocabulary_default.names _ List.mem_cons_self).isArgument.isClosed
          · exact isClosed_mapExpr (harguments a ha) hat
  · exact Package.name_ofType hroot h.home

/-- A generic control, referred to with an array of integers for its parameter. -/
theorem Mapping.map_reference_control :
    let d : Descriptor :=
      { fullName := "Sandbox.UI.Controls.Pool".toList ++ [arityMark, '1'] ++ "<T>".toList
        genericParameters := [['T']] }
    let text := d.baseName ++ "<System.Int32[]>".toList
    let u := "sbox.ui.controls.Pool<Array<Int>>".toList
    d.IsReferable ∧ d.IsReference text ∧ (⟨{}, {}⟩ : Mapping).map text = .ok u ∧
      (∃ className list, d.className? ({} : Options).defaultTypeName = some className ∧
        u = (Package.ofType {} d.namespaceName).name ++ '.' :: className ++ list ∧
        (list = [] ∨ IsArgumentList list)) ∧
      (Package.ofType {} d.namespaceName).name =
        "sbox.".toList ++ replaceChar '/' '.' "ui/controls".toList := by
  intro d text u
  have hns : d.namespaceName = "Sandbox.".toList ++ "UI.Controls".toList := by decide +kernel
  have hreferable : d.IsReferable := by
    refine ⟨?_, ?_, ?_, ?_, ?_, ?_, ?_, .inr (.inr ⟨"UI.Controls".toList, hns⟩)⟩
    all_goals decide +kernel
  have hreference : d.IsReference text := by
    refine .inr ⟨[.array (.named "System.Int32".toList [])], fun a ha => ?_, by decide +kernel⟩
    rw [List.mem_singleton.mp ha]
    exact .array (.bare (by decide) (by decide) (by decide))
  have hmap : (⟨{}, {}⟩ : Mapping).map text = .ok u := by decide +kernel
  obtain ⟨hnamed, hpackage⟩ := @Mapping.map_reference {} d hreferable
  refine ⟨hreferable, hreference, hmap, hnamed text u hreference hmap, ?_⟩
  have hdirectory : (Package.ofType {} d.namespaceName).directory = "ui/controls".toList := by
    rw [hns]
    decide +kernel
  rw [hpackage, hdirectory, if_neg (by decide)]
  intro rest hrest
  rw [hns] at hrest
  rw [← List.append_cancel_left hrest]
  decide +kernel

end HaxeBindings
