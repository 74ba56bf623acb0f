import HaxeBindings.Proofs.Mapping.Referral
import HaxeBindings.Proofs.TypeExpr.Unbounded

/-!
# Mapping what was put together

A schema string is put together from schema strings: an array mark goes behind one, a
nullable wrapper around one, and the name of a host type in front of a list of them.
This file says that the target type is put together from the target types in the same
way.

* `parse_append_arraySuffix`, `parse_nullableName`, `parse_applied` --- the tree of the
  whole has the trees of the parts below its root;
* `map_composes` --- so the whole is mapped to what the parts are mapped to, put together,
  and fails for whatever a part fails for.

The parts are raw strings and need not be well formed.  What is asked of them is that
their trees keep clear of the depth of the reader, and that they stay parts.  An array
element is whatever stands in front of the mark, so of it that is not asked at all.  What
stands between brackets must not be cut at a comma, and in a list of arguments it must be
a piece (`IsPiece`).
-/

namespace HaxeBindings

open Text Schema Name

/-! ## Trees -/

namespace TypeExpr

variable {vocabulary : List Text}

/-- An array mark behind a text makes an array of what the text is. -/
theorem parse_append_arraySuffix (hvocabulary : IsVocabulary vocabulary) {t : Text}
    (h : (parse vocabulary t).height < maxDepth) :
    parse vocabulary (t ++ arraySuffix) = .array (parse vocabulary t) := by
  have hshape := shape_append_arraySuffix hvocabulary.names t
  have hstrip : parse vocabulary (stripStart t) = parse vocabulary t := by
    rw [← parse_strip, strip_stripStart, parse_strip]
  have hbelow : ∀ u ∈ (shape vocabulary (t ++ arraySuffix)).below,
      (parse vocabulary u).height < maxDepth := by
    rw [hshape, Shape.below, List.forall_mem_singleton, hstrip]
    exact h
  rw [parse_eq_ofShape hbelow, hshape, ofShape, hstrip]

/-- A text between the brackets of the nullable wrapper is read as it is read alone, also when it is
blank. -/
theorem parse_nullableName (hvocabulary : IsVocabulary vocabulary) {t : Text} (ht : Unsplit 0 t)
    (h : (parse vocabulary t).height < maxDepth) :
    parse vocabulary (nullableName ++ '<' :: t ++ ['>']) = .nullable (parse vocabulary t) := by
  have hshape := shape_nullableName hvocabulary.names t
  have hobject : parse vocabulary objectName = object :=
    parseWithin_schema_eq_cut hvocabulary.names hvocabulary.isCanonical_object (maxDepth + 1)
  have hargument : parse vocabulary ((argumentsOf t).headD objectName) = parse vocabulary t := by
    rw [headD_argumentsOf ht]
    split
    · next hblank => rw [hobject, ← parse_strip vocabulary t, hblank, parse_nil]
    · exact parse_strip vocabulary t
  have hbelow : ∀ u ∈ (shape vocabulary (nullableName ++ '<' :: t ++ ['>'])).below,
      (parse vocabulary u).height < maxDepth := by
    rw [hshape, Shape.below, List.forall_mem_singleton, hargument]
    exact h
  rw [parse_eq_ofShape hbelow, hshape, ofShape, hargument]

/-- The arguments of a host type are read as they are read alone. -/
theorem parse_applied (hvocabulary : IsVocabulary vocabulary) {name : Text} (hname : IsName name)
    (hparameter : ¬NamesParameter name) (hnullable : name ≠ nullableName) {ts : List Text}
    (hne : ts ≠ []) (hpieces : ∀ t ∈ ts, IsPiece t)
    (h : ∀ t ∈ ts, (parse vocabulary t).height < maxDepth) :
    parse vocabulary (name ++ '<' :: join [','] ts ++ ['>']) =
      .named name (ts.map (parse vocabulary)) := by
  have hshape := shape_named hvocabulary.names hname hparameter hnullable (join [','] ts)
  rw [argumentsOf_join_eq_map hne hpieces] at hshape
  have hbelow : ∀ u ∈ (shape vocabulary (name ++ '<' :: join [','] ts ++ ['>'])).below,
      (parse vocabulary u).height < maxDepth := by
    rw [hshape, Shape.below, List.forall_mem_map]
    intro t ht
    rw [parse_strip]
    exact h t ht
  rw [parse_eq_ofShape hbelow, hshape, ofShape, List.map_map]
  exact congrArg (named name) (List.map_congr_left fun t _ => parse_strip vocabulary t)

end TypeExpr

/-! ## Target types -/

namespace Mapping

/-- The arguments of a host type that is not erased are mapped one after the other. -/
theorem mapExpr_named {m : Mapping} {name base : Text} {arguments : List TypeExpr}
    (harguments : arguments ≠ []) (hcore : m.coreType? name = none)
    (huser : m.userType name = .ok base) (hbase : base ≠ m.options.dynamicType) :
    m.mapExpr (.named name arguments) = (arguments.mapM m.mapExpr).map (applied base) := by
  obtain ⟨first, others, rfl⟩ := List.exists_cons_of_ne_nil harguments
  rw [mapExpr, hcore, huser, ← mapExprs_eq_mapM, mapExprs]
  simp only [bind, Except.bind, if_neg hbase]
  cases m.mapExpr first with
  | error e => rfl
  | ok t =>
    cases m.mapExprs others with
    | error e => rfl
    | ok ts => rfl

/-- **Mapping is compositional.**  With the default options an array mark behind a text is mapped to
an array of what the text is mapped to, the nullable wrapper around one to `Null` of it, and the
name of a type below the root namespace in front of a list of texts to its package and identifier,
applied to what they are mapped to.  If a text is not mapped, the whole fails as the first such text
does. -/
theorem map_composes {index : ArityIndex} :
    let m : Mapping := ⟨index, {}⟩
    (∀ t, (m.parse t).height < TypeExpr.maxDepth →
      m.map (t ++ arraySuffix) = (m.map t).map fun u => applied "Array".toList [u]) ∧
    (∀ t, (m.parse t).height < TypeExpr.maxDepth → Unsplit 0 t →
      m.map (nullableName ++ '<' :: t ++ ['>']) =
        (m.map t).map fun u => applied "Null".toList [u]) ∧
    ∀ name rest ts, name = "Sandbox.".toList ++ rest → IsName name → ¬NamesParameter name →
      ts ≠ [] → (∀ t ∈ ts, IsPiece t ∧ (m.parse t).height < TypeExpr.maxDepth) →
      ∃ package identifier, Package.nameOfReference {} (namespaceOf name) = some package ∧
        typeIdentifier? ({} : Options).defaultTypeName (simpleName name) = some identifier ∧
        m.map (name ++ '<' :: join [','] ts ++ ['>']) =
          (ts.mapM m.map).map (applied (package ++ '.' :: identifier)) := by
  intro m
  have hvocabulary := isVocabulary_default
  refine ⟨fun t h => ?_, fun t h hsplit => ?_, fun name rest ts hbelow hname hparameter hne h => ?_⟩
  · rw [map, parse, TypeExpr.parse_append_arraySuffix hvocabulary h, mapExpr]
    rfl
  · rw [map, parse, TypeExpr.parse_nullableName hvocabulary hsplit h, mapExpr]
    rfl
  · have hhome : Package.IsHome {} (namespaceOf name) := by
      rw [hbelow]
      exact Package.isHome_namespaceOf rest
    have hpackage := Package.nameOfReference_of_isHome (o := {}) (by decide) hhome
    obtain ⟨identifier, hidentifier, huser⟩ := userType_of_isHome hhome index
    have hcore := coreType?_of_isHome hhome m
    have hnullable : name ≠ nullableName := by
      rintro rfl
      exact hhome.ne_system (by decide)
    refine ⟨_, identifier, hpackage, hidentifier, ?_⟩
    rw [map, parse, TypeExpr.parse_applied hvocabulary hname hparameter hnullable hne
      (fun t ht => (h t ht).1) fun t ht => (h t ht).2,
      mapExpr_named (by simpa using hne) hcore huser (qualified_ne_dynamicType _ _), List.mapM_map]
    rfl

/-- A malformed element, a blank between the brackets of the nullable wrapper, and arguments with
blanks around them and brackets inside. -/
theorem map_composes_map :
    let m : Mapping := {}
    let element := "System.Int32[]>,".toList
    let name := "Sandbox.UI.Map".toList ++ [arityMark, '2']
    let key := " System.Int32".toList
    let value := "Sandbox.Map<T,System.Byte>[]".toList
    ((m.parse element).height < TypeExpr.maxDepth ∧
        m.map (element ++ arraySuffix) = .ok "Array<Dynamic>".toList) ∧
      ((m.parse [' ']).height < TypeExpr.maxDepth ∧ Unsplit 0 [' '] ∧
        m.map (nullableName ++ '<' :: [' '] ++ ['>']) = .ok "Null<Dynamic>".toList) ∧
      IsName name ∧ ¬NamesParameter name ∧
      (∀ t ∈ [key, value], IsPiece t ∧ (m.parse t).height < TypeExpr.maxDepth) ∧
      m.map (name ++ '<' :: join [','] [key, value] ++ ['>']) =
        .ok "sbox.ui.Map<Int,Array<sbox.Map<T,Int>>>".toList := by
  intro m element name key value
  obtain ⟨harray, hnullable, happlied⟩ := @map_composes {}
  have helement : (m.parse element).height < TypeExpr.maxDepth := by decide +kernel
  have hblank : (m.parse [' ']).height < TypeExpr.maxDepth := by decide +kernel
  have hunsplit : Unsplit 0 [' '] := unsplit_of_no_comma (by decide)
  have hname : IsName name := by
    refine ⟨?_, ?_, ?_, ?_, ?_, ?_⟩
    all_goals decide +kernel
  have hparameter : ¬NamesParameter name := by decide +kernel
  have hinner : Balanced "T,System.Byte".toList :=
    balanced_of_no_bracket (by decide) (by decide)
  have hmap : IsClosed "Sandbox.Map<T,System.Byte>".toList :=
    @isClosed_applied "Sandbox.Map".toList _
      (balanced_of_no_bracket (by decide) (by decide)) (by decide) hinner
  have hvalue : Unsplit 0 value :=
    hmap.unsplit.append (unsplit_of_no_comma (t := arraySuffix) (by decide))
  have hpieces : ∀ t ∈ [key, value], IsPiece t ∧ (m.parse t).height < TypeExpr.maxDepth := by
    rw [List.forall_mem_cons, List.forall_mem_singleton]
    refine ⟨⟨⟨by decide +kernel, by decide, unsplit_of_no_comma (by decide)⟩, by decide +kernel⟩,
      ⟨by decide +kernel, by decide, hvalue⟩, by decide +kernel⟩
  refine ⟨⟨helement, ?_⟩, ⟨hblank, hunsplit, ?_⟩, hname, hparameter, hpieces, ?_⟩
  · rw [harray element helement]
    decide +kernel
  · rw [hnullable [' '] hblank hunsplit]
    decide +kernel
  · obtain ⟨package, identifier, hpackage, hidentifier, hmapped⟩ :=
      happlied name ("UI.Map".toList ++ [arityMark, '2']) [key, value] rfl hname hparameter
        (List.cons_ne_nil _ _) hpieces
    obtain rfl : "sbox.ui".toList = package := Option.some_inj.mp (by rw [← hpackage]; decide +kernel)
    obtain rfl : "Map".toList = identifier :=
      Option.some_inj.mp (by rw [← hidentifier]; decide +kernel)
    rw [hmapped]
    decide +kernel

end Mapping
end HaxeBindings
