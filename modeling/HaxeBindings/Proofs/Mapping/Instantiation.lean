import HaxeBindings.Member.Signature
import HaxeBindings.Proofs.ArityIndex.Choice
import HaxeBindings.Proofs.Mapping.Composition
import HaxeBindings.Proofs.Mapping.DefinedArity
import HaxeBindings.Proofs.TypeExpr.Upgraded

/-!
# Two ways to fill in arguments

A bare name of a generic type gets its arguments in one of two places.  In the types of a
method it is upgraded: its text is replaced by the text of an instantiation, and that is
read and mapped.  Everywhere else the name itself is read, and the mapping fills the
arguments in while it maps.  Inside a method without generic parameters both fill in the
dynamic type, and this file says that they come to the same.

* `ArityIndex.IsOfUserTypes` --- the indexes of which that can be said;
* `TypeExpr.parseWithin_of_isBare` --- the two readers, with one word in the vocabulary and
  with all of them, read a bare name alike;
* `Mapping.mapExpr_instantiated` --- the instantiation is mapped to what the mapping makes
  of the bare name;
* `Mapping.map_upgradeText` --- so an upgrade with dynamic arguments does not show in the
  target type, and neither does it in the declaration of a method.
-/

namespace HaxeBindings

open Text Schema Name

/-! ## Marked names -/

namespace Name

/-- The identifier of a type does not depend on its arity mark. -/
theorem typeIdentifier?_markArity {name : Text} (hopen : '<' ∉ name) (hmark : arityMark ∉ name)
    (default : Text) (arity : Int) :
    typeIdentifier? default (markArity name arity) = typeIdentifier? default name := by
  have hopen' : '<' ∉ markArity name arity :=
    not_mem_markArity hopen (by decide) (by decide) (by decide) arity
  have husable : usablePart (markArity name arity) = usablePart name := by
    rw [usablePart, usablePart, before_eq_self hopen', before_eq_self hopen, before_eq_self hmark,
      markArity, before_append_cons hmark]
  rw [typeIdentifier?, typeIdentifier?, husable]

end Name

theorem Schema.no_dot_mark (arity : Int) : '.' ∉ arityMark :: ofInt arity := fun hdot => by
  rcases isDigit_of_mem_mark hdot with h | h | h
  · exact absurd h (by decide)
  · exact absurd h (by decide)
  · exact absurd h (by decide)

theorem Schema.namespaceOf_markArity (name : Text) (arity : Int) :
    namespaceOf (markArity name arity) = namespaceOf name :=
  namespaceOf_append (no_dot_mark arity) name

theorem Schema.simpleName_markArity (name : Text) (arity : Int) :
    simpleName (markArity name arity) = markArity (simpleName name) arity :=
  simpleName_append (no_dot_mark arity) name

/-- A user type and its instantiations have one target name. -/
theorem Mapping.userType_markArity {m : Mapping} {name : Text} (hopen : '<' ∉ name)
    (hmark : arityMark ∉ name) (arity : Int) :
    m.userType (markArity name arity) = m.userType name := by
  have hidentifier : typeIdentifier? m.options.defaultTypeName (simpleName (markArity name arity)) =
      typeIdentifier? m.options.defaultTypeName (simpleName name) := by
    rw [simpleName_markArity]
    exact typeIdentifier?_markArity (fun h => hopen (mem_of_mem_simpleName h))
      (fun h => hmark (mem_of_mem_simpleName h)) _ arity
  rw [userType, userType, namespaceOf_markArity, hidentifier]

/-! ## Reading -/

namespace TypeExpr

variable {words vocabulary : List Text}

/-- A keyword that is read without its vocabulary is a name, and it has no arguments. -/
theorem eq_keyword_of_isBare {keyword : Text} (hkeyword : IsName keyword) {read : Text → TypeExpr}
    {depth : Nat} {name : Text} (h : IsBare depth name (ofShape read (shape words keyword))) :
    name = keyword := by
  by_cases hword : keyword ∈ words
  · rw [shape_keyword hkeyword hword] at h
    exact nomatch h
  · by_cases hparameter : NamesParameter keyword
    · rw [shape_parameter hkeyword.trimmed hkeyword.no_open hword hparameter] at h
      cases h with
      | parameter => rfl
    · rw [shape_bare hkeyword hparameter hword] at h
      cases h with
      | named _ => rfl

/-- **A bare name is read alike by readers with fewer and with more words**, unless it is itself a
word. -/
theorem parseWithin_of_isBare (hvocabulary : ∀ k ∈ vocabulary, IsName k)
    (hwords : words ⊆ vocabulary) {name : Text} (hname : name ∉ vocabulary)
    {levels depth : Nat} {text : Text} (h : IsBare depth name (parseWithin words levels text)) :
    parseWithin vocabulary levels text = parseWithin words levels text := by
  induction levels generalizing depth text with
  | zero => rfl
  | succ levels ih =>
    rw [parseWithin_succ] at h
    rw [parseWithin_succ, parseWithin_succ]
    rcases shape_eq_or_primitive hwords text with hshape | ⟨keyword, hshape⟩
    · rw [hshape]
      rcases h.of_ofShape with ⟨-, ⟨hs, -⟩ | hs | hs⟩ | ⟨below, element, -, hs, h⟩
      · rw [hs]; rfl
      · rw [hs]; rfl
      · rw [hs]; rfl
      · rw [hs, ofShape, ofShape, ih h]
    · obtain ⟨hkeyword, hmem⟩ := strip_of_shape_eq_primitive hshape
      rw [← shape_strip, hkeyword] at h
      exact absurd (eq_keyword_of_isBare (hvocabulary _ hmem) h ▸ hmem) hname

end TypeExpr

/-! ## Mapping -/

/-- Indexes of user types: their bases are host names by their form, of the root namespace or
without a namespace, and every arity is that of a generic type. -/
structure ArityIndex.IsOfUserTypes (index : ArityIndex) : Prop where
  positive : ∀ e ∈ index.entries, ∀ a ∈ e.2, 0 < a
  no_open : ∀ e ∈ index.entries, '<' ∉ e.1
  home : ∀ e ∈ index.entries, '.' ∉ e.1 ∨ "Sandbox.".toList <+: e.1
  not_keyword : ∀ e ∈ index.entries, e.1 ∉ ({} : Options).vocabulary
  not_parameter : ∀ e ∈ index.entries, ¬NamesParameter e.1

namespace Mapping

open TypeExpr

/-- The namespace of a name without dots or below the root namespace is one that members can refer
to. -/
theorem isHome_namespaceOf {name : Text} (h : '.' ∉ name ∨ "Sandbox.".toList <+: name) :
    Package.IsHome {} (namespaceOf name) := by
  rcases h with hdot | ⟨rest, rfl⟩
  · exact .inl (namespaceOf_eq_nil hdot)
  · exact Package.isHome_namespaceOf rest

/-- Arrays of expressions that are mapped alike are mapped alike. -/
theorem mapExpr_arrays_congr {m : Mapping} {e e' : TypeExpr} (h : m.mapExpr e = m.mapExpr e')
    (levels : Nat) : m.mapExpr (arrays levels e) = m.mapExpr (arrays levels e') := by
  induction levels with
  | zero => exact h
  | succ levels ih => rw [arrays, arrays, mapExpr, mapExpr, ih]

/-- The number of arguments that the mapping gives a name without a mark. -/
theorem impliedArity_of_unmarked (m : Mapping) {name : Text} (hmark : hasArityMark name = false) :
    m.impliedArity name = .ok ((m.index.arities name).head?.getD 0).toNat := by
  rw [impliedArity, ArityIndex.instantiationArity?, splitArity_of_unmarked hmark]
  rfl

/-- The mapping gives a bare name as many arguments as an upgrade outside generic methods. -/
theorem impliedArity_of_chooseArity? {m : Mapping} {name : Text} {arity : Nat}
    (hmark : hasArityMark name = false)
    (h : m.index.chooseArity? name 0 = some (arity : Int)) : m.impliedArity name = .ok arity := by
  have hhead : (m.index.arities name).head? = some (arity : Int) := by
    rwa [ArityIndex.chooseArity?, if_neg fun h => Int.lt_irrefl 0 h.1] at h
  rw [impliedArity_of_unmarked m hmark, hhead, Option.getD_some, Int.toNat_natCast]

theorem mapExpr_object (m : Mapping) : m.mapExpr object = .ok m.options.dynamicType := by
  have hcore : m.coreType? objectName = some m.options.dynamicType := rfl
  rw [object, mapExpr, impliedArity_of_unmarked m (by decide), hcore]
  rfl

/-- The dynamic type is read as a keyword or cut off, and comes out as itself in both cases. -/
theorem mapExpr_dynamicType (index : ArityIndex) (levels : Nat) :
    (⟨index, {}⟩ : Mapping).mapExpr
      (parseWithin ({} : Options).vocabulary levels ({} : Options).dynamicType) =
        .ok ({} : Options).dynamicType := by
  cases levels with
  | zero => exact mapExpr_object _
  | succ levels =>
    have hshape : shape ({} : Options).vocabulary ({} : Options).dynamicType = .primitive _ :=
      shape_keyword (by decide) List.mem_cons_self
    rw [parseWithin_succ, hshape, ofShape, mapExpr]

/-- **An instantiation with dynamic arguments is mapped to what the mapping makes of the bare
name.** -/
theorem mapExpr_instantiated {index : ArityIndex} {name : Text} {arity : Nat}
    (hopen : '<' ∉ name) (hmark : hasArityMark name = false)
    (hhome : Package.IsHome {} (namespaceOf name)) (hpositive : 0 < arity)
    (harity : index.chooseArity? name 0 = some (arity : Int)) {arguments : List TypeExpr}
    (hlength : arguments.length = arity)
    (harguments : ∀ a ∈ arguments,
      (⟨index, {}⟩ : Mapping).mapExpr a = .ok ({} : Options).dynamicType) :
    (⟨index, {}⟩ : Mapping).mapExpr (.named (markArity name arity) arguments) =
      (⟨index, {}⟩ : Mapping).mapExpr (.named name []) := by
  have hunmarked : arityMark ∉ name := by simpa [hasArityMark] using hmark
  obtain ⟨className, -, huser⟩ := userType_of_isHome hhome index
  have hmarked := (userType_markArity hopen hunmarked arity).trans huser
  have hne := qualified_ne_dynamicType (Package.ofType {} (namespaceOf name)).name className
  have hcore := coreType?_of_isHome hhome ⟨index, {}⟩
  have hcore' := coreType?_of_isHome (namespaceOf_markArity name arity ▸ hhome) ⟨index, {}⟩
  have hdynamic : arguments.mapM (⟨index, {}⟩ : Mapping).mapExpr =
      .ok (List.replicate arity ({} : Options).dynamicType) := by
    rw [mapM_eq_ok harguments, List.map_const', hlength]
  have hsome : arguments ≠ [] := List.ne_nil_of_length_pos (hlength.symm ▸ hpositive)
  rw [mapExpr_named hsome hcore' hmarked hne, hdynamic,
    mapExpr_bare (impliedArity_of_chooseArity? hmark harity) hcore huser, applyTo, if_neg,
    if_neg hne]
  · rfl
  · simpa using Nat.pos_iff_ne_zero.mp hpositive

/-- What stands between the brackets of an instantiation with dynamic arguments. -/
theorem argumentsOf_slotTexts {arity : Nat} (hpositive : 0 < arity) :
    argumentsOf (join [','] (slotTexts [] ({} : Options).dynamicType arity)) =
      List.replicate arity ({} : Options).dynamicType := by
  have hslots : slotTexts [] ({} : Options).dynamicType arity =
      List.replicate arity ({} : Options).dynamicType := by
    rw [slotTexts, List.take_nil, List.nil_append, List.length_nil, Nat.sub_zero]
  rw [hslots]
  refine argumentsOf_join (by simpa using Nat.pos_iff_ne_zero.mp hpositive) fun t ht => ?_
  rw [List.eq_of_mem_replicate ht]
  exact (isVocabulary_default.names _ List.mem_cons_self).isArgument

/-- The text of an instantiation with dynamic arguments is read as one, and mapped to what the
mapping makes of the bare name. -/
theorem map_markedText {index : ArityIndex} {name : Text} {arity levels : Nat}
    (htrim : strip name = name) (hopen : '<' ∉ name) (hmark : hasArityMark name = false)
    (hhome : Package.IsHome {} (namespaceOf name)) (hpositive : 0 < arity)
    (harity : index.chooseArity? name 0 = some (arity : Int)) (hlevels : levels ≤ maxDepth) :
    (⟨index, {}⟩ : Mapping).map
        (markedText name arity (join [','] (slotTexts [] ({} : Options).dynamicType arity)) ++
          arrayMarks levels) =
      (⟨index, {}⟩ : Mapping).mapExpr (arrays levels (.named name [])) := by
  have hwords : ∀ word ∈ ({} : Options).vocabulary, arityMark ∉ word := by decide
  have hnullable : markArity name arity ≠ nullableName := by
    intro heq
    have hsystem : namespaceOf name = "System".toList := by
      rw [← namespaceOf_markArity name arity, heq]
      decide
    exact hhome.ne_system hsystem
  obtain ⟨left, hleft⟩ := Nat.exists_eq_add_of_le hlevels
  have hdepth : maxDepth + 1 = levels + (left + 1) := by omega
  have hread : TypeExpr.parse ({} : Options).vocabulary
      (markedText name arity (join [','] (slotTexts [] ({} : Options).dynamicType arity)) ++
        arrayMarks levels) =
      arrays levels (.named (markArity name arity)
        ((List.replicate arity ({} : Options).dynamicType).map
          (parseWithin ({} : Options).vocabulary left))) := by
    rw [TypeExpr.parse, hdepth, parseWithin_append_arrayMarks hwords (strip_markedText htrim _ _)
      (mark_mem_markedText _ _ _), parseWithin_succ, shape_markedText hwords htrim hopen,
      if_neg hnullable, argumentsOf_slotTexts hpositive, ofShape]
  rw [map, parse, hread]
  refine mapExpr_arrays_congr (mapExpr_instantiated hopen hmark hhome hpositive harity ?_ ?_) levels
  · rw [List.length_map, List.length_replicate]
  · intro a ha
    obtain ⟨t, ht, rfl⟩ := List.mem_map.mp ha
    rw [List.eq_of_mem_replicate ht]
    exact mapExpr_dynamicType index left

/-- A text is mapped to what it is mapped to after an upgrade with dynamic arguments. -/
theorem map_upgradeText_nil {index : ArityIndex} (hindex : index.IsOfUserTypes) (text : Text) :
    (⟨index, {}⟩ : Mapping).map (upgradeText index [] ({} : Options).dynamicType text) =
      (⟨index, {}⟩ : Mapping).map text := by
  cases hupgrade : upgrade? index [] ({} : Options).dynamicType
      (TypeExpr.parse [({} : Options).dynamicType] text) with
  | none => rw [upgradeText_of_none hupgrade, map_strip]
  | some e =>
    obtain ⟨levels, name, arity, hbare, harity, -⟩ := exists_isBare_of_upgrade? hupgrade
    obtain ⟨e, he, rfl, ha⟩ := ArityIndex.mem_arities (ArityIndex.mem_of_chooseArity? harity)
    have hhome := isHome_namespaceOf (hindex.home e he)
    have hobject : e.1 ≠ objectName := by
      intro heq
      rw [heq] at hhome
      exact hhome.ne_system (by decide)
    have hpositive := hindex.positive e he arity ha
    obtain ⟨arity, rfl⟩ := Int.eq_ofNat_of_zero_le (Int.le_of_lt hpositive)
    have hne : strip text ≠ [] := by
      intro hblank
      rw [← parse_strip, hblank, parse_nil] at hbare
      exact hobject (hbare.unique isBare_object).2
    -- a user type is a host type by its form, and not too deep to be seen
    obtain ⟨htrim, hparameter | ⟨hread, hmark⟩⟩ := hbare.of_parseWithin
    · exact absurd hparameter (hindex.not_parameter e he)
    · obtain ⟨hlevels, hdeep⟩ := hbare.le_of_parseWithin
      have hlevels : levels ≤ maxDepth :=
        Nat.le_of_lt_succ (Nat.lt_of_le_of_ne hlevels fun heq => hobject (hdeep heq))
      have hparse := parseWithin_of_isBare isVocabulary_default.names
        (List.cons_subset.mpr ⟨List.mem_cons_self, List.nil_subset _⟩) (hindex.not_keyword e he)
        hbare
      rw [upgradeText_of_isBare hne hbare (Int.natCast_pos.mp hpositive) harity,
        map_markedText htrim (hindex.no_open e he) hmark hhome (Int.natCast_pos.mp hpositive) harity
          hlevels, map, parse, TypeExpr.parse, hparse, hread]

/-- **Both ways to fill in arguments come to the same.**  With the default options an upgrade with
dynamic arguments does not show in the target type of any text, so in a method without generic
parameters every parameter list and every result is declared as it is where nothing is upgraded. -/
theorem map_upgradeText {index : ArityIndex} (hindex : index.IsOfUserTypes) :
    let m : Mapping := ⟨index, {}⟩
    (∀ text, m.map (upgradeText index [] m.options.dynamicType text) = m.map text) ∧
      ∀ method : Method, method.genericParameters = [] →
        formatParameters m.map (method.upgraded m).parameters =
          formatParameters m.map method.parameters ∧
        m.map (method.upgraded m).returnType =
          m.map (if method.returnType.isEmpty then voidName else method.returnType) := by
  intro m
  have hmap := map_upgradeText_nil hindex
  refine ⟨hmap, fun method hgenerics => ⟨?_, ?_⟩⟩
  · have htypes : parameterTypes m.map (method.upgraded m).parameters =
        parameterTypes m.map method.parameters := by
      simp only [parameterTypes, Method.upgraded, hgenerics, List.mapM_map]
      exact congrArg method.parameters.mapM (funext fun p => hmap p.type)
    have hnames : parameterNames (method.upgraded m).parameters =
        parameterNames method.parameters := by
      simp only [parameterNames, Method.upgraded, List.zipIdx_map, List.map_map, Function.comp_def,
        Prod.map_fst, Prod.map_snd, id_eq]
    rw [formatParameters, formatParameters, htypes, hnames]
  · simp only [Method.upgraded, hgenerics]
    exact hmap _

/-- An array of a type with two arities, the parameter of a method without generic parameters. -/
theorem map_upgradeText_pool :
    let index : ArityIndex := ⟨[("Sandbox.Pool".toList, [1, 2])]⟩
    let m : Mapping := ⟨index, {}⟩
    let text := "Sandbox.Pool[]".toList
    let upgraded := "Sandbox.Pool".toList ++ [arityMark, '1'] ++ "<Dynamic>[]".toList
    let method : Method :=
      { name := "Fill".toList, parameters := [{ name := ['p'], type := text }] }
    index.IsOfUserTypes ∧ upgradeText index [] "Dynamic".toList text = upgraded ∧
      m.map text = .ok "Array<sbox.Pool<Dynamic>>".toList ∧ m.map upgraded = m.map text ∧
      formatParameters m.map (method.upgraded m).parameters =
        .ok "p:Array<sbox.Pool<Dynamic>>".toList := by
  intro index m text upgraded method
  have hindex : index.IsOfUserTypes := by
    refine ⟨?_, ?_, ?_, ?_, ?_⟩
    all_goals decide +kernel
  have hupgraded : upgradeText index [] "Dynamic".toList text = upgraded := by decide +kernel
  obtain ⟨hmap, hmethods⟩ := map_upgradeText hindex
  have htext : m.map text = .ok "Array<sbox.Pool<Dynamic>>".toList := by decide +kernel
  refine ⟨hindex, hupgraded, htext, ?_, ?_⟩
  · rw [← hupgraded]
    exact hmap text
  · rw [(hmethods method rfl).1]
    decide +kernel

end Mapping
end HaxeBindings
