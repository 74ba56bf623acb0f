import HaxeBindings.Generation.Render
import HaxeBindings.Proofs.Schema.Arity
import HaxeBindings.Proofs.TypeExpr.Leaves

/-!
# What a mapping asks its index for

A mapping asks its index for the arities of bases and for nothing else, and it asks
for those at the leaves of a type only.

* `mapExpr_congr`, `upgradeText_congr` --- two indexes that know the same arities of the
  bases at the leaves of a type map it alike and upgrade it alike;
* `render_congr` --- two indexes that know the same arities of every base may list their
  bases differently, and no extern tells them apart.
-/

namespace HaxeBindings

open Text Schema

/-- Indexes that know the same arities of every base. -/
def ArityIndex.SameArities (i j : ArityIndex) : Prop := ∀ base, i.arities base = j.arities base

section

variable {i j : ArityIndex}

theorem chooseArity?_congr {base : Text} (h : i.arities base = j.arities base) (generics : Int) :
    i.chooseArity? base generics = j.chooseArity? base generics := by
  rw [ArityIndex.chooseArity?, ArityIndex.chooseArity?, h]

/-- For a name without arguments the arities of what stands in front of its mark are asked for. -/
theorem impliedArity_congr {name : Text}
    (h : i.arities (before arityMark name) = j.arities (before arityMark name)) (o : Options) :
    (⟨i, o⟩ : Mapping).impliedArity name = (⟨j, o⟩ : Mapping).impliedArity name := by
  have hasked : i.instantiationArity? name = j.instantiationArity? name := by
    unfold ArityIndex.instantiationArity?
    refine bind_congr_of_ok ?_
    rintro ⟨front, marker⟩ hsplit
    obtain rfl := splitArity_eq_ok hsplit
    simp only [h]
  rw [Mapping.impliedArity, Mapping.impliedArity, hasked]

/-! ## Mapped types -/

/-- The leaves of a list of expressions. -/
theorem mem_leafNames_nodesOfAll {es : List TypeExpr} {name : Text} :
    name ∈ (TypeExpr.nodesOfAll es).filterMap TypeExpr.leafName? ↔
      ∃ e ∈ es, name ∈ e.leafNames := by
  rw [TypeExpr.nodesOfAll_eq_flatMap, List.filterMap_flatMap, List.mem_flatMap]
  rfl

mutual

/-- **A type is mapped by the arities at its leaves.** -/
theorem mapExpr_congr (o : Options) : ∀ e : TypeExpr,
    (∀ name ∈ e.leafNames, i.arities (before arityMark name) = j.arities (before arityMark name)) →
      (⟨i, o⟩ : Mapping).mapExpr e = (⟨j, o⟩ : Mapping).mapExpr e
  | .primitive _, _ => rfl
  | .parameter _, _ => rfl
  | .array element, h => by rw [Mapping.mapExpr, Mapping.mapExpr, mapExpr_congr o element h]
  | .nullable inner, h => by rw [Mapping.mapExpr, Mapping.mapExpr, mapExpr_congr o inner h]
  | .named name [], h => by
    rw [Mapping.mapExpr, Mapping.mapExpr, impliedArity_congr (h name List.mem_cons_self) o]
    rfl
  | .named name (first :: others), h => by
    have hall : ∀ e ∈ first :: others, ∀ name ∈ e.leafNames,
        i.arities (before arityMark name) = j.arities (before arityMark name) :=
      fun e he name hname => h name (mem_leafNames_nodesOfAll.mpr ⟨e, he, hname⟩)
    obtain ⟨hfirst, hothers⟩ := List.forall_mem_cons.mp hall
    rw [Mapping.mapExpr, Mapping.mapExpr, mapExpr_congr o first hfirst,
      mapExprs_congr o others hothers]
    rfl
  | .unclassified, _ => rfl

theorem mapExprs_congr (o : Options) : ∀ es : List TypeExpr,
    (∀ e ∈ es, ∀ name ∈ e.leafNames,
      i.arities (before arityMark name) = j.arities (before arityMark name)) →
      (⟨i, o⟩ : Mapping).mapExprs es = (⟨j, o⟩ : Mapping).mapExprs es
  | [], _ => rfl
  | e :: es, h => by
    obtain ⟨hfirst, hothers⟩ := List.forall_mem_cons.mp h
    rw [Mapping.mapExprs, Mapping.mapExprs, mapExpr_congr o e hfirst, mapExprs_congr o es hothers]

end

theorem map_congr (h : i.SameArities j) (o : Options) :
    (⟨i, o⟩ : Mapping).map = (⟨j, o⟩ : Mapping).map := by
  funext text
  exact mapExpr_congr o _ fun name _ => h (before arityMark name)

/-! ## Upgrades -/

theorem upgrade?_congr (generics : List Text) (placeholder : Text) {e : TypeExpr}
    (h : ∀ levels name, TypeExpr.IsBare levels name e → i.arities name = j.arities name) :
    TypeExpr.upgrade? i generics placeholder e = TypeExpr.upgrade? j generics placeholder e := by
  by_cases hbare : ∃ levels name, TypeExpr.IsBare levels name e
  · obtain ⟨levels, name, hbare⟩ := hbare
    rw [hbare.upgrade?, hbare.upgrade?, TypeExpr.instantiate?, TypeExpr.instantiate?,
      chooseArity?_congr (h levels name hbare)]
  · have hnone (index : ArityIndex) : TypeExpr.upgrade? index generics placeholder e = none :=
      Option.not_isSome_iff_eq_none.mp fun hsome =>
        hbare (TypeExpr.exists_isBare_of_isSome_upgrade? hsome)
    rw [hnone i, hnone j]

/-- **A text is upgraded by the arities at its leaves.** -/
theorem upgradeText_congr (generics : List Text) (placeholder : Text) {text : Text}
    (h : ∀ name ∈ (TypeExpr.parse [placeholder] text).leafNames,
      i.arities name = j.arities name) :
    TypeExpr.upgradeText i generics placeholder text =
      TypeExpr.upgradeText j generics placeholder text := by
  unfold TypeExpr.upgradeText
  simp only [TypeExpr.parse_strip]
  rw [upgrade?_congr generics placeholder fun _ name hbare => h name hbare.mem_leafNames]

/-- A method is upgraded by what becomes of its types, or of that of no result. -/
theorem upgraded_congr_of_types {m m' : Mapping} {method : Method}
    (h : ∀ t, t = voidName ∨ t ∈ method.types →
      TypeExpr.upgradeText m.index method.genericParameters m.options.dynamicType t =
        TypeExpr.upgradeText m'.index method.genericParameters m'.options.dynamicType t) :
    method.upgraded m = method.upgraded m' := by
  have hresult := h (if method.returnType.isEmpty then voidName else method.returnType) <| by
    split
    · exact .inl rfl
    · exact .inr List.mem_cons_self
  have hparameters : method.parameters.map (fun p => { p with
        type := TypeExpr.upgradeText m.index method.genericParameters m.options.dynamicType
          p.type }) =
      method.parameters.map (fun p => { p with
        type := TypeExpr.upgradeText m'.index method.genericParameters m'.options.dynamicType
          p.type }) :=
    List.map_congr_left fun p hp => by
      rw [h p.type (.inr (List.mem_cons_of_mem _ (List.mem_map_of_mem hp)))]
  simp only [Method.upgraded]
  rw [hresult, hparameters]

theorem upgraded_congr (h : i.SameArities j) (o : Options) :
    Method.upgraded ⟨i, o⟩ = Method.upgraded ⟨j, o⟩ :=
  funext fun _ => upgraded_congr_of_types fun _ _ => upgradeText_congr _ _ fun name _ => h name

/-! ## Externs -/

theorem memberGroups_congr (h : i.SameArities j) (o : Options) (d : Descriptor) :
    memberGroups (⟨i, o⟩ : Mapping).map ⟨i, o⟩ d =
      memberGroups (⟨j, o⟩ : Mapping).map ⟨j, o⟩ d := by
  unfold memberGroups methodGroups
  rw [map_congr h o, upgraded_congr h o]

/-- **A descriptor is rendered alike in contexts that know the same arities.** -/
theorem render_congr (h : i.SameArities j) (o : Options) (d : Descriptor) :
    (⟨i, o⟩ : Mapping).render d = (⟨j, o⟩ : Mapping).render d := by
  unfold Mapping.render
  rw [memberGroups_congr h o d]

end

end HaxeBindings
