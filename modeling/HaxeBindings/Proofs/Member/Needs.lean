import HaxeBindings.Proofs.Member.Emitted
import HaxeBindings.Proofs.Traversal

/-!
# An emission depends on the types it asks for

Whatever answers the questions, what is emitted for a type depends on the answers to the
questions that are asked and on nothing else, failures and their order included.  Two
ways of asking that agree there cannot be told apart, however they differ elsewhere.

* `constructorGroup_congr`, `propertyGroup_congr`, `methodGroup_congr` --- for a group
  these are the types of its members.  The declarations are asked for after the keys, of
  the members that were kept, so nothing new is asked then;
* `memberGroups_congr_of_askedTypes` --- for a descriptor these are the types that its
  groups need, once its methods are upgraded alike.
-/

namespace HaxeBindings

open Text Schema

section

variable {ask ask' : Text → Except MappingError Text}

/-! ## Members -/

theorem parameterTypes_congr {ps : List Parameter} (h : ∀ p ∈ ps, ask p.type = ask' p.type) :
    parameterTypes ask ps = parameterTypes ask' ps := mapM_congr h

theorem formatParameters_congr {ps : List Parameter} (h : ∀ p ∈ ps, ask p.type = ask' p.type) :
    formatParameters ask ps = formatParameters ask' ps := by
  rw [formatParameters, formatParameters, parameterTypes_congr h]

theorem parameterKey_congr {ps : List Parameter} (h : ∀ p ∈ ps, ask p.type = ask' p.type) :
    parameterKey ask ps = parameterKey ask' ps := by
  rw [parameterKey, parameterKey, parameterTypes_congr h]

theorem constructorKey_congr {c : Constructor} (h : ∀ t ∈ c.types, ask t = ask' t) :
    c.key ask = c.key ask' := by
  rw [Constructor.key, Constructor.key, parameterKey_congr (List.forall_mem_map.mp h)]

theorem constructorLine_congr {c : Constructor} (h : ∀ t ∈ c.types, ask t = ask' t)
    (overloaded : Bool) : c.line ask overloaded = c.line ask' overloaded := by
  rw [Constructor.line, Constructor.line, formatParameters_congr (List.forall_mem_map.mp h)]

theorem methodKey_congr {method : Method} (h : ∀ t ∈ method.types, ask t = ask' t)
    (generics : List Text) : method.key ask generics = method.key ask' generics := by
  obtain ⟨hresult, hparameters⟩ := List.forall_mem_cons.mp h
  rw [Method.key, Method.key, hresult, parameterKey_congr (List.forall_mem_map.mp hparameters)]

theorem methodLine_congr {method : Method} (h : ∀ t ∈ method.types, ask t = ask' t)
    (overloaded : Bool) (generics : List Text) :
    method.line ask overloaded generics = method.line ask' overloaded generics := by
  obtain ⟨hresult, hparameters⟩ := List.forall_mem_cons.mp h
  rw [Method.line, Method.line, hresult,
    formatParameters_congr (List.forall_mem_map.mp hparameters)]

/-! ## Groups -/

/-- The constructors that are declared are among the given ones. -/
theorem mem_of_orderedConstructors {cs : List Constructor} {ordered : List (Text × Constructor)}
    (h : orderedConstructors ask cs = .ok ordered) {e : Text × Constructor} (he : e ∈ ordered) :
    e.2 ∈ cs.filter Constructor.isPublic := by
  unfold orderedConstructors at h
  obtain ⟨keyed, hkeyed, h⟩ := bind_eq_ok h
  rw [← Except.ok.inj h, List.mem_mergeSort] at he
  obtain ⟨c, hc, hkey⟩ := (exists_of_mapM_eq_ok hkeyed).2 e (Sorted.mem_of_mem_firstPerKey he)
  obtain ⟨key, -, hkey⟩ := bind_eq_ok hkey
  rw [← Except.ok.inj hkey]
  exact hc

theorem constructorGroup_congr {cs : List Constructor}
    (h : ∀ c ∈ cs.filter Constructor.isPublic, ∀ t ∈ c.types, ask t = ask' t) :
    constructorGroup ask cs = constructorGroup ask' cs := by
  have hordered : orderedConstructors ask cs = orderedConstructors ask' cs := by
    unfold orderedConstructors
    rw [mapM_congr fun c hc => by rw [constructorKey_congr (h c hc)]]
  unfold constructorGroup
  rw [← hordered]
  refine bind_congr_of_ok fun ordered hok => ?_
  simp only
  rw [mapM_congr fun e he => constructorLine_congr (h e.2 (mem_of_orderedConstructors hok he)) _]

theorem propertyGroup_congr {p : Property} (h : ∀ t ∈ p.askedTypes, ask t = ask' t) :
    propertyGroup ask p = propertyGroup ask' p := by
  unfold Property.askedTypes at h
  unfold propertyGroup
  simp only
  split
  · rfl
  · next hname =>
    rw [if_neg hname] at h
    rw [Property.line, Property.line, h _ List.mem_cons_self]

/-- The methods that are declared are among the given ones. -/
theorem mem_of_orderedMethods {methods : List Method} {ordered : List KeyedMethod}
    (h : orderedMethods ask methods = .ok ordered) {e : KeyedMethod} (he : e ∈ ordered) :
    e.method ∈ methods := by
  unfold orderedMethods at h
  obtain ⟨keyed, hkeyed, h⟩ := bind_eq_ok h
  rw [← Except.ok.inj h, List.mem_mergeSort] at he
  obtain ⟨method, hmethod, hkey⟩ :=
    (exists_of_mapM_eq_ok hkeyed).2 e (Sorted.mem_of_mem_firstPerKey he)
  obtain ⟨key, -, hkey⟩ := bind_eq_ok hkey
  rw [← Except.ok.inj hkey]
  exact hmethod

theorem methodGroup_congr {name : Text} {methods : List Method}
    (h : ∀ method ∈ methods, ∀ t ∈ method.types, ask t = ask' t) :
    methodGroup ask name methods = methodGroup ask' name methods := by
  have hordered : orderedMethods ask methods = orderedMethods ask' methods := by
    unfold orderedMethods
    rw [mapM_congr fun method hmethod => by
      simp only
      rw [methodKey_congr (h method hmethod)]]
  unfold methodGroup
  rw [← hordered]
  refine bind_congr_of_ok fun ordered hok => ?_
  simp only
  rw [mapM_congr fun e he => methodLine_congr (h e.method (mem_of_orderedMethods hok he)) _ _]

/-! ## Descriptors -/

variable {m m' : Mapping}

theorem methodGroups_congr {methods : List Method}
    (hasked : ∀ t ∈ m.methodTypes methods, ask t = ask' t)
    (hupgraded : ∀ method ∈ methods, method.upgraded m' = method.upgraded m) :
    methodGroups ask m methods = methodGroups ask' m' methods := by
  have hgroup : ∀ name ∈ methodNames methods,
      methodGroup ask name ((methodsNamed name methods).map (Method.upgraded m)) =
        methodGroup ask' name ((methodsNamed name methods).map (Method.upgraded m)) := by
    intro name hname
    refine methodGroup_congr (List.forall_mem_map.mpr fun method hmethod t ht => hasked t ?_)
    exact mem_methodTypes.mpr (List.mem_flatMap.mpr
      ⟨name, hname, List.mem_flatMap.mpr ⟨method, hmethod, ht⟩⟩)
  unfold methodGroups
  simp only
  rw [List.map_congr_left hupgraded, methodNames_upgraded]
  simp only [methodsNamed_upgraded]
  rw [mapM_congr hgroup]

/-- **What is emitted for a descriptor depends on the answers that its groups need.** -/
theorem memberGroups_congr_of_askedTypes {d : Descriptor}
    (hasked : ∀ t ∈ m.askedTypes d, ask t = ask' t)
    (hupgraded : ∀ method ∈ d.methods, method.upgraded m' = method.upgraded m) :
    memberGroups ask m d = memberGroups ask' m' d := by
  rw [Mapping.askedTypes, List.forall_mem_append, List.forall_mem_append] at hasked
  obtain ⟨hconstructors, hproperties, hmethods⟩ := hasked
  have hgroup : constructorGroup ask d.constructors = constructorGroup ask' d.constructors :=
    constructorGroup_congr fun c hc t ht => hconstructors t (List.mem_flatMap.mpr ⟨c, hc, ht⟩)
  have hgroups : d.properties.mapM (propertyGroup ask) = d.properties.mapM (propertyGroup ask') :=
    mapM_congr fun p hp =>
      propertyGroup_congr fun t ht => hproperties t (List.mem_flatMap.mpr ⟨p, hp, ht⟩)
  rw [memberGroups, memberGroups, hgroup, hgroups, methodGroups_congr hmethods hupgraded]

end

end HaxeBindings
