import HaxeBindings.Proofs.Member.Asking
import HaxeBindings.Proofs.Sorted.Selection

/-!
# What is emitted for a type

Keys, declarations and groups are computed while types are asked for.  This file
writes down what comes out when every type that is needed is mapped, as functions
of the host's members: `Mapping.signature` and `Mapping.declaration` are the key
and the line of a method after its upgrade, `Mapping.selectedMethods` are the
methods of a name that are declared, and `Mapping.groupOf` is their group.

* `asks_methodGroups` --- the groups of the methods of a type are `groupOf` of each
  name, in ascending order of the names;
* `asks_constructorGroup` --- and the group of its constructors likewise;
* `asks_memberGroups` --- the groups of a descriptor need the types of its public
  constructors, of its named properties and of its named methods
  (`Mapping.askedTypes`).
-/

namespace HaxeBindings

open Text Schema

theorem Text.isOrder_le : Sorted.IsOrder id Text.le where
  total a b := by
    rw [Bool.or_eq_true]
    exact Text.le_total a b
  trans _ _ _ := Text.le_trans
  antisymm _ _ := Text.le_antisymm

/-- A flag can be read off the letter it is written as. -/
theorem eq_of_letter_eq {yes no : Char} (hne : yes ≠ no) {a b : Bool}
    (h : (if a = true then yes else no) = if b = true then yes else no) : a = b := by
  cases a with
  | false =>
    cases b with
    | false => rfl
    | true => exact absurd h.symm hne
  | true =>
    cases b with
    | false => exact absurd h hne
    | true => rfl

namespace Sorted

/-- An order of keys orders what has them. -/
theorem IsOrder.comap {α β κ : Type} {key : β → κ} {le : β → β → Bool} (h : IsOrder key le)
    (f : α → β) : IsOrder (key ∘ f) fun a b => le (f a) (f b) where
  total a b := h.total (f a) (f b)
  trans a b c := h.trans (f a) (f b) (f c)
  antisymm a b := h.antisymm (f a) (f b)

end Sorted

theorem KeyedMethod.le_iff {a b : KeyedMethod} :
    KeyedMethod.le a b = true ↔ a.method.parameters.length < b.method.parameters.length ∨
      a.method.parameters.length = b.method.parameters.length ∧ Text.le a.key b.key = true := by
  rw [KeyedMethod.le, Bool.or_eq_true, Bool.and_eq_true, beq_iff_eq, decide_eq_true_eq]

/-- Parameter count first and key second is an order that tells keys apart. -/
theorem KeyedMethod.isOrder_le : Sorted.IsOrder KeyedMethod.key KeyedMethod.le where
  total a b := by
    rw [Bool.or_eq_true, le_iff, le_iff]
    have hkeys := Text.le_total a.key b.key
    rcases Nat.lt_trichotomy a.method.parameters.length b.method.parameters.length with h | h | h
    · exact .inl (.inl h)
    · rcases hkeys with hkeys | hkeys
      · exact .inl (.inr ⟨h, hkeys⟩)
      · exact .inr (.inr ⟨h.symm, hkeys⟩)
    · exact .inr (.inl h)
  trans a b c := by
    rw [le_iff, le_iff, le_iff]
    rintro (h | ⟨h, hkeys⟩) (k | ⟨k, kkeys⟩)
    · exact .inl (Nat.lt_trans h k)
    · exact .inl (k ▸ h)
    · exact .inl (h ▸ k)
    · exact .inr ⟨h.trans k, Text.le_trans hkeys kkeys⟩
  antisymm a b := by
    rw [le_iff, le_iff]
    rintro (h | ⟨h, hkeys⟩) (k | ⟨k, kkeys⟩)
    · exact absurd h (Nat.lt_asymm k)
    · omega
    · omega
    · exact Text.le_antisymm hkeys kkeys

/-! ## Keys, declarations and groups -/

/-- The groups of a type from those of its constructors, properties and methods. -/
def allGroups (constructors : MemberGroup) (properties : List (Option MemberGroup))
    (methods : List MemberGroup) : List MemberGroup :=
  (if constructors.lines.isEmpty then [] else [constructors]) ++ properties.filterMap id ++ methods

namespace Mapping

variable (m : Mapping)

/-- The key of a constructor. -/
def constructorSignature (c : Constructor) : Text := Id.run (c.key m.answer)

/-- The declaration of a constructor. -/
def constructorDeclaration (overloaded : Bool) (c : Constructor) : Text :=
  Id.run (c.line m.answer overloaded)

/-- The constructors that are declared: the first for every key, in ascending order of the keys. -/
def selectedConstructors (cs : List Constructor) : List Constructor :=
  Sorted.select m.constructorSignature
    (fun a b => Text.le (m.constructorSignature a) (m.constructorSignature b))
    (cs.filter Constructor.isPublic)

/-- The group of the public constructors. -/
def constructorsOf (cs : List Constructor) : MemberGroup :=
  let selected := m.selectedConstructors cs
  let overloaded := decide (1 < selected.length)
  { name := "new".toList
    lines := selected.map (m.constructorDeclaration overloaded)
    overloaded }

/-- The key of a method after its upgrade. -/
def signature (method : Method) : Text :=
  let upgraded := method.upgraded m
  Id.run (upgraded.key m.answer upgraded.mentionedParameters)

/-- The declaration of a method after its upgrade. -/
def declaration (overloaded : Bool) (method : Method) : Text :=
  let upgraded := method.upgraded m
  Id.run (upgraded.line m.answer overloaded upgraded.mentionedParameters)

/-- A method after its upgrade, with what its place depends on. -/
def keyed (method : Method) : KeyedMethod :=
  ⟨m.signature method, method.upgraded m, (method.upgraded m).mentionedParameters⟩

/-- The order of declarations: by parameter count, then by key. -/
def precedes (a b : Method) : Bool := KeyedMethod.le (m.keyed a) (m.keyed b)

/-- The methods of a name that are declared: the first for every key, in order. -/
def selectedMethods (methods : List Method) : List Method :=
  Sorted.select m.signature m.precedes methods

/-- The group of the methods with one name. -/
def groupOf (name : Text) (methods : List Method) : MemberGroup :=
  let selected := m.selectedMethods methods
  let overloaded := decide (1 < selected.length)
  { name
    lines := selected.map (m.declaration overloaded)
    summary := methods.findSome? fun method => cleanSummary method.summary
    overloaded }

/-- The groups of a list of methods, in ascending order of their names. -/
def groupsOf (methods : List Method) : List MemberGroup :=
  (methodNames methods).map fun name => m.groupOf name (methodsNamed name methods)

/-- The groups of a descriptor. -/
def allGroupsOf (d : Descriptor) : List MemberGroup :=
  allGroups (m.constructorsOf d.constructors) (d.properties.map (propertyGroup m.answer))
    (m.groupsOf d.methods)

/-- The types that the groups of a list of methods need. -/
def methodTypes (methods : List Method) : List Text :=
  (methods.filter fun method => !(strip method.name).isEmpty).flatMap fun method =>
    (method.upgraded m).types

/-- The types that the groups of a descriptor need. -/
def askedTypes (d : Descriptor) : List Text :=
  (d.constructors.filter Constructor.isPublic).flatMap Constructor.types ++
    (d.properties.flatMap Property.askedTypes ++ m.methodTypes d.methods)

theorem isOrder_precedes : Sorted.IsOrder m.signature m.precedes :=
  KeyedMethod.isOrder_le.comap m.keyed

theorem selectedMethods_ne_nil {methods : List Method} (h : methods ≠ []) :
    m.selectedMethods methods ≠ [] := by
  obtain ⟨method, hmethod⟩ := List.exists_mem_of_ne_nil methods h
  obtain ⟨x, hx, -⟩ := Sorted.exists_mem_select m.signature m.precedes hmethod
  exact List.ne_nil_of_mem hx

theorem isEmpty_map_keyed {methods : List Method} (h : methods ≠ []) :
    ¬((m.selectedMethods methods).map m.keyed).isEmpty = true := by
  simpa using m.selectedMethods_ne_nil h

end Mapping

variable (m : Mapping)

theorem mapM_id {α β : Type} (f : α → Id β) (xs : List α) : xs.mapM f = xs.map f :=
  List.idRun_mapM

/-! ## Constructors -/

theorem orderedConstructors_answer (cs : List Constructor) :
    orderedConstructors m.answer cs =
      (m.selectedConstructors cs).map fun c => (m.constructorSignature c, c) := by
  unfold orderedConstructors Mapping.selectedConstructors
  rw [mapM_id]
  exact Sorted.select_map Prod.fst (fun a b => Text.le a.1 b.1)
    (fun c => (m.constructorSignature c, c)) (cs.filter Constructor.isPublic)

theorem constructorGroup_answer (cs : List Constructor) :
    constructorGroup m.answer cs = m.constructorsOf cs := by
  have hrun (ordered : List (Text × Constructor)) (h : orderedConstructors m.answer cs = ordered) :
      constructorGroup m.answer cs =
        (⟨"new".toList, List.mapM (m := Id) (fun e =>
            e.2.line m.answer (decide (1 < ordered.length))) ordered,
          none, decide (1 < ordered.length)⟩ : MemberGroup) := by
    rw [← h]
    rfl
  rw [hrun _ (orderedConstructors_answer m cs), mapM_id, List.map_map, List.length_map]
  rfl

theorem asks_constructorGroup (cs : List Constructor) :
    Asks m ((cs.filter Constructor.isPublic).flatMap Constructor.types)
      (constructorGroup m.map cs) (m.constructorsOf cs) := by
  have hordered : Asks m ((cs.filter Constructor.isPublic).flatMap Constructor.types)
      (orderedConstructors m.map cs) (orderedConstructors m.answer cs) := by
    unfold orderedConstructors
    exact (Asks.mapM fun c _ => (asks_constructorKey m c).bind_pure _).bind_pure _
  rw [← constructorGroup_answer]
  unfold constructorGroup
  refine hordered.bind_within ((Asks.mapM fun e _ => asks_constructorLine m _ e.2).bind_pure _) ?_
  -- the declared constructors are among the public ones, so their types were asked for already
  intro t ht
  obtain ⟨e, he, ht⟩ := List.mem_flatMap.mp ht
  rw [orderedConstructors_answer] at he
  obtain ⟨c, hc, rfl⟩ := List.mem_map.mp he
  exact List.mem_flatMap.mpr ⟨c, Sorted.mem_of_mem_select hc, ht⟩

/-! ## Methods -/

theorem orderedMethods_answer (methods : List Method) :
    orderedMethods m.answer (methods.map (Method.upgraded m)) =
      (m.selectedMethods methods).map m.keyed := by
  unfold orderedMethods
  rw [mapM_id, List.map_map]
  exact Sorted.select_map KeyedMethod.key KeyedMethod.le m.keyed methods

theorem methodGroup_answer (name : Text) {methods : List Method} (h : methods ≠ []) :
    methodGroup m.answer name (methods.map (Method.upgraded m)) =
      some (m.groupOf name methods) := by
  have hsummary : (methods.map (Method.upgraded m)).findSome? (fun p => cleanSummary p.summary) =
      methods.findSome? fun p => cleanSummary p.summary := by
    rw [List.findSome?_map]
    rfl
  have hrun (ordered : List KeyedMethod)
      (hordered : orderedMethods m.answer (methods.map (Method.upgraded m)) = ordered) :
      methodGroup m.answer name (methods.map (Method.upgraded m)) =
        if ordered.isEmpty then none
        else some (⟨name, List.mapM (m := Id) (fun e =>
            e.method.line m.answer (decide (1 < ordered.length)) e.generics) ordered,
          (methods.map (Method.upgraded m)).findSome? fun p => cleanSummary p.summary,
          decide (1 < ordered.length)⟩ : MemberGroup) := by
    rw [← hordered]
    unfold methodGroup
    rfl
  rw [hrun _ (orderedMethods_answer m methods), if_neg (m.isEmpty_map_keyed h), mapM_id,
    List.map_map, List.length_map, hsummary]
  rfl

theorem asks_methodGroup (name : Text) {methods : List Method} (h : methods ≠ []) :
    Asks m (methods.flatMap fun method => (method.upgraded m).types)
      (methodGroup m.map name (methods.map (Method.upgraded m)))
      (some (m.groupOf name methods)) := by
  have hordered : Asks m (methods.flatMap fun method => (method.upgraded m).types)
      (orderedMethods m.map (methods.map (Method.upgraded m)))
      (orderedMethods m.answer (methods.map (Method.upgraded m))) := by
    unfold orderedMethods
    rw [← List.flatMap_map (Method.upgraded m) Method.types]
    exact (Asks.mapM fun p _ => (asks_methodKey m p _).bind_pure _).bind_pure _
  rw [← methodGroup_answer m name h]
  unfold methodGroup
  refine hordered.bind_within (?_ : Asks m (((m.selectedMethods methods).map m.keyed).flatMap
    fun e => e.method.types) _ _) ?_
  · rw [orderedMethods_answer, if_neg (m.isEmpty_map_keyed h), if_neg (m.isEmpty_map_keyed h)]
    exact (Asks.mapM fun e _ => asks_methodLine m _ e.method e.generics).bind_pure _
  · -- the declared methods are among the given ones, so their types were asked for already
    intro t ht
    obtain ⟨e, he, ht⟩ := List.mem_flatMap.mp ht
    obtain ⟨p, hp, rfl⟩ := List.mem_map.mp he
    exact List.mem_flatMap.mpr ⟨p, Sorted.mem_of_mem_select hp, ht⟩

theorem methodNames_upgraded (methods : List Method) :
    methodNames (methods.map (Method.upgraded m)) = methodNames methods := by
  rw [methodNames, List.map_map]
  rfl

theorem methodsNamed_upgraded (name : Text) (methods : List Method) :
    methodsNamed name (methods.map (Method.upgraded m)) =
      (methodsNamed name methods).map (Method.upgraded m) := by
  rw [methodsNamed, List.filter_map]
  rfl

theorem mem_methodNames {name : Text} {methods : List Method} :
    name ∈ methodNames methods ↔ name ≠ [] ∧ ∃ method ∈ methods, strip method.name = name := by
  rw [methodNames, Sorted.mem_ofList, List.mem_filter, List.mem_map, and_comm]
  refine and_congr_left fun _ => ?_
  cases name <;> simp

theorem mem_methodsNamed {name : Text} {method : Method} {methods : List Method} :
    method ∈ methodsNamed name methods ↔ method ∈ methods ∧ strip method.name = name := by
  rw [methodsNamed, List.mem_filter, decide_eq_true_eq]

theorem methodsNamed_ne_nil {name : Text} {methods : List Method}
    (h : name ∈ methodNames methods) : methodsNamed name methods ≠ [] := by
  obtain ⟨-, method, hmethod, hname⟩ := mem_methodNames.mp h
  exact List.ne_nil_of_mem (mem_methodsNamed.mpr ⟨hmethod, hname⟩)

/-- The types needed for all names are those of the methods that have a name. -/
theorem mem_methodTypes {m : Mapping} {methods : List Method} {t : Text} :
    t ∈ m.methodTypes methods ↔ t ∈ (methodNames methods).flatMap fun name =>
      (methodsNamed name methods).flatMap fun method => (method.upgraded m).types := by
  simp only [Mapping.methodTypes, List.mem_flatMap, List.mem_filter]
  constructor
  · rintro ⟨method, ⟨hmethod, hname⟩, ht⟩
    have hne : strip method.name ≠ [] := by simpa using hname
    exact ⟨strip method.name, mem_methodNames.mpr ⟨hne, method, hmethod, rfl⟩, method,
      mem_methodsNamed.mpr ⟨hmethod, rfl⟩, ht⟩
  · rintro ⟨name, hname, method, hmethod, ht⟩
    obtain ⟨hmem, rfl⟩ := mem_methodsNamed.mp hmethod
    have hne := (mem_methodNames.mp hname).1
    exact ⟨method, ⟨hmem, by simpa using hne⟩, ht⟩

/-- **The groups of a list of methods**: one for every name, in ascending order, as long as the
types of all methods that have a name are mapped. -/
theorem asks_methodGroups (methods : List Method) :
    Asks m (m.methodTypes methods) (methodGroups m.map m methods) (m.groupsOf methods) := by
  have hne : ∀ name ∈ methodNames methods, methodsNamed name methods ≠ [] := fun _ =>
    methodsNamed_ne_nil
  have hgroups := (Asks.mapM fun name hname =>
    asks_methodGroup m name (hne name hname)).bind_pure (List.filterMap id)
  have hvalue : (List.mapM (m := Id) (fun name => some (m.groupOf name (methodsNamed name methods)))
      (methodNames methods)).filterMap id = m.groupsOf methods := by
    rw [mapM_id, List.filterMap_map]
    exact congrFun List.filterMap_eq_map' _
  unfold methodGroups
  simp only
  rw [methodNames_upgraded]
  simp only [methodsNamed_upgraded]
  rw [← hvalue]
  exact hgroups.congr fun t => mem_methodTypes.symm

theorem asks_memberGroups (d : Descriptor) :
    Asks m (m.askedTypes d) (memberGroups m.map m d) (m.allGroupsOf d) := by
  have hproperties : Asks m (d.properties.flatMap Property.askedTypes)
      (d.properties.mapM (propertyGroup m.map)) (d.properties.map (propertyGroup m.answer)) := by
    rw [← mapM_id]
    exact Asks.mapM fun p _ => asks_propertyGroup m p
  have hrest (cs : MemberGroup) := hproperties.bind
    (f := fun ps => methodGroups m.map m d.methods >>= fun ms => pure (allGroups cs ps ms))
    (g := fun ps => pure (allGroups cs ps (m.groupsOf d.methods)))
    ((asks_methodGroups m d.methods).bind_pure _)
  -- the continuation is named, since it cannot be read off from a value it was applied to
  exact (asks_constructorGroup m d.constructors).bind
    (f := fun cs => d.properties.mapM (propertyGroup m.map) >>= fun ps =>
      methodGroups m.map m d.methods >>= fun ms => pure (allGroups cs ps ms))
    (g := fun cs => pure (allGroups cs (d.properties.map (propertyGroup m.answer))
      (m.groupsOf d.methods)))
    (hrest (m.constructorsOf d.constructors))

end HaxeBindings
