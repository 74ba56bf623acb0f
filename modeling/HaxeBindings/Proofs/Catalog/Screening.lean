import HaxeBindings.Proofs.Catalog.Acceptance
import HaxeBindings.Proofs.Catalog.Loading

/-!
# What a dump loses

Every object with a list of assemblies is a dump, whatever else it holds, and an entry that
cannot be loaded costs nothing but itself.

* `AreMembersOf`, `IsTypeOf`, `IsAssemblyOf` --- what is loaded of an entry: one thing for each
  acceptable entry in it, in order, and each as the entry says by itself;
* `refusals`, `refusedMembers` --- the number of the other entries;
* `TypeFieldsPadded`, `AssemblyFieldsPadded` --- entries with further ones of the others in them;
* `ofJson_screened` --- a dump is loaded like this, a padded one is loaded alike, and there is one
  warning for each refused entry and for each assembly with an error.

## The argument

On each level entries are loaded one by one, so the three levels have one form: an acceptable
entry has a value, and another one has none and gives one warning (`Screens`).  What is loaded
of a list follows from that (`Screens.forall₂_collect`, `Screens.value_collect_inserted`), and
the warnings are counted by induction on the list.
-/

namespace HaxeBindings
namespace Catalog

open Text Schema

/-! ## Warnings -/

/-- The number of warnings in a log. -/
def warnings (log : List Event) : Nat := log.countP fun e => e.level = .warning

@[simp] theorem warnings_nil : warnings [] = 0 := rfl

theorem warnings_append (log log' : List Event) :
    warnings (log ++ log') = warnings log + warnings log' := List.countP_append

/-- The number of entries in a list that are not accepted. -/
def refusals (accepted : Json → Prop) [DecidablePred accepted] (items : List Json) : Nat :=
  items.countP fun item => ¬accepted item

section

variable {accepted : Json → Prop} [DecidablePred accepted] {item : Json} {items : List Json}

theorem refusals_cons_of_accepted (h : accepted item) :
    refusals accepted (item :: items) = refusals accepted items :=
  List.countP_cons_of_neg (by simpa using h)

theorem refusals_cons_of_refused (h : ¬accepted item) :
    refusals accepted (item :: items) = refusals accepted items + 1 :=
  List.countP_cons_of_pos (decide_eq_true h)

theorem refusals_append (items others : List Json) :
    refusals accepted (items ++ others) = refusals accepted items + refusals accepted others :=
  List.countP_append

end

/-! ## Lists of entries -/

/-- Accepted entries are loaded as they should be, and each other one is refused with one
warning. -/
structure Screens {α : Type} (accepted : Json → Prop) (load : Json → Logged (Option α))
    (loaded : Json → α → Prop) : Prop where
  kept : ∀ item, accepted item → ∃ x, (load item).value = some x ∧ loaded item x
  refused : ∀ item, ¬accepted item → (load item).value = none ∧ warnings (load item).log = 1

namespace Screens

variable {α : Type} {accepted : Json → Prop} {load : Json → Logged (Option α)}
  {loaded : Json → α → Prop}

/-- **What is loaded of a list is loaded of its accepted entries**, of each by itself and in
order. -/
theorem forall₂_collect [DecidablePred accepted] (h : Screens accepted load loaded)
    (items : List Json) :
    List.Forall₂ loaded (items.filter accepted) (Logged.collect (items.map load)).value := by
  rw [value_collect]
  induction items with
  | nil => exact .nil
  | cons item items ih =>
    by_cases haccepted : accepted item
    · obtain ⟨x, hx, hloaded⟩ := h.kept item haccepted
      rw [List.filter_cons, List.filterMap_cons, if_pos (decide_eq_true haccepted), hx]
      exact .cons hloaded ih
    · rw [List.filter_cons, List.filterMap_cons, if_neg (mt of_decide_eq_true haccepted),
        (h.refused item haccepted).1]
      exact ih

/-- **Refused entries may be put in anywhere.** -/
theorem value_collect_inserted (h : Screens accepted load loaded) {same : Json → Json → Prop}
    {items items' : List Json}
    (hinserted : Inserted (fun item => ¬accepted item) same items items')
    (hsame : ∀ x y, same x y → (load y).value = (load x).value) :
    (Logged.collect (items'.map load)).value = (Logged.collect (items.map load)).value := by
  rw [value_collect, value_collect]
  induction hinserted with
  | nil => rfl
  | keep hxy _ ih => rw [List.filterMap_cons, List.filterMap_cons, hsame _ _ hxy, ih]
  | insert hy _ ih => rw [List.filterMap_cons, (h.refused _ hy).1, ih]

end Screens

theorem warnings_collect_cons {α : Type} (load : Json → Logged (Option α)) (item : Json)
    (items : List Json) :
    warnings (Logged.collect ((item :: items).map load)).log =
      warnings (load item).log + warnings (Logged.collect (items.map load)).log :=
  warnings_append _ _

/-! ## Members -/

section

variable {α : Type} {kind : MemberKind} (owner : Text) {read : Fields → Except RefError α}
  (hread : ∀ fields, (∃ x, read fields = .ok x) ↔
    ∀ j ∈ referencesOf kind fields, TypeRef.IsReadable j)

include hread

theorem loadMember_of_isMember {item : Json} (h : IsMember kind item) :
    ∃ x, loadMember kind owner read item = ⟨some x, []⟩ ∧
      IsObjectWith (fun fields => read fields = .ok x) item := by
  obtain ⟨fields, rfl, hreferences⟩ := h
  obtain ⟨x, hx⟩ := (hread fields).mpr hreferences
  refine ⟨x, ?_, fields, rfl, hx⟩
  simp only [loadMember, fields?, hx]

theorem loadMember_of_not_isMember {item : Json} (h : ¬IsMember kind item) :
    ∃ e, e.level = .warning ∧ loadMember kind owner read item = ⟨none, [e]⟩ := by
  cases item with
  | object fields =>
    have hrefused : ¬∃ x, read fields = .ok x := fun hx =>
      h (isObjectWith_object.mpr ((hread fields).mp hx))
    cases hx : read fields with
    | ok x => exact absurd ⟨x, hx⟩ hrefused
    | error cause =>
      refine ⟨.rejectedMember kind owner cause, rfl, ?_⟩
      simp only [loadMember, fields?, hx]
  | null | bool _ | int _ | float _ | string _ | array _ =>
    exact ⟨.malformedMember kind owner, rfl, rfl⟩

theorem screens_loadMember : Screens (IsMember kind) (loadMember kind owner read)
    fun item x => IsObjectWith (fun fields => read fields = .ok x) item := by
  constructor
  · intro item hitem
    obtain ⟨x, hx, hread⟩ := loadMember_of_isMember owner hread hitem
    exact ⟨x, by rw [hx], hread⟩
  · intro item hitem
    obtain ⟨e, he, hload⟩ := loadMember_of_not_isMember owner hread hitem
    rw [hload]
    exact ⟨rfl, List.countP_singleton.trans (if_pos (decide_eq_true he))⟩

/-- One warning for each member that is refused. -/
theorem warnings_loadMembers (fields : Fields) :
    warnings (loadMembers fields kind owner read).log =
      refusals (IsMember kind) (get fields kind.word).items := by
  unfold loadMembers
  induction (get fields kind.word).items with
  | nil => rfl
  | cons item items ih =>
    rw [warnings_collect_cons, ih]
    by_cases hitem : IsMember kind item
    · obtain ⟨x, hx, -⟩ := loadMember_of_isMember owner hread hitem
      rw [hx, warnings_nil, Nat.zero_add, refusals_cons_of_accepted hitem]
    · rw [((screens_loadMember owner hread).refused item hitem).2, Nat.add_comm,
        refusals_cons_of_refused hitem]

end

/-! ## Types -/

/-- The members are read of the accepted entries of one kind, in order. -/
def AreMembersOf {α : Type} (kind : MemberKind) (read : Fields → Except RefError α)
    (fields : Fields) (members : List α) : Prop :=
  List.Forall₂ (fun item x => IsObjectWith (fun fields => read fields = .ok x) item)
    ((get fields kind.word).items.filter (IsMember kind)) members

/-- The type is what its entry says, with a member for each accepted entry of one. -/
structure IsTypeOf (assembly : Text) (fields : Fields) (t : TypeEntry) : Prop where
  bare : t.bare = TypeEntry.bareOf assembly fields
  constructors : AreMembersOf .constructors ConstructorEntry.ofFields fields t.constructors
  properties : AreMembersOf .properties PropertyEntry.ofFields fields t.properties
  methods : AreMembersOf .methods MethodEntry.ofFields fields t.methods

theorem screens_loadType (assembly : Text) : Screens IsType (loadType assembly)
    fun item t => IsObjectWith (IsTypeOf assembly · t) item := by
  constructor
  · intro item hitem
    obtain ⟨fields, rfl, -⟩ := id hitem
    have hname : ¬(TypeEntry.fullNameOf fields).isEmpty = true :=
      List.isEmpty_iff.not.mpr (isType_object_iff.mp hitem)
    rw [value_loadType_object, if_neg hname]
    exact ⟨_, rfl, fields, rfl, rfl,
      (screens_loadMember _ ConstructorEntry.ofFields_isOk_iff).forall₂_collect _,
      (screens_loadMember _ PropertyEntry.ofFields_isOk_iff).forall₂_collect _,
      (screens_loadMember _ MethodEntry.ofFields_isOk_iff).forall₂_collect _⟩
  · intro item hitem
    cases item with
    | object fields =>
      have hname : (TypeEntry.fullNameOf fields).isEmpty = true :=
        List.isEmpty_iff.mpr (not_not.mp (isType_object_iff.not.mp hitem))
      have hload : loadType assembly (.object fields) = ⟨none, [.unnamedType assembly]⟩ := by
        simp only [loadType, fields?, hname, if_true]
      rw [hload]
      exact ⟨rfl, rfl⟩
    | null | bool _ | int _ | float _ | string _ | array _ => exact ⟨rfl, rfl⟩

/-- The entries of members of the types among some entries. -/
def memberItems (kind : MemberKind) (types : List Json) : List Json :=
  ((types.filter IsType).filterMap fields?).flatMap fun t => (get t kind.word).items

/-- The number of members that are refused in the types among some entries. -/
def refusedMembers (types : List Json) : Nat :=
  refusals (IsMember .constructors) (memberItems .constructors types) +
    refusals (IsMember .properties) (memberItems .properties types) +
    refusals (IsMember .methods) (memberItems .methods types)

theorem memberItems_append (kind : MemberKind) (types others : List Json) :
    memberItems kind (types ++ others) = memberItems kind types ++ memberItems kind others := by
  rw [memberItems, List.filter_append, List.filterMap_append, List.flatMap_append, memberItems,
    memberItems]

theorem memberItems_singleton (kind : MemberKind) {fields : Fields} (h : IsType (.object fields)) :
    memberItems kind [.object fields] = (get fields kind.word).items := by
  rw [memberItems, List.filter_cons, if_pos (decide_eq_true h)]
  exact List.flatMap_singleton _ _

theorem memberItems_singleton_of_refused (kind : MemberKind) {item : Json} (h : ¬IsType item) :
    memberItems kind [item] = [] := by
  rw [memberItems, List.filter_cons, if_neg (mt of_decide_eq_true h)]
  rfl

theorem refusedMembers_append (types others : List Json) :
    refusedMembers (types ++ others) = refusedMembers types + refusedMembers others := by
  simp only [refusedMembers, memberItems_append, refusals_append]
  omega

theorem warnings_loadType (assembly : Text) {item : Json} (h : IsType item) :
    warnings (loadType assembly item).log = refusedMembers [item] := by
  obtain ⟨fields, rfl, -⟩ := id h
  have hname : ¬(TypeEntry.fullNameOf fields).isEmpty = true :=
    List.isEmpty_iff.not.mpr (isType_object_iff.mp h)
  simp only [loadType, fields?, if_neg hname, refusedMembers, memberItems_singleton _ h,
    warnings_append, warnings_loadMembers _ ConstructorEntry.ofFields_isOk_iff,
    warnings_loadMembers _ PropertyEntry.ofFields_isOk_iff,
    warnings_loadMembers _ MethodEntry.ofFields_isOk_iff]

/-- One warning for each type that is refused, and for each member that is in the others. -/
theorem warnings_loadTypes (assembly : Text) (types : List Json) :
    warnings (Logged.collect (types.map (loadType assembly))).log =
      refusals IsType types + refusedMembers types := by
  induction types with
  | nil => rfl
  | cons item types ih =>
    rw [warnings_collect_cons, ih, ← List.singleton_append, refusedMembers_append]
    by_cases hitem : IsType item
    · rw [warnings_loadType assembly hitem, List.singleton_append,
        refusals_cons_of_accepted hitem]
      omega
    · have hnone : refusedMembers [item] = 0 := by
        simp only [refusedMembers, memberItems_singleton_of_refused _ hitem]
        rfl
      rw [((screens_loadType assembly).refused item hitem).2, hnone, List.singleton_append,
        refusals_cons_of_refused hitem]
      omega

/-! ## Assemblies -/

/-- The assembly is what its entry says, with a type for each accepted entry of one. -/
structure IsAssemblyOf (fields : Fields) (a : Assembly) : Prop where
  name : a.name = (get fields "name").text
  error : a.error = (get fields "error").text?
  types : List.Forall₂ (fun item t => IsObjectWith (IsTypeOf a.name · t) item)
    ((get fields "types").items.filter IsType) a.types

theorem screens_loadAssembly : Screens IsAssembly loadAssembly
    fun item a => IsObjectWith (IsAssemblyOf · a) item := by
  constructor
  · rintro _ ⟨fields, rfl, -⟩
    exact ⟨_, rfl, fields, rfl, rfl, rfl, (screens_loadType _).forall₂_collect _⟩
  · intro item hitem
    cases item with
    | object fields => exact absurd (isObjectWith_object.mpr trivial) hitem
    | null | bool _ | int _ | float _ | string _ | array _ => exact ⟨rfl, rfl⟩

/-- The entries of types in the assemblies among some entries. -/
def typeItems (assemblies : List Json) : List Json :=
  (assemblies.filterMap fields?).flatMap fun a => (get a "types").items

theorem warnings_partialNote (assembly : Text) (fields : Fields) :
    warnings (partialNote assembly (get fields "error").text?) =
      if HasError fields then 1 else 0 := by
  unfold Json.text?
  by_cases h : HasError fields
  · rw [if_pos h, if_neg (List.isEmpty_iff.not.mpr (hasError_iff.mp h))]
    rfl
  · rw [if_neg h, if_pos (List.isEmpty_iff.mpr (not_not.mp (hasError_iff.not.mp h)))]
    rfl

/-- One warning for each entry that is refused, on every level, and for each error. -/
theorem warnings_loadAssemblies (items : List Json) :
    warnings (Logged.collect (items.map loadAssembly)).log =
      refusals IsAssembly items + (items.filterMap fields?).countP (fun a => HasError a) +
        refusals IsType (typeItems items) + refusedMembers (typeItems items) := by
  induction items with
  | nil => rfl
  | cons item items ih =>
    rw [warnings_collect_cons, ih]
    cases hfields : fields? item with
    | none =>
      have hitem : ¬IsAssembly item := not_isObjectWith_of_fields?_eq_none hfields
      have htypes : typeItems (item :: items) = typeItems items := by
        rw [typeItems, List.filterMap_cons_none hfields, typeItems]
      rw [(screens_loadAssembly.refused item hitem).2, refusals_cons_of_refused hitem, htypes,
        List.filterMap_cons_none hfields]
      omega
    | some fields =>
      obtain rfl := eq_object_of_fields?_eq_some hfields
      have hitem : IsAssembly (.object fields) := isObjectWith_object.mpr trivial
      have htypes : typeItems (.object fields :: items) =
          (get fields "types").items ++ typeItems items := rfl
      have hlog : (loadAssembly (.object fields)).log =
          partialNote (get fields "name").text (get fields "error").text? ++
            (Logged.collect ((get fields "types").items.map
              (loadType (get fields "name").text))).log := rfl
      rw [hlog, warnings_append, warnings_partialNote, warnings_loadTypes,
        refusals_cons_of_accepted hitem, htypes, refusals_append, refusedMembers_append,
        List.filterMap_cons_some hfields, List.countP_cons]
      simp only [decide_eq_true_eq]
      omega

/-! ## Refused entries -/

/-- Refused members are put into the entry of a type. -/
structure TypeFieldsPadded (fields fields' : Fields) : Prop where
  others : AgreeOutside ["constructors", "properties", "methods"] fields fields'
  members : ∀ kind : MemberKind, Inserted (fun item => ¬IsMember kind item) Eq
    (get fields kind.word).items (get fields' kind.word).items

/-- Refused types are put into the entry of an assembly, and refused members into the types it
had. -/
structure AssemblyFieldsPadded (fields fields' : Fields) : Prop where
  others : AgreeOutside ["types"] fields fields'
  types : Inserted (fun item => ¬IsType item) (ObjectExtended TypeFieldsPadded)
    (get fields "types").items (get fields' "types").items

theorem value_loadType_padded (assembly : Text) {item item' : Json}
    (h : ObjectExtended TypeFieldsPadded item item') :
    (loadType assembly item').value = (loadType assembly item).value := by
  cases h with
  | refl => rfl
  | @object fields fields' h =>
    have hbare : TypeEntry.bareOf assembly fields' = TypeEntry.bareOf assembly fields :=
      TypeEntry.bareOf_congr assembly h.others
    have hname : TypeEntry.fullNameOf fields' = TypeEntry.fullNameOf fields :=
      congrArg TypeEntry.fullName hbare
    have hmembers {α : Type} {kind : MemberKind} {read : Fields → Except RefError α}
        (hread : ∀ fields, (∃ x, read fields = .ok x) ↔
          ∀ j ∈ referencesOf kind fields, TypeRef.IsReadable j) :
        (loadMembers fields' kind (TypeEntry.fullNameOf fields) read).value =
          (loadMembers fields kind (TypeEntry.fullNameOf fields) read).value :=
      (screens_loadMember _ hread).value_collect_inserted (h.members kind) fun _ _ heq => heq ▸ rfl
    rw [value_loadType_object, value_loadType_object, hname, hbare,
      hmembers ConstructorEntry.ofFields_isOk_iff, hmembers PropertyEntry.ofFields_isOk_iff,
      hmembers MethodEntry.ofFields_isOk_iff]

theorem value_loadAssembly_padded {item item' : Json}
    (h : ObjectExtended AssemblyFieldsPadded item item') :
    (loadAssembly item').value = (loadAssembly item).value := by
  cases h with
  | refl => rfl
  | @object fields fields' h =>
    have htypes := (screens_loadType (get fields "name").text).value_collect_inserted h.types
      fun _ _ => value_loadType_padded _
    simp only [loadAssembly, fields?, h.others "name" (by decide), h.others "error" (by decide),
      htypes]

/-- **Malformed entries are left out one by one, and each is reported.**  An object with a list of
assemblies is loaded.  Of each list in it exactly the accepted entries are loaded, in order and
each as it says by itself, refused entries may be put in everywhere, and the warnings are as many
as the refused entries and the assemblies with an error. -/
theorem ofJson_screened {fields : Fields} {items : List Json}
    (hitems : get fields "assemblies" = .array items) :
    ∃ catalog, ofJson (.object fields) = .ok catalog ∧
      List.Forall₂ (fun item a => IsObjectWith (IsAssemblyOf · a) item)
        (items.filter IsAssembly) catalog.value ∧
      warnings catalog.log = refusals IsAssembly items +
        (items.filterMap fields?).countP (fun a => HasError a) +
        refusals IsType (typeItems items) + refusedMembers (typeItems items) ∧
      (∀ fields' items', get fields' "assemblies" = .array items' →
        Inserted (fun item => ¬IsAssembly item) (ObjectExtended AssemblyFieldsPadded) items items' →
          ∃ catalog', ofJson (.object fields') = .ok catalog' ∧ catalog'.value = catalog.value) ∧
      ∀ j, TypeRef.IsReadable j ↔ ∃ ref, TypeRef.ofJson j = .ok ref := by
  have hload {fields : Fields} {items : List Json} (h : get fields "assemblies" = .array items) :
      ofJson (.object fields) = .ok (Logged.collect (items.map loadAssembly)) := by
    simp only [ofJson, assemblyItems?, fields?, h]
  refine ⟨_, hload hitems, screens_loadAssembly.forall₂_collect items,
    warnings_loadAssemblies items, fun fields' items' hitems' hinserted => ⟨_, hload hitems', ?_⟩,
    fun j => (TypeRef.ofJson_isOk_iff j).symm⟩
  exact screens_loadAssembly.value_collect_inserted hinserted fun _ _ => value_loadAssembly_padded

end Catalog
end HaxeBindings
