import HaxeBindings.Catalog.Load
import HaxeBindings.Proofs.Catalog.Insertion

/-!
# Insertions in a dump

The relation between two catalogs that `Inserted` and its kin describe, carried over to
the JSON values they are loaded from.  An entry of a dump is hidden when it is loaded
as a hidden one or not at all (`LoadsHidden`).  An object is extended when hidden
entries are put into one of its lists, or into the lists of the objects in there, and
all its other fields read as before; the order of the fields does not count.

Loading keeps the relation on every level: `loadMembers_inserted`,
`loadType_extended`, `loadAssembly_extended`, and for a whole dump `ofJson_extended`.
-/

namespace HaxeBindings
namespace Catalog

open Text Schema

/-! ## Extended objects -/

/-- The entry is loaded as a hidden one, or it is not loaded at all. -/
def LoadsHidden {α : Type} (load : Json → Logged (Option α)) (hidden : α → Prop) (item : Json) :
    Prop := ∀ x, (load item).value = some x → hidden x

/-- Fields with other names read the same. -/
def AgreeOutside (names : List String) (fields fields' : Fields) : Prop :=
  ∀ name, name ∉ names → get fields' name = get fields name

namespace AgreeOutside

variable {names : List String} {fields fields' : Fields}

protected theorem refl (names : List String) (fields : Fields) : AgreeOutside names fields fields :=
  fun _ _ => rfl

/-- A field that both have in front. -/
theorem cons (h : AgreeOutside names fields fields') (field : Text × Json) :
    AgreeOutside names (field :: fields) (field :: fields') := by
  intro name hname
  rw [get, get, Json.field, Json.field]
  split
  · rfl
  · exact h name hname

/-- A field in front that may differ. -/
theorem cons_of_mem (h : AgreeOutside names fields fields') {name : String} (hname : name ∈ names)
    (value value' : Json) :
    AgreeOutside names ((name.toList, value) :: fields) ((name.toList, value') :: fields') := by
  intro other hother
  have hne : ¬name.toList = other.toList := fun heq => hother (String.toList_inj.mp heq ▸ hname)
  rw [get, get, Json.field, Json.field, if_neg hne, if_neg hne]
  exact h other hother

end AgreeOutside

/-- The second value is the first one, or both are objects with related fields. -/
inductive ObjectExtended (extended : Fields → Fields → Prop) : Json → Json → Prop
  | refl (item : Json) : ObjectExtended extended item item
  | object {fields fields' : Fields} (h : extended fields fields') :
    ObjectExtended extended (.object fields) (.object fields')

/-- Hidden members are put into the list of one kind. -/
def MembersInserted {α : Type} (kind : MemberKind) (read : Fields → Except RefError α)
    (hidden : α → Prop) (fields fields' : Fields) : Prop :=
  Inserted (LoadsHidden (loadMember kind (TypeEntry.fullNameOf fields) read) hidden) Eq
    (get fields kind.word).items (get fields' kind.word).items

/-- Hidden members are put into the entry of a type. -/
structure TypeFieldsExtended (fields fields' : Fields) : Prop where
  others : AgreeOutside ["constructors", "properties", "methods"] fields fields'
  constructors : MembersInserted .constructors ConstructorEntry.ofFields ConstructorEntry.IsHidden
    fields fields'
  properties : MembersInserted .properties PropertyEntry.ofFields PropertyEntry.IsHidden
    fields fields'
  methods : MembersInserted .methods MethodEntry.ofFields
    (MethodEntry.IsHidden (TypeEntry.fullNameOf fields)) fields fields'

/-- Hidden types are put into the entry of an assembly, and hidden members into the types it had. -/
structure AssemblyFieldsExtended (root : Text) (fields fields' : Fields) : Prop where
  others : AgreeOutside ["types"] fields fields'
  types : Inserted (LoadsHidden (loadType (get fields "name").text) (TypeEntry.IsHidden root))
    (ObjectExtended TypeFieldsExtended) (get fields "types").items (get fields' "types").items

/-- Hidden assemblies are put into a dump, and hidden types and members into the assemblies it
had. -/
structure DumpFieldsExtended (root : Text) (fields fields' : Fields) : Prop where
  assemblies : ∃ items items', get fields "assemblies" = .array items ∧
    get fields' "assemblies" = .array items' ∧
      Inserted (LoadsHidden loadAssembly (Assembly.IsHidden root))
        (ObjectExtended (AssemblyFieldsExtended root)) items items'

/-! ## Loading -/

theorem value_collect {α β : Type} (load : α → Logged (Option β)) (items : List α) :
    (Logged.collect (items.map load)).value = items.filterMap fun item => (load item).value :=
  List.filterMap_map

theorem rel_refl {α : Type} {same : α → α → Prop} (h : ∀ x, same x x) (x : Option α) :
    Option.Rel same x x := by
  cases x with
  | none => exact .none
  | some x => exact .some (h x)

/-- Members are loaded one by one, and those that were there as before. -/
theorem loadMembers_inserted {α : Type} {kind : MemberKind} {read : Fields → Except RefError α}
    {hidden : α → Prop} {fields fields' : Fields}
    (h : MembersInserted kind read hidden fields fields') :
    Inserted hidden Eq (loadMembers fields kind (TypeEntry.fullNameOf fields) read).value
      (loadMembers fields' kind (TypeEntry.fullNameOf fields) read).value := by
  rw [loadMembers, loadMembers, value_collect, value_collect]
  refine h.filterMap (fun _ hitem => hitem) ?_
  rintro item _ rfl
  exact rel_refl (fun _ => rfl) _

/-- What is read of the entry of a type apart from its members. -/
def TypeEntry.bareOf (assembly : Text) (fields : Fields) : TypeEntry :=
  ofParts assembly fields [] [] []

/-- The type with the members of an entry, if the entry has a name. -/
theorem value_loadType_object (assembly : Text) (fields : Fields) :
    (loadType assembly (.object fields)).value =
      if (TypeEntry.fullNameOf fields).isEmpty then none
      else some { TypeEntry.bareOf assembly fields with
        constructors := (loadMembers fields .constructors (TypeEntry.fullNameOf fields)
          ConstructorEntry.ofFields).value
        properties := (loadMembers fields .properties (TypeEntry.fullNameOf fields)
          PropertyEntry.ofFields).value
        methods := (loadMembers fields .methods (TypeEntry.fullNameOf fields)
          MethodEntry.ofFields).value } := by
  unfold loadType
  simp only [fields?]
  split <;> rfl

theorem TypeEntry.bareOf_congr (assembly : Text) {fields fields' : Fields}
    (h : AgreeOutside ["constructors", "properties", "methods"] fields fields') :
    bareOf assembly fields' = bareOf assembly fields := by
  simp only [bareOf, ofParts, fullNameOf, simpleNameOf, namespaceIn, visibilityOf,
    h "full_name" (by decide), h "name" (by decide), h "namespace" (by decide),
    h "visibility" (by decide), h "is_pointer" (by decide), h "compiler_generated" (by decide),
    h "generic_parameters" (by decide)]

/-- An extended entry is loaded as an extended type. -/
theorem loadType_extended (assembly : Text) {item item' : Json}
    (h : ObjectExtended TypeFieldsExtended item item') :
    Option.Rel TypeEntry.Extended (loadType assembly item).value
      (loadType assembly item').value := by
  cases h with
  | refl => exact rel_refl TypeEntry.Extended.refl _
  | @object fields fields' h =>
    have hbare : TypeEntry.bareOf assembly fields' = TypeEntry.bareOf assembly fields :=
      TypeEntry.bareOf_congr assembly h.others
    have hname : TypeEntry.fullNameOf fields' = TypeEntry.fullNameOf fields :=
      congrArg TypeEntry.fullName hbare
    rw [value_loadType_object, value_loadType_object, hname, hbare]
    split
    · exact .none
    · exact .some ⟨rfl, loadMembers_inserted h.constructors, loadMembers_inserted h.properties,
        loadMembers_inserted h.methods⟩

/-- An extended entry is loaded as an extended assembly. -/
theorem loadAssembly_extended {root : Text} {item item' : Json}
    (h : ObjectExtended (AssemblyFieldsExtended root) item item') :
    Option.Rel (Assembly.Extended root) (loadAssembly item).value (loadAssembly item').value := by
  cases h with
  | refl => exact rel_refl (Assembly.Extended.refl root) _
  | @object fields fields' h =>
    have hname : get fields' "name" = get fields "name" := h.others "name" (by decide)
    unfold loadAssembly
    simp only [fields?]
    rw [hname]
    refine .some ⟨rfl, ?_⟩
    simp only
    rw [value_collect, value_collect]
    exact h.types.filterMap (fun _ hitem => hitem) fun _ _ => loadType_extended _

/-- **An extended dump is loaded as an extended catalog**, if it is a dump at all. -/
theorem ofJson_extended {root : Text} {dump dump' : Json}
    (h : ObjectExtended (DumpFieldsExtended root) dump dump') :
    ofJson dump' = ofJson dump ∨ ∃ catalog catalog', ofJson dump = .ok catalog ∧
      ofJson dump' = .ok catalog' ∧
      Inserted (Assembly.IsHidden root) (Assembly.Extended root) catalog.value catalog'.value := by
  cases h with
  | refl => exact .inl rfl
  | @object fields fields' h =>
    obtain ⟨items, items', hitems, hitems', hinserted⟩ := h.assemblies
    refine .inr ⟨Logged.collect (items.map loadAssembly), Logged.collect (items'.map loadAssembly),
      ?_, ?_, ?_⟩
    · simp only [ofJson, assemblyItems?, fields?, hitems]
    · simp only [ofJson, assemblyItems?, fields?, hitems']
    · rw [value_collect, value_collect]
      exact hinserted.filterMap (fun _ hitem => hitem) fun _ _ => loadAssembly_extended

end Catalog
end HaxeBindings
