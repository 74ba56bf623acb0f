import HaxeBindings.Catalog.Load
import HaxeBindings.Proofs.Traversal

/-!
# Acceptable entries of a dump

Whether an entry of a dump can be loaded, in terms of the JSON value that it is.  An assembly is
any object, a type is an object with a full name, and a member is an object with nothing but
readable references.

* `TypeRef.IsReadable` --- the values that denote a reference, or none, with all that is read in
  them; a reference is read exactly of these (`TypeRef.ofJson_isOk_iff`);
* `IsAssembly`, `IsType`, `IsMember` --- the acceptable entries;
* `ConstructorEntry.ofFields_isOk_iff` and its kin --- a member is read exactly of an object whose
  references, its own and those of its parameters, are readable.
-/

namespace HaxeBindings

open Text Schema

/-! ## References -/

namespace TypeRef

/-- The values that can be read as a reference, or as none.  Of an object the element or the
arguments are read, by its kind. -/
inductive IsReadable : Json → Prop
  | null : IsReadable .null
  | text (s : Text) : IsReadable (.string s)
  | element {fields : List (Text × Json)} :
    kindOf fields = "array".toList ∨ kindOf fields = "pointer".toList →
      IsReadable (Json.field "element".toList fields) → IsReadable (.object fields)
  | parameter {fields : List (Text × Json)} : kindOf fields = "generic_parameter".toList →
      IsReadable (.object fields)
  | named {fields : List (Text × Json)} : kindOf fields = "named".toList →
      (∀ item ∈ (Json.field "arguments".toList fields).items, IsReadable item) →
        IsReadable (.object fields)

section

variable {fields : List (Text × Json)}

theorem isReadable_element_iff
    (hkind : kindOf fields = "array".toList ∨ kindOf fields = "pointer".toList) :
    IsReadable (.object fields) ↔ IsReadable (Json.field "element".toList fields) := by
  refine ⟨fun h => ?_, .element hkind⟩
  cases h with
  | element _ h => exact h
  | parameter h | named h _ =>
    rw [h] at hkind
    exact absurd hkind (by decide)

theorem isReadable_named_iff (hkind : kindOf fields = "named".toList) :
    IsReadable (.object fields) ↔
      ∀ item ∈ (Json.field "arguments".toList fields).items, IsReadable item := by
  refine ⟨fun h => ?_, .named hkind⟩
  cases h with
  | named _ h => exact h
  | element h _ | parameter h =>
    rw [hkind] at h
    exact absurd h (by decide)

end

/-- **A reference is read exactly of the readable values.** -/
theorem ofJson_isOk_iff (j : Json) : (∃ ref, ofJson j = .ok ref) ↔ IsReadable j := by
  induction j using ofJson.induct with
  | case1 => exact iff_of_true ⟨none, by rw [ofJson]⟩ .null
  | case2 s => exact iff_of_true ⟨_, by rw [ofJson]⟩ (.text s)
  | case3 fields kind harray ih =>
    rw [ofJson, if_pos harray, exceptMap_isOk_iff, ih, isReadable_element_iff (.inl harray)]
  | case4 fields kind harray hpointer ih =>
    rw [ofJson, if_neg harray, if_pos hpointer, exceptMap_isOk_iff, ih,
      isReadable_element_iff (.inr hpointer)]
  | case5 fields kind harray hpointer hparameter =>
    rw [ofJson, if_neg harray, if_neg hpointer, if_pos hparameter]
    exact iff_of_true ⟨_, rfl⟩ (.parameter hparameter)
  | case6 fields kind harray hpointer hparameter hnamed ih =>
    rw [ofJson, if_neg harray, if_neg hpointer, if_neg hparameter, if_pos hnamed,
      exceptMap_isOk_iff, mapM_isOk_iff, isReadable_named_iff hnamed]
    exact ⟨fun h item hitem => (ih ⟨item, hitem⟩).mp (h ⟨item, hitem⟩ (List.mem_attach _ _)),
      fun h item _ => (ih item).mpr (h item.val item.property)⟩
  | case7 fields kind harray hpointer hparameter hnamed =>
    rw [ofJson, if_neg harray, if_neg hpointer, if_neg hparameter, if_neg hnamed]
    refine iff_of_false not_exists_ok ?_
    rintro (_ | _ | ⟨(h | h), _⟩ | h | ⟨h, _⟩)
    · exact harray h
    · exact hpointer h
    · exact hparameter h
    · exact hnamed h
  | case8 j hnull hstring hobject =>
    have hrefused : ofJson j = .error (.unsupported j) := by
      rw [ofJson] <;> assumption
    rw [hrefused]
    refine iff_of_false not_exists_ok fun h => ?_
    cases h with
    | null => exact hnull rfl
    | text s => exact hstring s rfl
    | element | parameter | named => exact hobject _ rfl

instance : DecidablePred IsReadable := fun j =>
  match h : ofJson j with
  | .ok ref => .isTrue ((ofJson_isOk_iff j).mp ⟨ref, h⟩)
  | .error _ => .isFalse fun hj =>
    have ⟨_, href⟩ := (ofJson_isOk_iff j).mpr hj
    nomatch h.symm.trans href

end TypeRef

/-- The value is a text with a property. -/
def Json.IsTextWith (p : Text → Prop) (j : Json) : Prop := ∃ s, j = .string s ∧ p s

/-- What the empty text does not have is read off a field as it is. -/
theorem Json.isTextWith_iff {p : Text → Prop} (hp : ¬p []) {j : Json} :
    j.IsTextWith p ↔ p j.text := by
  constructor
  · rintro ⟨s, rfl, hs⟩
    exact hs
  · intro h
    cases j with
    | string s => exact ⟨s, rfl, h⟩
    | null | bool _ | int _ | float _ | array _ | object _ => exact absurd h hp

namespace Catalog

/-! ## Entries -/

/-- The value is an object with a property. -/
def IsObjectWith (p : Fields → Prop) (item : Json) : Prop :=
  ∃ fields, item = .object fields ∧ p fields

@[simp] theorem isObjectWith_object {p : Fields → Prop} {fields : Fields} :
    IsObjectWith p (.object fields) ↔ p fields :=
  ⟨fun ⟨_, heq, h⟩ => Json.object.inj heq ▸ h, fun h => ⟨fields, rfl, h⟩⟩

theorem eq_object_of_fields?_eq_some {item : Json} {fields : Fields}
    (h : fields? item = some fields) : item = .object fields := by
  cases item with
  | object _ => rw [Option.some_inj.mp h]
  | null | bool _ | int _ | float _ | string _ | array _ => exact nomatch h

theorem not_isObjectWith_of_fields?_eq_none {p : Fields → Prop} {item : Json}
    (h : fields? item = none) : ¬IsObjectWith p item := by
  rintro ⟨fields, rfl, -⟩
  exact nomatch h

instance (p : Fields → Prop) [DecidablePred p] : DecidablePred (IsObjectWith p) := fun item =>
  match item with
  | .object _ => decidable_of_iff _ isObjectWith_object.symm
  | .null | .bool _ | .int _ | .float _ | .string _ | .array _ =>
    .isFalse (not_isObjectWith_of_fields?_eq_none rfl)

/-- The entry of an assembly is any object. -/
def IsAssembly : Json → Prop := IsObjectWith fun _ => True

/-- The assembly could not be enumerated in full: an error is recorded. -/
def HasError (fields : Fields) : Prop := (get fields "error").IsTextWith (· ≠ [])

/-- The entry of a type: an object with a full name that is not blank. -/
def IsType : Json → Prop :=
  IsObjectWith fun fields => (get fields "full_name").IsTextWith fun name => strip name ≠ []

/-- The types of the parameters, as far as these are objects. -/
def parameterReferences (fields : Fields) : List Json :=
  ((get fields "parameters").items.filterMap fields?).map fun parameter => get parameter "type"

/-- The references of a member. -/
def referencesOf : MemberKind → Fields → List Json
  | .constructors, fields => parameterReferences fields
  | .properties, fields => [get fields "type"]
  | .methods, fields => get fields "return_type" :: parameterReferences fields

/-- The entry of a member: an object all of whose references can be read. -/
def IsMember (kind : MemberKind) : Json → Prop :=
  IsObjectWith fun fields => ∀ j ∈ referencesOf kind fields, TypeRef.IsReadable j

theorem hasError_iff {fields : Fields} : HasError fields ↔ (get fields "error").text ≠ [] :=
  Json.isTextWith_iff (p := (· ≠ [])) fun h => h rfl

theorem isType_object_iff {fields : Fields} :
    IsType (.object fields) ↔ TypeEntry.fullNameOf fields ≠ [] :=
  isObjectWith_object.trans (Json.isTextWith_iff (p := fun name => strip name ≠ []) fun h => h rfl)

instance : DecidablePred IsAssembly := inferInstanceAs (DecidablePred (IsObjectWith _))

instance : DecidablePred HasError := fun _ => decidable_of_iff _ hasError_iff.symm

instance : DecidablePred IsType :=
  have : DecidablePred fun fields : Fields =>
      (get fields "full_name").IsTextWith fun name => strip name ≠ [] := fun fields =>
    decidable_of_iff (strip (get fields "full_name").text ≠ [])
      (Json.isTextWith_iff (p := fun name => strip name ≠ []) fun h => h rfl).symm
  inferInstanceAs (DecidablePred (IsObjectWith _))

instance (kind : MemberKind) : DecidablePred (IsMember kind) :=
  inferInstanceAs (DecidablePred (IsObjectWith _))

/-! ## Reading members -/

theorem ParameterEntry.listOf_isOk_iff (fields : Fields) :
    (∃ parameters, listOf TypeRef.ofJson fields = .ok parameters) ↔
      ∀ j ∈ parameterReferences fields, TypeRef.IsReadable j := by
  rw [listOf, mapM_isOk_iff, parameterReferences, List.forall_mem_map]
  simp only [ofFields, exceptMap_isOk_iff, TypeRef.ofJson_isOk_iff]

theorem ConstructorEntry.ofFields_isOk_iff (fields : Fields) :
    (∃ c, ofFields fields = .ok c) ↔
      ∀ j ∈ referencesOf .constructors fields, TypeRef.IsReadable j := by
  rw [ofFields, ofParts, exceptMap_isOk_iff, ParameterEntry.listOf_isOk_iff, referencesOf]

theorem PropertyEntry.ofFields_isOk_iff (fields : Fields) :
    (∃ p, ofFields fields = .ok p) ↔
      ∀ j ∈ referencesOf .properties fields, TypeRef.IsReadable j := by
  rw [ofFields, ofParts, exceptMap_isOk_iff, TypeRef.ofJson_isOk_iff, referencesOf,
    List.forall_mem_singleton]

theorem MethodEntry.ofFields_isOk_iff (fields : Fields) :
    (∃ method, ofFields fields = .ok method) ↔
      ∀ j ∈ referencesOf .methods fields, TypeRef.IsReadable j := by
  rw [referencesOf, List.forall_mem_cons, ← TypeRef.ofJson_isOk_iff,
    ← ParameterEntry.listOf_isOk_iff, ofFields, ofParts]
  constructor
  · rintro ⟨method, h⟩
    obtain ⟨ref, href, h⟩ := bind_eq_ok h
    obtain ⟨parameters, hparameters, -⟩ := bind_eq_ok h
    exact ⟨⟨ref, href⟩, parameters, hparameters⟩
  · rintro ⟨⟨ref, href⟩, parameters, hparameters⟩
    rw [href, hparameters]
    exact ⟨_, rfl⟩

end Catalog
end HaxeBindings
