import HaxeBindings.Json.Value
import HaxeBindings.Schema.Name

/-!
# Type references of a dump

A member signature refers to a host type by name, as an array or pointer of
another reference, or as a generic parameter.  A reference may be missing: null,
a blank text and a missing field all denote no reference, which stands for the
root object type.

Plain text is a reference to the type of that name.  An object says its kind; the
kind may be left out for a named type.  Other kinds and other JSON values are
refused (`RefError`).

`TypeRef.schema` writes a reference as a schema string.  Pointers vanish, nested
types are separated by dots, and of the arguments of the nullable wrapper only
the first is written.
-/

namespace HaxeBindings

open Text Schema

/-- A reference to a host type. -/
inductive TypeRef where
  | named (name : Text) (arguments : List TypeRef)
  | array (element : Option TypeRef)
  | pointer (element : Option TypeRef)
  | parameter (name : Text)

/-- Why a JSON value is not a type reference. -/
inductive RefError where
  | unknownKind (kind : Text)
  | unsupported (value : Json)

namespace RefError

/-- The wording of the error. -/
def message : RefError → Text
  | .unknownKind kind => "unknown type reference kind: ".toList ++ kind
  | .unsupported value => "unsupported type reference: ".toList ++ value.shown

end RefError

/-- Writes the separator of nested types as a dot. -/
def Schema.dotted (name : Text) : Text := replaceChar '+' '.' name

namespace TypeRef

/-- The kind an object reference has. -/
def kindOf (fields : List (Text × Json)) : Text :=
  let kind := (Json.field "kind".toList fields).text
  if kind.isEmpty then "named".toList else kind

/-- The name of a named reference. -/
def nameOf (fields : List (Text × Json)) : Text :=
  let full := (Json.field "full_name".toList fields).text
  if full.isEmpty then (Json.field "name".toList fields).text else full

theorem sizeOf_items_le (j : Json) : sizeOf j.items ≤ sizeOf j := by
  cases j <;> simp [Json.items]

/-- Reads a reference, however deep it is; missing references are `none`. -/
def ofJson : Json → Except RefError (Option TypeRef)
  | .null => .ok none
  | .string s => .ok (if isBlankText s then none else some (.named (strip s) []))
  | .object fields =>
    let kind := kindOf fields
    if kind = "array".toList then
      (ofJson (Json.field "element".toList fields)).map fun e => some (.array e)
    else if kind = "pointer".toList then
      (ofJson (Json.field "element".toList fields)).map fun e => some (.pointer e)
    else if kind = "generic_parameter".toList then
      .ok (some (.parameter (Json.field "name".toList fields).text))
    else if kind = "named".toList then
      ((Json.field "arguments".toList fields).items.attach.mapM fun item => ofJson item.val).map
        fun arguments => some (.named (nameOf fields) (arguments.filterMap id))
    else .error (.unknownKind kind)
  | j => .error (.unsupported j)
termination_by j => sizeOf j
decreasing_by
  · have := Json.sizeOf_field_le "element".toList fields
    simp only [Json.object.sizeOf_spec]; omega
  · have := Json.sizeOf_field_le "element".toList fields
    simp only [Json.object.sizeOf_spec]; omega
  · have h₃ := List.sizeOf_lt_of_mem item.property
    have h₁ := Json.sizeOf_field_le "arguments".toList fields
    have h₂ := sizeOf_items_le (Json.field "arguments".toList fields)
    simp only [Json.object.sizeOf_spec]; omega

/-- The arguments of a named reference are read one after the other. -/
theorem ofJson_of_named {fields : List (Text × Json)} (hkind : kindOf fields = "named".toList) :
    ofJson (.object fields) = ((Json.field "arguments".toList fields).items.mapM ofJson).map
      fun arguments => some (.named (nameOf fields) (arguments.filterMap id)) := by
  rw [ofJson, if_neg (by rw [hkind]; decide), if_neg (by rw [hkind]; decide),
    if_neg (by rw [hkind]; decide), if_pos hkind, List.mapM_subtype fun _ _ => rfl,
    List.unattach_attach]

/-- The name under which a reference to a host type is written. -/
def schemaName (name : Text) : Text := if name.isEmpty then objectName else dotted name

mutual

/-- The schema string of a reference. -/
def schema : TypeRef → Text
  | .named name [] => schemaName name
  | .named name (first :: others) =>
    let base := schemaName name
    if base = nullableName then nullableName ++ '<' :: first.schema ++ ['>']
    else base ++ '<' :: join [','] (first.schema :: schemas others) ++ ['>']
  | .array element => schemaOf element ++ arraySuffix
  | .pointer element => schemaOf element
  | .parameter name => if name.isEmpty then objectName else name

/-- The schema string of a reference that may be missing. -/
def schemaOf : Option TypeRef → Text
  | none => objectName
  | some ref => ref.schema

/-- The schema strings of a list of references. -/
def schemas : List TypeRef → List Text
  | [] => []
  | ref :: refs => ref.schema :: schemas refs

end

@[simp] theorem schemaOf_none : schemaOf none = objectName := rfl

theorem schemas_eq_map (refs : List TypeRef) : schemas refs = refs.map schema := by
  induction refs with
  | nil => rfl
  | cons ref refs ih => simp [schemas, ih]

end TypeRef
end HaxeBindings
