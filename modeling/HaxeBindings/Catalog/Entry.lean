import HaxeBindings.Catalog.TypeRef
import HaxeBindings.Name.CompilerGenerated

/-!
# Entries of a catalog

A catalog is what a reflection dump records: assemblies, their types, and the
members of each type with the visibility the host gives them.  Member entries are
read from JSON objects field by field; what can fail is a type reference only.  So
an entry is put together from its fields and from what its references were read as
(`ofParts`).
-/

namespace HaxeBindings
namespace Catalog

open Text Schema Name

/-- A parameter of a recorded member. -/
structure ParameterEntry where
  name : Text
  type : Option TypeRef

/-- A recorded constructor. -/
structure ConstructorEntry where
  visibility : Text
  isStatic : Bool
  parameters : List ParameterEntry

/-- A recorded property, with the visibility of each accessor it has. -/
structure PropertyEntry where
  name : Text
  type : Option TypeRef
  getter : Option Text
  setter : Option Text
  summary : Option Text

/-- A recorded method. -/
structure MethodEntry where
  name : Text
  returnType : Option TypeRef
  visibility : Text
  isStatic : Bool
  isSpecialName : Bool
  declaringType : Option Text
  genericParameters : List Text
  parameters : List ParameterEntry
  summary : Option Text

/-- A recorded type. -/
structure TypeEntry where
  fullName : Text
  name : Text
  namespaceName : Text
  visibility : Text
  isPointer : Bool
  compilerGenerated : Bool
  genericParameters : List Text
  constructors : List ConstructorEntry
  properties : List PropertyEntry
  methods : List MethodEntry
  assembly : Text

/-- A recorded assembly.  An error says why its types are incomplete. -/
structure Assembly where
  name : Text
  types : List TypeEntry
  error : Option Text

/-- The fields of a JSON object. -/
abbrev Fields := List (Text × Json)

/-- A field by name. -/
def get (fields : Fields) (name : String) : Json := Json.field name.toList fields

/-- The fields of a value that is an object. -/
def fields? : Json → Option Fields
  | .object fields => some fields
  | _ => none

/-- The recorded visibility; public when none is recorded. -/
def visibilityOf (fields : Fields) : Text := ((get fields "visibility").text?).getD "public".toList

section

variable {ε : Type}

/-- Reads a parameter; `read` reads its type. -/
def ParameterEntry.ofFields (read : Json → Except ε (Option TypeRef)) (fields : Fields) :
    Except ε ParameterEntry :=
  (read (get fields "type")).map fun type => ⟨(get fields "name").text, type⟩

/-- Reads the parameters of a member; entries that are not objects are passed over. -/
def ParameterEntry.listOf (read : Json → Except ε (Option TypeRef)) (fields : Fields) :
    Except ε (List ParameterEntry) :=
  ((get fields "parameters").items.filterMap fields?).mapM (ofFields read)

/-- The constructor with the given parameters. -/
def ConstructorEntry.ofParts (parameters : Except ε (List ParameterEntry)) (fields : Fields) :
    Except ε ConstructorEntry :=
  parameters.map fun parameters =>
    { visibility := visibilityOf fields, isStatic := (get fields "is_static").isSet, parameters }

/-- The property of the given type. -/
def PropertyEntry.ofParts (type : Except ε (Option TypeRef)) (fields : Fields) :
    Except ε PropertyEntry :=
  type.map fun type =>
    { name := (get fields "name").text
      type
      getter := (get fields "getter").text?
      setter := (get fields "setter").text?
      summary := (get fields "summary").text? }

/-- The method with the given return type and parameters.  The return type is read first. -/
def MethodEntry.ofParts (returnType : Except ε (Option TypeRef))
    (parameters : Except ε (List ParameterEntry)) (fields : Fields) : Except ε MethodEntry := do
  let returnType ← returnType
  let parameters ← parameters
  return {
    name := (get fields "name").text
    returnType
    visibility := visibilityOf fields
    isStatic := (get fields "is_static").isSet
    isSpecialName := (get fields "is_special_name").isSet
    declaringType := (get fields "declaring_type").text?
    genericParameters := (get fields "generic_parameters").texts
    parameters
    summary := (get fields "summary").text? }

end

/-- Reads a constructor. -/
def ConstructorEntry.ofFields (fields : Fields) : Except RefError ConstructorEntry :=
  ofParts (ParameterEntry.listOf TypeRef.ofJson fields) fields

/-- Reads a property. -/
def PropertyEntry.ofFields (fields : Fields) : Except RefError PropertyEntry :=
  ofParts (TypeRef.ofJson (get fields "type")) fields

/-- Reads a method. -/
def MethodEntry.ofFields (fields : Fields) : Except RefError MethodEntry :=
  ofParts (TypeRef.ofJson (get fields "return_type")) (ParameterEntry.listOf TypeRef.ofJson fields)
    fields

namespace TypeEntry

/-- The recorded full name, stripped; empty when there is none. -/
def fullNameOf (fields : Fields) : Text := strip (get fields "full_name").text

/-- The namespace a full name implies: that of the outermost type. -/
def impliedNamespace (fullName : Text) : Text := namespaceOf (before '+' fullName)

/-- The recorded simple name, or the last component of the full name. -/
def simpleNameOf (fields : Fields) : Text :=
  ((get fields "name").text?).getD (simpleName (dotted (fullNameOf fields)))

/-- The recorded namespace, or the one implied by the full name. -/
def namespaceIn (fields : Fields) : Text :=
  match get fields "namespace" with
  | .string recorded => recorded
  | _ => impliedNamespace (fullNameOf fields)

/-- The type that an entry of an assembly records, with the members that were read. -/
def ofParts (assembly : Text) (fields : Fields) (constructors : List ConstructorEntry)
    (properties : List PropertyEntry) (methods : List MethodEntry) : TypeEntry :=
  { fullName := fullNameOf fields
    name := simpleNameOf fields
    namespaceName := namespaceIn fields
    visibility := visibilityOf fields
    isPointer := (get fields "is_pointer").isSet
    compilerGenerated := (get fields "compiler_generated").isSet
    genericParameters := (get fields "generic_parameters").texts
    constructors
    properties
    methods
    assembly }

/-- Whether the type was made up by the host's compiler: by its flag or by one of its names. -/
def isGenerated (t : TypeEntry) : Bool :=
  t.compilerGenerated || isCompilerGenerated t.name || isCompilerGenerated t.fullName

end TypeEntry

end Catalog
end HaxeBindings
