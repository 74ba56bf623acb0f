import HaxeBindings.Catalog.Entry
import HaxeBindings.Json.Reader
import HaxeBindings.Log

/-!
# Loading a catalog

Only a document that is no dump at all aborts the load: text that is not JSON, or
a value without a list of assemblies.  Everything below is taken entry by entry.
An entry of the wrong shape, a type without a full name and a member with a bad
reference are reported and left out, and their neighbours are not touched.

Here every reference is read, however deep it is.  `Catalog/Limited` loads the same
catalog within a number of calls.

The events come in the order of the document: those of the members of a type
before those of the next type, and the note on a partial assembly before its
types.
-/

namespace HaxeBindings
namespace Catalog

open Text Schema

/-- Why a document is not a dump. -/
inductive FormatError where
  | notJson
  | noAssemblies
  deriving DecidableEq

/-- Reads one member of a type.  Constructors, properties and methods differ in `read` only. -/
def loadMember {α : Type} (kind : MemberKind) (owner : Text)
    (read : Fields → Except RefError α) (item : Json) : Logged (Option α) :=
  match fields? item with
  | none => ⟨none, [.malformedMember kind owner]⟩
  | some fields =>
    match read fields with
    | .error cause => ⟨none, [.rejectedMember kind owner cause]⟩
    | .ok entry => ⟨some entry, []⟩

/-- Reads the members of one kind. -/
def loadMembers {α : Type} (fields : Fields) (kind : MemberKind) (owner : Text)
    (read : Fields → Except RefError α) : Logged (List α) :=
  Logged.collect ((get fields kind.word).items.map (loadMember kind owner read))

/-- Reads one type of an assembly. -/
def loadType (assembly : Text) (item : Json) : Logged (Option TypeEntry) :=
  match fields? item with
  | none => ⟨none, [.malformedType assembly]⟩
  | some fields =>
    let fullName := TypeEntry.fullNameOf fields
    if fullName.isEmpty then ⟨none, [.unnamedType assembly]⟩
    else
      let constructors := loadMembers fields .constructors fullName ConstructorEntry.ofFields
      let properties := loadMembers fields .properties fullName PropertyEntry.ofFields
      let methods := loadMembers fields .methods fullName MethodEntry.ofFields
      ⟨some (.ofParts assembly fields constructors.value properties.value methods.value),
        constructors.log ++ properties.log ++ methods.log⟩

/-- The note on an assembly that could not be enumerated in full. -/
def partialNote (assembly : Text) : Option Text → List Event
  | none => []
  | some error => [.partialAssembly assembly error]

/-- Reads one assembly. -/
def loadAssembly (item : Json) : Logged (Option Assembly) :=
  match fields? item with
  | none => ⟨none, [.malformedAssembly]⟩
  | some fields =>
    let name := (get fields "name").text
    let error := (get fields "error").text?
    let types := Logged.collect ((get fields "types").items.map (loadType name))
    ⟨some { name, types := types.value, error }, partialNote name error ++ types.log⟩

/-- The list of assemblies in a dump. -/
def assemblyItems? (dump : Json) : Option (List Json) :=
  match fields? dump with
  | none => none
  | some fields =>
    match get fields "assemblies" with
    | .array items => some items
    | _ => none

/-- Reads a catalog from a JSON value. -/
def ofJson (dump : Json) : Except FormatError (Logged (List Assembly)) :=
  match assemblyItems? dump with
  | none => .error .noAssemblies
  | some items => .ok (Logged.collect (items.map loadAssembly))

end Catalog
end HaxeBindings
