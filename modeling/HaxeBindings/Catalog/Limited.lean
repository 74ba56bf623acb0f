import HaxeBindings.Catalog.Load
import HaxeBindings.Limits

/-!
# Loading within a number of calls

A reference is read by a function that calls itself for what the reference contains,
and the number of calls that may be open at once is limited.  A reference that needs
more cannot be told from one that is rejected by looking at its entry: it does not
end the entry but the load.  What was reported until then stays reported.

The functions here are those that run.  They do what `TypeRef.ofJson` and
`Catalog.ofJson` do and count the calls on the way.

## Counting

Reading a reference is one call.  For the element of an array or a pointer it is made
again, and between a named reference and each of its arguments stand two more calls,
those of the loop over the arguments.  Three stand between a member and the type of a
parameter.  A value that is no reference is shown in the report on it, which takes a
call for each list and object nested in it.  Other calls are over when the next one is
made; at the limit itself they may be one too many.
-/

namespace HaxeBindings

open Text

/-- Why a value is not read within a number of calls. -/
inductive ReadStop where
  | rejected (cause : RefError)
  /-- There are no calls left. -/
  | tooDeep

/-- Reads a reference within a number of calls. -/
def TypeRef.ofJsonWithin : Nat → Json → Except ReadStop (Option TypeRef)
  | 0, _ => .error .tooDeep
  | _ + 1, .null => .ok none
  | _ + 1, .string s => .ok (if isBlankText s then none else some (.named (strip s) []))
  | calls + 1, .object fields =>
    let kind := kindOf fields
    if kind = "array".toList then
      (ofJsonWithin calls (Json.field "element".toList fields)).map fun e => some (.array e)
    else if kind = "pointer".toList then
      (ofJsonWithin calls (Json.field "element".toList fields)).map fun e => some (.pointer e)
    else if kind = "generic_parameter".toList then
      .ok (some (.parameter (Json.field "name".toList fields).text))
    else if kind = "named".toList then
      match calls with
      | left + 2 =>
        ((Json.field "arguments".toList fields).items.mapM (ofJsonWithin left)).map
          fun arguments => some (.named (nameOf fields) (arguments.filterMap id))
      | _ => .error .tooDeep
    else .error (.rejected (.unknownKind kind))
  | calls + 1, j =>
    if j.nesting ≤ calls then .error (.rejected (.unsupported j)) else .error .tooDeep

/-- What a step comes to that may run out of calls, with what was reported until then. -/
structure Limited (α : Type) where
  /-- The result, if there were calls enough. -/
  value : Option α
  log : List Event := []

namespace Limited

variable {α β : Type}

/-- Goes on with the result. -/
def bind (x : Limited α) (next : α → Limited β) : Limited β :=
  match x.value with
  | none => ⟨none, x.log⟩
  | some a => ⟨(next a).value, x.log ++ (next a).log⟩

instance : Monad Limited where
  pure a := ⟨some a, []⟩
  bind := bind

/-- Loads the items of a list one after the other, and keeps the values that are there. -/
def collect (load : Json → Limited (Option α)) : List Json → Limited (List α)
  | [] => pure []
  | item :: rest => do
    let x ← load item
    let others ← collect load rest
    return x.toList ++ others

end Limited

namespace Catalog

/-- Reads the parameters of a member within a number of calls. -/
def ParameterEntry.listWithin : Nat → Fields → Except ReadStop (List ParameterEntry)
  | left + 3, fields => listOf (TypeRef.ofJsonWithin left) fields
  | _, _ => .error .tooDeep

/-- Reads a constructor within a number of calls. -/
def ConstructorEntry.ofFieldsWithin (calls : Nat) (fields : Fields) :
    Except ReadStop ConstructorEntry :=
  ofParts (ParameterEntry.listWithin calls fields) fields

/-- Reads a property within a number of calls. -/
def PropertyEntry.ofFieldsWithin (calls : Nat) (fields : Fields) : Except ReadStop PropertyEntry :=
  ofParts (TypeRef.ofJsonWithin calls (get fields "type")) fields

/-- Reads a method within a number of calls. -/
def MethodEntry.ofFieldsWithin (calls : Nat) (fields : Fields) : Except ReadStop MethodEntry :=
  ofParts (TypeRef.ofJsonWithin calls (get fields "return_type"))
    (ParameterEntry.listWithin calls fields) fields

/-- Reads one member of a type.  Only a rejected reference is reported. -/
def loadMemberWithin {α : Type} (kind : MemberKind) (owner : Text)
    (read : Fields → Except ReadStop α) (item : Json) : Limited (Option α) :=
  match fields? item with
  | none => ⟨some none, [.malformedMember kind owner]⟩
  | some fields =>
    match read fields with
    | .error (.rejected cause) => ⟨some none, [.rejectedMember kind owner cause]⟩
    | .error .tooDeep => ⟨none, []⟩
    | .ok entry => pure (some entry)

/-- Reads the members of one kind. -/
def loadMembersWithin {α : Type} (fields : Fields) (kind : MemberKind) (owner : Text)
    (read : Fields → Except ReadStop α) : Limited (List α) :=
  Limited.collect (loadMemberWithin kind owner read) (get fields kind.word).items

/-- Reads one type of an assembly. -/
def loadTypeWithin (calls : Nat) (assembly : Text) (item : Json) : Limited (Option TypeEntry) :=
  match fields? item with
  | none => ⟨some none, [.malformedType assembly]⟩
  | some fields =>
    let fullName := TypeEntry.fullNameOf fields
    if fullName.isEmpty then ⟨some none, [.unnamedType assembly]⟩
    else do
      let constructors ← loadMembersWithin fields .constructors fullName
        (ConstructorEntry.ofFieldsWithin calls)
      let properties ← loadMembersWithin fields .properties fullName
        (PropertyEntry.ofFieldsWithin calls)
      let methods ← loadMembersWithin fields .methods fullName (MethodEntry.ofFieldsWithin calls)
      return some (.ofParts assembly fields constructors properties methods)

/-- Reads one assembly. -/
def loadAssemblyWithin (calls : Nat) (item : Json) : Limited (Option Assembly) :=
  match fields? item with
  | none => ⟨some none, [.malformedAssembly]⟩
  | some fields =>
    let name := (get fields "name").text
    let error := (get fields "error").text?
    let note : Limited Unit := ⟨some (), partialNote name error⟩
    do
      note
      let types ← Limited.collect (loadTypeWithin calls name) (get fields "types").items
      return some { name, types, error }

/-- Reads a catalog from a JSON value within a number of calls for each member. -/
def ofJsonWithin (calls : Nat) (dump : Json) : Except FormatError (Limited (List Assembly)) :=
  match assemblyItems? dump with
  | none => .error .noAssemblies
  | some items => .ok (Limited.collect (loadAssemblyWithin calls) items)

end Catalog
end HaxeBindings
