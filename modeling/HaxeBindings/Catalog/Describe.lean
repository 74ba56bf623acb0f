import HaxeBindings.Catalog.Entry
import HaxeBindings.Descriptor

/-!
# Descriptors of recorded types

A recorded type becomes a descriptor that keeps only what a script can reach:
public instance constructors, properties with a public accessor, and public or
protected methods that the type declares itself.  Methods that implement a
property or an operator are left out, since those are described on their own.
-/

namespace HaxeBindings
namespace Catalog

open Text Schema

/-- Whether a visibility is the public one. -/
def isPublic (visibility : Text) : Bool := visibility == "public".toList

/-- Whether a visibility admits derived types only. -/
def isProtected (visibility : Text) : Bool :=
  visibility == "protected".toList || visibility == "protected_internal".toList

/-- Parameters with their schema strings.  A blank name becomes `arg` and the position. -/
def describeParameters (parameters : List ParameterEntry) : List Parameter :=
  parameters.zipIdx.map fun (p, i) =>
    let name := strip p.name
    { name := if name.isEmpty then "arg".toList ++ ofNat i else name
      type := TypeRef.schemaOf p.type }

namespace ConstructorEntry

/-- Whether a script can call the constructor. -/
def isReachable (c : ConstructorEntry) : Bool := isPublic c.visibility && !c.isStatic

/-- The descriptor of a constructor. -/
def describe (c : ConstructorEntry) : Constructor :=
  { parameters := describeParameters c.parameters }

end ConstructorEntry

namespace PropertyEntry

/-- Whether a script can reach the property: one of its accessors is public. -/
def isReachable (p : PropertyEntry) : Bool := p.getter.any isPublic || p.setter.any isPublic

/-- Whether an accessor counts once the property is reachable. -/
def accessorCounts (visibility : Option Text) : Bool :=
  visibility.any fun v => isPublic v || isProtected v

/-- The descriptor of a property. -/
def describe (p : PropertyEntry) : Property :=
  { name := p.name
    type := TypeRef.schemaOf p.type
    hasGetter := accessorCounts p.getter
    hasSetter := accessorCounts p.setter
    summary := p.summary }

end PropertyEntry

namespace MethodEntry

/-- Whether a script can call the method on its owner. -/
def isReachable (owner : Text) (method : MethodEntry) : Bool :=
  !method.isSpecialName && method.declaringType.all (fun d => dotted d == dotted owner) &&
    (isPublic method.visibility || isProtected method.visibility)

/-- The descriptor of a method. -/
def describe (method : MethodEntry) : Method :=
  { name := method.name
    returnType := match method.returnType with
      | none => voidName
      | some ref => ref.schema
    isStatic := method.isStatic
    isProtected := Catalog.isProtected method.visibility
    genericParameters := method.genericParameters
    parameters := describeParameters method.parameters
    summary := method.summary }

end MethodEntry

namespace TypeEntry

/-- The canonical name of a type: dotted, with the parameter list of a generic definition. -/
def canonicalName (t : TypeEntry) : Text :=
  if t.genericParameters.isEmpty then dotted t.fullName
  else dotted t.fullName ++ '<' :: join [','] t.genericParameters ++ ['>']

/-- The descriptor of a type. -/
def describe (t : TypeEntry) : Descriptor :=
  { fullName := t.canonicalName
    name := t.name
    constructors := (t.constructors.filter ConstructorEntry.isReachable).map
      ConstructorEntry.describe
    properties := (t.properties.filter PropertyEntry.isReachable).map PropertyEntry.describe
    methods := (t.methods.filter (MethodEntry.isReachable t.fullName)).map MethodEntry.describe
    genericParameters := t.genericParameters }

end TypeEntry

/-- The descriptors of recorded types.  A type with a blank name has none. -/
def describeAll (types : List TypeEntry) : List Descriptor :=
  (types.map TypeEntry.describe).filter fun d => !isBlankText d.fullName

end Catalog
end HaxeBindings
