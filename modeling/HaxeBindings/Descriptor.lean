import HaxeBindings.Schema.Split
import HaxeBindings.Schema.Name

/-!
# Descriptors of host types

A descriptor holds what an emitted class is made from: the canonical name of a
host type and its reachable members, with every type occurrence as a schema
string.  An open generic definition carries its arity marker and its parameter
list in the name, `Sandbox.Pool` with the marker and `<T>`, and nested types are
separated by dots like namespaces.
-/

namespace HaxeBindings

open Text Schema

/-- A parameter with its schema string. -/
structure Parameter where
  name : Text := []
  type : Text := []
  deriving DecidableEq

/-- A constructor. -/
structure Constructor where
  parameters : List Parameter := []
  isPublic : Bool := true
  deriving DecidableEq

/-- A property with the accessors a script can reach. -/
structure Property where
  name : Text := []
  type : Text := []
  hasGetter : Bool := true
  hasSetter : Bool := true
  summary : Option Text := none
  deriving DecidableEq

/-- A method with the generic parameters it declares. -/
structure Method where
  name : Text := []
  returnType : Text := []
  isStatic : Bool := false
  isProtected : Bool := false
  genericParameters : List Text := []
  parameters : List Parameter := []
  summary : Option Text := none
  deriving DecidableEq

/-- A host type. -/
structure Descriptor where
  fullName : Text := []
  name : Text := []
  constructors : List Constructor := []
  properties : List Property := []
  methods : List Method := []
  genericParameters : List Text := []
  deriving DecidableEq

namespace Descriptor

/-- Whether the type is an open generic definition. -/
def isGenericDefinition (d : Descriptor) : Bool := !d.genericParameters.isEmpty

/-- The full name without its parameter list. -/
def baseName (d : Descriptor) : Text := (split d.fullName).base

/-- The namespace of the type, outer types included. -/
def namespaceName (d : Descriptor) : Text := namespaceOf d.baseName

/-- The parameter names declared in the full name. -/
def typeParameters (d : Descriptor) : List Text :=
  (split d.fullName).arguments.filter fun a => !a.isEmpty

end Descriptor
end HaxeBindings
