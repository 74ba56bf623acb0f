import HaxeBindings.Name.Identifier
import HaxeBindings.Package
import HaxeBindings.TypeExpr.Upgrade

/-!
# Mapping types to the target language

Host primitives become core types, arrays and nullable wrappers become `Array`
and `Null`, generic parameters keep their identifier, and user types move into
their package.  Everything else is erased to the dynamic type, and an
instantiation whose base is erased is erased as a whole.

A named type without arguments that the index knows as generic receives as many
dynamic arguments as it has parameters.  Asking the index comes first: an
unreadable arity marker fails the mapping even of a name that would be erased.

## Failure

A mapping fails for one of three reasons (`MappingError`): the arity marker of a
name cannot be read, a name has no usable character and the default is empty, or a
package would lie below a root package without a name.
-/

namespace HaxeBindings

open Text Schema Name

/-- Why a type cannot be mapped. -/
inductive MappingError where
  | arity (cause : DigitsError)
  /-- A default type name was needed and is empty. -/
  | noTypeName
  /-- A package below the root package was needed, and the root package has no name. -/
  | noRootPackage
  deriving DecidableEq

/-- What a mapping depends on. -/
structure Mapping where
  index : ArityIndex := {}
  options : Options := {}
  deriving DecidableEq

namespace Mapping

/-- The core type of a host primitive. -/
def primitive? (name : Text) : Option Text :=
  (table.find? fun e => e.1.toList == name).map fun e => e.2.toList
where
  /-- Host primitives and their core types. -/
  table : List (String × String) :=
    [("System.Void", "Void"), ("System.Boolean", "Bool"), ("System.String", "String"),
      ("System.Single", "Float"), ("System.Double", "Float"), ("System.Decimal", "Float"),
      ("System.Int16", "Int"), ("System.UInt16", "Int"), ("System.Int32", "Int"),
      ("System.Byte", "Int"), ("System.SByte", "Int"), ("System.UInt32", "UInt")]

/-- The host type of 64-bit integers. -/
def int64Name : Text := "System.Int64".toList

/-- An applied type of the target language. -/
def applied (base : Text) (arguments : List Text) : Text :=
  base ++ '<' :: join [','] arguments ++ ['>']

variable (m : Mapping)

/-- The qualified name of a user type; foreign types are erased. -/
def userType (name : Text) : Except MappingError Text :=
  if Package.isUnnamable m.options (namespaceOf name) then .error .noRootPackage
  else match Package.nameOfReference m.options (namespaceOf name) with
    | none => .ok m.options.dynamicType
    | some package =>
      match typeIdentifier? m.options.defaultTypeName (simpleName name) with
      | none => .error .noTypeName
      | some identifier => .ok (package ++ '.' :: identifier)

/-- The number of dynamic arguments a name without arguments is given. -/
def impliedArity (name : Text) : Except MappingError Nat :=
  match m.index.instantiationArity? name with
  | .error e => .error (.arity e)
  | .ok arity => .ok (arity.getD 0).toNat

/-- The core type of a name that does not depend on packages. -/
def coreType? (name : Text) : Option Text :=
  match primitive? name with
  | some t => some t
  | none =>
    if name = int64Name then some m.options.int64Type
    else if name = objectName then some m.options.dynamicType
    else none

/-- Applies a mapped base to its arguments.  An erased base takes none. -/
def applyTo (base : Text) (arguments : List Text) : Text :=
  if arguments.isEmpty then base
  else if base = m.options.dynamicType then base
  else applied base arguments

mutual

/-- The target type of an expression. -/
def mapExpr : TypeExpr → Except MappingError Text
  | .primitive keyword => .ok keyword
  | .parameter name => .ok (TypeExpr.parameterIdentifier name)
  | .array element => do
    let t ← mapExpr element
    return applied "Array".toList [t]
  | .nullable inner => do
    let t ← mapExpr inner
    return applied "Null".toList [t]
  | .named name [] => do
    let arity ← m.impliedArity name
    match m.coreType? name with
    | some t => return t
    | none =>
      let base ← m.userType name
      return m.applyTo base (List.replicate arity m.options.dynamicType)
  | .named name (first :: others) =>
    match m.coreType? name with
    | some t => return t
    | none => do
      let base ← m.userType name
      if base = m.options.dynamicType then return base
      else
        let t ← mapExpr first
        let ts ← mapExprs others
        return applied base (t :: ts)
  | .unclassified => .ok m.options.dynamicType

/-- The target types of a list of expressions. -/
def mapExprs : List TypeExpr → Except MappingError (List Text)
  | [] => .ok []
  | e :: es => do
    let t ← mapExpr e
    let ts ← mapExprs es
    return t :: ts

end

/-- Reads a schema string relative to the target vocabulary. -/
def parse (text : Text) : TypeExpr := TypeExpr.parse m.options.vocabulary text

/-- The target type of a schema string. -/
def map (text : Text) : Except MappingError Text := m.mapExpr (m.parse text)

/-- A target type without a `Null` wrapper around it, so that nullable and plain shapes have one
key. -/
def keyOf (mapped : Text) : Text :=
  let t := strip mapped
  let opening := "Null<".toList
  if opening.isPrefixOf t && t.getLast? == some '>' then strip (t.drop opening.length).dropLast
  else t

/-- The target type of a schema string as it counts when signatures are compared. -/
def mapKey (text : Text) : Except MappingError Text := (m.map text).map keyOf

theorem mapExprs_eq_mapM (es : List TypeExpr) : m.mapExprs es = es.mapM m.mapExpr := by
  induction es with
  | nil => rfl
  | cons e es ih => simp [mapExprs, ih]

@[simp] theorem map_strip (text : Text) : m.map (strip text) = m.map text := by
  simp [map, parse]

end Mapping
end HaxeBindings
