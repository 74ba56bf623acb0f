import HaxeBindings.Mapping
import HaxeBindings.Member.Group
import HaxeBindings.Name.ParameterNames

/-!
# Signatures

Overload sets of a host often collapse once their types are mapped, and the
target language rejects duplicates.  Members are therefore compared by a key that
is written from their mapped types, with `Null` wrappers around whole parameter
types taken off.

## Asking for types

Mapping a type is an effect here: `ask` maps one schema string in a monad.  It is
`Mapping.map` when nothing is remembered between requests, and a request to a
memo otherwise.  The order of the requests is part of the meaning, since the
first one that fails decides the error.

## Generic parameters

A method declares the generic parameters that its types mention
(`Method.mentionedParameters`), whatever the host said it declares.  What the
host said is used for upgrades only.
-/

namespace HaxeBindings

open Text Schema Name

/-- The identifiers among `tokens` that name generic parameters, in ascending order. -/
def parametersAmong (tokens : List Text) : List Text :=
  Sorted.ofList le ((tokens.filter isParameterName).map strip)

namespace Method

/-- The schema strings of a method: the return type and the parameter types. -/
def types (method : Method) : List Text := method.returnType :: method.parameters.map Parameter.type

/-- The generic parameters that the types of a method mention. -/
def mentionedParameters (method : Method) : List Text :=
  parametersAmong (method.types.flatMap TypeExpr.tokensOfText)

/-- The method with its bare generic types upgraded.  A missing return type is the empty type. -/
def upgraded (m : Mapping) (method : Method) : Method :=
  let upgrade :=
    TypeExpr.upgradeText m.index method.genericParameters m.options.dynamicType
  { method with
    returnType := upgrade (if method.returnType.isEmpty then voidName else method.returnType)
    parameters := method.parameters.map fun p => { p with type := upgrade p.type } }

end Method

section

variable {μ : Type → Type} [Monad μ] (ask : Text → μ Text)

/-- The mapped types of a parameter list. -/
def parameterTypes (parameters : List Parameter) : μ (List Text) :=
  parameters.mapM fun p => ask p.type

/-- The unique names of a parameter list. -/
def parameterNames (parameters : List Parameter) : List Text :=
  ParameterNames.allocateAll {} (parameters.zipIdx.map fun (p, i) => (p.name, (i : Int)))

/-- A parameter list as it is declared. -/
def formatParameters (parameters : List Parameter) : μ Text := do
  let types ← parameterTypes ask parameters
  return join ", ".toList
    (List.zipWith (fun name type => name ++ ':' :: type) (parameterNames parameters) types)

/-- A parameter list as it counts when signatures are compared. -/
def parameterKey (parameters : List Parameter) : μ Text := do
  let types ← parameterTypes ask parameters
  return join [','] (types.map Mapping.keyOf)

/-- The key of a constructor. -/
def Constructor.key (c : Constructor) : μ Text := do
  let key ← parameterKey ask c.parameters
  return "new(".toList ++ key ++ [')']

/-- The key of a method that declares the given generic parameters. -/
def Method.key (method : Method) (generics : List Text) : μ Text := do
  let result ← ask method.returnType
  let key ← parameterKey ask method.parameters
  return [if method.isStatic then 'S' else 'I', if method.isProtected then 'P' else 'U', '|'] ++
    method.name ++ "|<".toList ++ join [','] generics ++ ">|".toList ++ result ++ "|(".toList ++
    key ++ [')']

/-- The word in front of every declaration of an overloaded group. -/
def overloadWord (overloaded : Bool) : Text := if overloaded then "overload ".toList else []

/-- A generic parameter list; nothing when it would be empty. -/
def genericList (generics : List Text) : Text :=
  if generics.isEmpty then [] else '<' :: join [','] generics ++ ['>']

/-- The declaration of a constructor. -/
def Constructor.line (overloaded : Bool) (c : Constructor) : μ Text := do
  let parameters ← formatParameters ask c.parameters
  return overloadWord overloaded ++ "function new(".toList ++ parameters ++ "):Void;".toList

/-- The declaration of a method. -/
def Method.line (overloaded : Bool) (method : Method) (generics : List Text) : μ Text := do
  let parameters ← formatParameters ask method.parameters
  let result ← ask method.returnType
  return (if method.isProtected then "@:protected ".toList else []) ++
    (if method.isStatic then "static ".toList else []) ++ overloadWord overloaded ++
    "function ".toList ++ memberIdentifier method.name ++ genericList generics ++ '(' ::
    parameters ++ "):".toList ++ result ++ [';']

/-- The declaration of a property under its stripped name. -/
def Property.line (name : Text) (p : Property) : μ Text := do
  let type ← ask (if p.type.isEmpty then objectName else p.type)
  let accessors := match accessorMode p.hasGetter p.hasSetter with
    | some mode => '(' :: mode ++ [')']
    | none => []
  return "var ".toList ++ memberIdentifier name ++ accessors ++ ':' :: type ++ [';']

end

end HaxeBindings
