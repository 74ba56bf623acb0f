import HaxeBindings.Member.Signature

/-!
# Emitting the members of a type

Each kind of member is reduced to one declaration per key and put in an order
that does not hang on the order of the host's enumeration: constructors by key,
methods by name and then by parameter count and key.  Of the members with one key
the first one is declared.  Properties stand in the order of the descriptor.

A group is overloaded when more than one declaration is left.  Its doc comment is
the first summary with any text in it, taken from all methods of the name,
including those that were dropped.
-/

namespace HaxeBindings

open Text

/-- A summary without blanks around it; `none` when nothing is left. -/
def cleanSummary (summary : Option Text) : Option Text :=
  (summary.map strip).filter fun s => !s.isEmpty

/-- A method of a group, with what its declaration and its place depend on. -/
structure KeyedMethod where
  key : Text
  method : Method
  generics : List Text
  deriving DecidableEq

namespace KeyedMethod

/-- The order of declarations: by parameter count, then by key. -/
def le (a b : KeyedMethod) : Bool :=
  let m := a.method.parameters.length
  let n := b.method.parameters.length
  m < n || (m == n && Text.le a.key b.key)

end KeyedMethod

section

variable {μ : Type → Type} [Monad μ] (ask : Text → μ Text)

/-- The constructors that are declared, with their keys, in ascending order. -/
def orderedConstructors (constructors : List Constructor) : μ (List (Text × Constructor)) := do
  let keyed ← (constructors.filter Constructor.isPublic).mapM fun c => do
    let key ← c.key ask
    return (key, c)
  return (Sorted.firstPerKey Prod.fst keyed).mergeSort fun a b => Text.le a.1 b.1

/-- The group of the public constructors; it may be empty. -/
def constructorGroup (constructors : List Constructor) : μ MemberGroup := do
  let ordered ← orderedConstructors ask constructors
  let overloaded := decide (1 < ordered.length)
  let lines ← ordered.mapM fun e => e.2.line ask overloaded
  return { name := "new".toList, lines, overloaded }

/-- The group of a property; a blank name declares nothing. -/
def propertyGroup (p : Property) : μ (Option MemberGroup) := do
  let name := strip p.name
  if name.isEmpty then return none
  else
    let line ← p.line ask name
    return some { name, lines := [line], summary := cleanSummary p.summary }

/-- The methods that are declared for one name, in order. -/
def orderedMethods (methods : List Method) : μ (List KeyedMethod) := do
  let keyed ← methods.mapM fun method => do
    let generics := method.mentionedParameters
    let key ← method.key ask generics
    return KeyedMethod.mk key method generics
  return (Sorted.firstPerKey KeyedMethod.key keyed).mergeSort KeyedMethod.le

/-- The group of the methods with one name; no methods make no group. -/
def methodGroup (name : Text) (methods : List Method) : μ (Option MemberGroup) := do
  let ordered ← orderedMethods ask methods
  if ordered.isEmpty then return none
  else
    let overloaded := decide (1 < ordered.length)
    let lines ← ordered.mapM fun e => e.method.line ask overloaded e.generics
    let summary := methods.findSome? fun method => cleanSummary method.summary
    return some { name, lines, summary, overloaded }

/-- The names under which methods are grouped, ascending. -/
def methodNames (methods : List Method) : List Text :=
  Sorted.ofList Text.le ((methods.map fun method => strip method.name).filter fun n => !n.isEmpty)

/-- The methods grouped under one name. -/
def methodsNamed (name : Text) (methods : List Method) : List Method :=
  methods.filter fun method => strip method.name = name

/-- The groups of a list of methods, upgraded first, in ascending order of their names. -/
def methodGroups (m : Mapping) (methods : List Method) : μ (List MemberGroup) := do
  let upgraded := methods.map (Method.upgraded m)
  let groups ← (methodNames upgraded).mapM fun name =>
    methodGroup ask name (methodsNamed name upgraded)
  return groups.filterMap id

/-- The groups of a type: constructors, properties, methods. -/
def memberGroups (m : Mapping) (d : Descriptor) : μ (List MemberGroup) := do
  let constructors ← constructorGroup ask d.constructors
  let properties ← d.properties.mapM (propertyGroup ask)
  let methods ← methodGroups ask m d.methods
  return (if constructors.lines.isEmpty then [] else [constructors]) ++
    properties.filterMap id ++ methods

end

end HaxeBindings
