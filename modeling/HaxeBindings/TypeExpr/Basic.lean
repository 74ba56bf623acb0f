import HaxeBindings.Schema.Name

/-!
# Type expressions

A type occurrence is a tree.  Its nodes are names of the target vocabulary
(`primitive`), arrays, nullable wrappers, names of host types with the arguments
applied to them (`named`) and generic parameters.  An expression whose form is
not known at all is `unclassified`: it has no schema string.

`TypeExpr.schema` is the printer.  It is total, and `TypeExpr.schema?` withholds
its answer from a tree that has an unclassified node.
-/

namespace HaxeBindings

open Text Schema

/-- A parsed type occurrence. -/
inductive TypeExpr where
  /-- A name that belongs to the target vocabulary already. -/
  | primitive (keyword : Text)
  | array (element : TypeExpr)
  | nullable (inner : TypeExpr)
  /-- A host type with its arguments. -/
  | named (name : Text) (arguments : List TypeExpr)
  /-- A generic parameter, with the name exactly as it was written. -/
  | parameter (name : Text)
  /-- An expression of unknown form. -/
  | unclassified
  deriving BEq, Inhabited

namespace TypeExpr

/-- The root object type. -/
def object : TypeExpr := .named objectName []

mutual

/-- The schema string of an expression. -/
def schema : TypeExpr → Text
  | .primitive keyword => keyword
  | .array element => element.schema ++ arraySuffix
  | .nullable inner => nullableName ++ '<' :: inner.schema ++ ['>']
  | .named name [] => name
  | .named name (first :: others) =>
    name ++ '<' :: join [','] (first.schema :: schemas others) ++ ['>']
  | .parameter name => name
  | .unclassified => []

/-- The schema strings of a list of expressions. -/
def schemas : List TypeExpr → List Text
  | [] => []
  | e :: es => e.schema :: schemas es

end

mutual

/-- Whether the form of every node is known. -/
def isClassified : TypeExpr → Bool
  | .primitive _ => true
  | .array element => element.isClassified
  | .nullable inner => inner.isClassified
  | .named _ arguments => allClassified arguments
  | .parameter _ => true
  | .unclassified => false

/-- Whether every expression of a list is classified. -/
def allClassified : List TypeExpr → Bool
  | [] => true
  | e :: es => e.isClassified && allClassified es

end

/-- The schema string of a classified expression. -/
def schema? (e : TypeExpr) : Option Text := if e.isClassified then some e.schema else none

mutual

/-- The number of levels below the root. -/
def height : TypeExpr → Nat
  | .primitive _ => 0
  | .array element => element.height + 1
  | .nullable inner => inner.height + 1
  | .named _ [] => 0
  | .named _ (first :: others) => max first.height (maxHeight others) + 1
  | .parameter _ => 0
  | .unclassified => 0

/-- The greatest height in a list of expressions; zero when it is empty. -/
def maxHeight : List TypeExpr → Nat
  | [] => 0
  | e :: es => max e.height (maxHeight es)

end

/-- The identifier of a generic parameter: its name, or the simple name when only that one follows
the convention. -/
def parameterIdentifier (name : Text) : Text :=
  if isParameterName name then name else simpleName name

mutual

/-- The identifiers mentioned by an expression, from left to right.  Arrays mention what their
elements do; names lose their namespace and arity marker. -/
def tokens : TypeExpr → List Text
  | .primitive keyword => [keyword]
  | .array element => element.tokens
  | .nullable inner => identifierOf nullableName :: inner.tokens
  | .named name arguments => identifierOf name :: tokensOfAll arguments
  | .parameter name => [identifierOf name]
  | .unclassified => []

/-- The identifiers mentioned by a list of expressions. -/
def tokensOfAll : List TypeExpr → List Text
  | [] => []
  | e :: es => e.tokens ++ tokensOfAll es

end

theorem schemas_eq_map (es : List TypeExpr) : schemas es = es.map schema := by
  induction es with
  | nil => rfl
  | cons e es ih => simp [schemas, ih]

theorem allClassified_eq_all (es : List TypeExpr) : allClassified es = es.all isClassified := by
  induction es with
  | nil => rfl
  | cons e es ih => simp [allClassified, ih]

@[simp] theorem schema_object : object.schema = objectName := rfl

end TypeExpr
end HaxeBindings
