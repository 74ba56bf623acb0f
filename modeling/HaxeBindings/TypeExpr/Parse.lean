import HaxeBindings.Schema.Split
import HaxeBindings.TypeExpr.Basic

/-!
# Reading type expressions

Reading is total: text with malformed brackets is the name of a host type.  One
look at a string, relative to the names of the target vocabulary, finds the node
at the root and the strings below it (`Shape`); the tree arises by looking at
those in turn.

## The order of the tests

The empty string is the root object type.  Then the vocabulary is asked, then
the array mark at the end.  Only then is the string taken apart at its brackets.
A base that is a generic parameter, by itself or by its simple name, loses its
arguments; the nullable wrapper keeps its first argument, or wraps the root
object type when there is none.

## Depth

A tree is at most `maxDepth` levels high.  What lies deeper is erased to the
root object type, so the reader recurses on the number of levels left.
-/

namespace HaxeBindings
namespace TypeExpr

open Text Schema

/-- The greatest height of a tree that is read. -/
def maxDepth : Nat := 64

/-- The node at the root of a schema string, with the strings below it. -/
inductive Shape where
  | object
  | primitive (keyword : Text)
  | array (element : Text)
  | parameter (name : Text)
  | nullable (inner : Text)
  | named (name : Text) (arguments : List Text)
  deriving DecidableEq

/-- Whether the text ends with the array mark. -/
def isArrayText (t : Text) : Bool := arraySuffix.isSuffixOf t

/-- The text in front of the array mark. -/
def elementText (t : Text) : Text := t.take (t.length - arraySuffix.length)

/-- The node that a base and its arguments stand for; `whole` is the text they were taken from. -/
def shapeOfApplication (whole : Text) (a : Application) : Shape :=
  if isParameterName a.base || isParameterName (simpleName a.base) then .parameter a.base
  else if a.base = nullableName ∧ a.base ≠ whole then .nullable (a.arguments.headD objectName)
  else .named a.base a.arguments

/-- The node at the root of a schema string, relative to a target vocabulary. -/
def shape (vocabulary : List Text) (text : Text) : Shape :=
  let t := strip text
  if t = [] then .object
  else if t ∈ vocabulary then .primitive t
  else if isArrayText t then .array (elementText t)
  else shapeOfApplication t (split t)

/-- The tree with a given root node, when `read` reads the strings below it. -/
def ofShape (read : Text → TypeExpr) : Shape → TypeExpr
  | .object => object
  | .primitive keyword => .primitive keyword
  | .array element => .array (read element)
  | .parameter name => .parameter name
  | .nullable inner => .nullable (read inner)
  | .named name arguments => .named name (arguments.map read)

/-- Reads a schema string into a tree of fewer than `levels` levels below each other. -/
def parseWithin (vocabulary : List Text) : Nat → Text → TypeExpr
  | 0, _ => object
  | levels + 1, text => ofShape (parseWithin vocabulary levels) (shape vocabulary text)

/-- Reads a schema string relative to a target vocabulary. -/
def parse (vocabulary : List Text) (text : Text) : TypeExpr :=
  parseWithin vocabulary (maxDepth + 1) text

/-- The identifiers mentioned by a schema string; a blank string mentions none. -/
def tokensOfText (text : Text) : List Text :=
  if isBlankText text then [] else (parse [] text).tokens

@[simp] theorem parseWithin_zero (vocabulary : List Text) (text : Text) :
    parseWithin vocabulary 0 text = object := rfl

theorem parseWithin_succ (vocabulary : List Text) (levels : Nat) (text : Text) :
    parseWithin vocabulary (levels + 1) text =
      ofShape (parseWithin vocabulary levels) (shape vocabulary text) := rfl

@[simp] theorem shape_nil (vocabulary : List Text) : shape vocabulary [] = .object := rfl

@[simp] theorem parse_nil (vocabulary : List Text) : parse vocabulary [] = object := rfl

@[simp] theorem shape_strip (vocabulary : List Text) (text : Text) :
    shape vocabulary (strip text) = shape vocabulary text := by
  simp [shape]

/-- Blanks around a schema string are not part of the type. -/
@[simp] theorem parse_strip (vocabulary : List Text) (text : Text) :
    parse vocabulary (strip text) = parse vocabulary text := by
  simp [parse, parseWithin_succ]

end TypeExpr
end HaxeBindings
