import HaxeBindings.ArityIndex
import HaxeBindings.TypeExpr.Parse

/-!
# Upgrading bare generic names

A bare occurrence of a generic type is repaired by guessing its arguments: the
generic parameters of the surrounding method first, then the placeholder that
erased types have.  Only a name without arguments and without an arity marker is
bare.  Arrays are repaired in their elements; nullable wrappers and names of the
target vocabulary are complete already.

`TypeExpr.upgrade?` answers `none` when there is nothing to repair, and then the
schema string stands as it was written.
-/

namespace HaxeBindings
namespace TypeExpr

open Text Schema

/-- The arguments of an instantiation with the given arity. -/
def slots (generics : List Text) (placeholder : Text) (arity : Int) : List TypeExpr :=
  (List.range arity.toNat).map fun i =>
    match generics[i]? with
    | some name => .parameter name
    | none => .primitive placeholder

/-- The instantiation of a bare name, if the index knows it. -/
def instantiate? (index : ArityIndex) (generics : List Text) (placeholder name : Text) :
    Option TypeExpr :=
  (index.chooseArity? name generics.length).map fun arity =>
    .named (markArity name arity) (slots generics placeholder arity)

/-- The repaired expression; `none` when the expression needs no repair. -/
def upgrade? (index : ArityIndex) (generics : List Text) (placeholder : Text) :
    TypeExpr → Option TypeExpr
  | .array element => (upgrade? index generics placeholder element).map .array
  | .named name [] =>
    if hasArityMark name then none else instantiate? index generics placeholder name
  | .parameter name => instantiate? index generics placeholder name
  | _ => none

/-- The repaired expression, or the expression itself. -/
def upgrade (index : ArityIndex) (generics : List Text) (placeholder : Text) (e : TypeExpr) :
    TypeExpr :=
  (upgrade? index generics placeholder e).getD e

/-- The repaired schema string.  A string that needs no repair is only stripped. -/
def upgradeText (index : ArityIndex) (generics : List Text) (placeholder : Text) (text : Text) :
    Text :=
  let t := strip text
  if t.isEmpty then t
  else match upgrade? index generics placeholder (parse [placeholder] t) with
    | some e => e.schema
    | none => t

@[simp] theorem upgrade?_primitive (index : ArityIndex) (generics : List Text)
    (placeholder keyword : Text) :
    upgrade? index generics placeholder (.primitive keyword) = none := rfl

@[simp] theorem upgrade?_nullable (index : ArityIndex) (generics : List Text)
    (placeholder : Text) (inner : TypeExpr) :
    upgrade? index generics placeholder (.nullable inner) = none := rfl

@[simp] theorem length_slots (generics : List Text) (placeholder : Text) (arity : Int) :
    (slots generics placeholder arity).length = arity.toNat := by
  simp [slots]

end TypeExpr
end HaxeBindings
