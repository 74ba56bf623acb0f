import HaxeBindings.Descriptor

/-!
# Groups of member declarations

The declarations of one extern are emitted in groups.  A group holds the lines of
one member name under one optional doc comment; only a method or a constructor
group has more than one line, and then it is overloaded.
-/

namespace HaxeBindings

/-- Declarations that are emitted together. -/
structure MemberGroup where
  name : Text := []
  lines : List Text := []
  summary : Option Text := none
  overloaded : Bool := false
  deriving DecidableEq

namespace MemberGroup

/-- The number of declarations. -/
def size (g : MemberGroup) : Nat := g.lines.length

end MemberGroup

/-- The accessor list of a property; `none` for a property without accessors, which is declared as
a plain variable. -/
def accessorMode : Bool → Bool → Option Text
  | true, true => some "get,set".toList
  | true, false => some "get,never".toList
  | false, true => some "never,set".toList
  | false, false => none

end HaxeBindings
