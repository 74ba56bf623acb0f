import HaxeBindings.Schema.Name

/-!
# Compiler generated names

Closures, iterator state machines and anonymous types have names that no source
text could contain.  They start with an angle bracket, hold one of a few marks,
or have a simple name with a telling fragment in it.
-/

namespace HaxeBindings
namespace Name

open Text Schema

/-- Marks that occur in generated names only.  The last two are angle brackets in escaped
notation. -/
def generatedMarks : List Text :=
  ["$", ".<", "+<", "\\u003C", "\\u003E"].map String.toList

/-- Fragments of the simple names of closures and anonymous types. -/
def generatedFragments : List Text := ["DisplayClass", "AnonStorey"].map String.toList

/-- Whether a full name belongs to a type that the host's compiler made up. -/
def isCompilerGenerated (fullName : Text) : Bool :=
  ['<'].isPrefixOf fullName || generatedMarks.any (hasPart · fullName) ||
    generatedFragments.any (hasPart · (simpleName (before '<' fullName)))

end Name
end HaxeBindings
