import HaxeBindings.Catalog.Load
import HaxeBindings.Sorted
import HaxeBindings.Text.Lowercase

/-!
# Selecting the exportable types

Of a catalog only the assemblies named after the root namespace are looked at,
in any case of letters.  A type of such an assembly is exported when the host
shows it (public, or public inside a public type), it is not a pointer, not
compiler generated, and lives in the root namespace, below it or in none.

Of the types with one full name the first exportable one is taken.  A generated
type that the host shows is reported, wherever it lives.
-/

namespace HaxeBindings
namespace Catalog

open Text

/-- Whether the assembly belongs to the root namespace. -/
def Assembly.isOf (root : Text) (a : Assembly) : Bool :=
  (lower (root ++ ['.'])).isPrefixOf (lower a.name)

namespace TypeEntry

/-- Whether the host shows the type: visible, and not a pointer. -/
def isShown (t : TypeEntry) : Bool :=
  !t.isPointer && (t.visibility == "public".toList || t.visibility == "nested_public".toList)

/-- Whether the type lives in the root namespace, below it or in none. -/
def isWithin (root : Text) (t : TypeEntry) : Bool :=
  t.namespaceName.isEmpty || t.namespaceName == root ||
    (root ++ ['.']).isPrefixOf t.namespaceName

/-- Whether the type is exported. -/
def isExportable (root : Text) (t : TypeEntry) : Bool :=
  t.isShown && !t.isGenerated && t.isWithin root

/-- The report on a type that is left out because it is compiler generated. -/
def selectionNote (t : TypeEntry) : List Event :=
  if t.isShown && t.isGenerated then [.generatedType t.fullName] else []

end TypeEntry

/-- The types of the assemblies that belong to the root namespace. -/
def candidates (root : Text) (assemblies : List Assembly) : List TypeEntry :=
  (assemblies.filter (Assembly.isOf root)).flatMap Assembly.types

/-- The exportable types, one for each full name. -/
def select (root : Text) (assemblies : List Assembly) : Logged (List TypeEntry) :=
  let types := candidates root assemblies
  ⟨Sorted.firstPerKey TypeEntry.fullName (types.filter (TypeEntry.isExportable root)),
    types.flatMap TypeEntry.selectionNote⟩

end Catalog
end HaxeBindings
