import HaxeBindings.Options
import HaxeBindings.Text.Lowercase

/-!
# Packages

Namespaces at or below the root namespace become packages: the root itself is
the root package, and every further segment is lowered and appended.  The same
segments, joined by slashes, name the directory below the output root.

A namespace elsewhere is foreign.  A type that is generated all the same goes to
the root package (`Package.ofType`); a reference to a foreign type has no package
at all (`Package.nameOfReference`), and its caller erases it.  A reference without
a namespace is to the root package.

Below a root package without a name there is no package, so a namespace there has
none to go to (`Package.isUnnamable`).
-/

namespace HaxeBindings

open Text

/-- A package and the directory that holds its files, relative to the output root. -/
structure Package where
  name : Text
  directory : Text := []
  deriving DecidableEq

namespace Package

/-- The package of the root namespace. -/
def root (o : Options) : Package := ⟨o.rootPackageText, []⟩

/-- The package below the root package with the given segments. -/
def below (o : Options) (segments : List Text) : Package :=
  ⟨join ['.'] (o.rootPackageText :: segments), join ['/'] segments⟩

/-- The lowered segments of a namespace below the root; `none` for any other namespace. -/
def segmentsBelow? (o : Options) (ns : Text) : Option (List Text) :=
  let front := o.rootNamespace ++ ['.']
  if front.isPrefixOf ns then some ((pieces '.' (ns.drop front.length)).map lower) else none

/-- Whether a namespace would need a package below a root package without a name. -/
def isUnnamable (o : Options) (ns : Text) : Bool :=
  o.rootPackage.isNone && ns != o.rootNamespace && (segmentsBelow? o ns).isSome

/-- The package of a namespace; `none` when the namespace is foreign. -/
def ofNamespace? (o : Options) (ns : Text) : Option Package :=
  if ns = o.rootNamespace then some (root o) else (segmentsBelow? o ns).map (below o)

/-- The package a type is generated in. -/
def ofType (o : Options) (ns : Text) : Package := (ofNamespace? o ns).getD (root o)

/-- The package by which a member refers to a type. -/
def nameOfReference (o : Options) (ns : Text) : Option Text :=
  if ns.isEmpty then some o.rootPackageText else (ofNamespace? o ns).map name

@[simp] theorem ofNamespace?_root (o : Options) :
    ofNamespace? o o.rootNamespace = some (root o) := by
  simp [ofNamespace?]

@[simp] theorem nameOfReference_nil (o : Options) :
    nameOfReference o [] = some o.rootPackageText := rfl

theorem isUnnamable_of_named {o : Options} (h : o.rootPackage.isSome) (ns : Text) :
    isUnnamable o ns = false := by
  cases hp : o.rootPackage with
  | none => simp [hp] at h
  | some name => simp [isUnnamable, hp]

end Package
end HaxeBindings
