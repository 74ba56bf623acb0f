import HaxeBindings.Text.Basic

/-!
# Options of a run

The options name the host namespace that is exported, the package it becomes and
the words of the target vocabulary that a host may replace.  They are one value
that is handed to every step, so a run consults nothing else.

The root package may be without a name.  It is then written as a pair of brackets,
and no package can lie below it.
-/

namespace HaxeBindings

/-- What the caller of a run settles. -/
inductive Setting where
  | out
  | rootNamespace
  | rootPackage
  | extension
  deriving DecidableEq

/-- What is exported, and in which target vocabulary. -/
structure Options where
  /-- The host namespace whose types are exported. -/
  rootNamespace : Text := "Sandbox".toList
  /-- The package of the types that live directly in the root namespace, if it has a name. -/
  rootPackage : Option Text := some "sbox".toList
  /-- The file extension, without its dot. -/
  extension : Text := "hx".toList
  /-- The type that everything unknown is erased to. -/
  dynamicType : Text := "Dynamic".toList
  /-- The type of 64-bit integers. -/
  int64Type : Text := "haxe.Int64".toList
  /-- The class name used where a host name has no usable character. -/
  defaultTypeName : Text := "Type".toList
  /-- One level of indentation. -/
  indent : Text := "  ".toList
  deriving DecidableEq

namespace Options

/-- The root package as it is written. -/
def rootPackageText (o : Options) : Text := o.rootPackage.getD "[]".toList

/-- The type names that the mapping produces itself and therefore leaves alone. -/
def vocabulary (o : Options) : List Text :=
  [o.dynamicType, "Void".toList, "Int".toList, "UInt".toList, "Float".toList, "Bool".toList,
    "String".toList, o.int64Type]

end Options
end HaxeBindings
