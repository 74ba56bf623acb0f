import HaxeBindings.Member.Emission
import HaxeBindings.Writer

/-!
# The file of one type

A file declares one extern class: its package, the host name it stands for, the
class with its type parameters and, one level further in, the member groups with
their doc comments.
-/

namespace HaxeBindings

open Text Schema Name

/-- The class name of a type; `none` when a default is needed and empty. -/
def Descriptor.className? (default : Text) (d : Descriptor) : Option Text :=
  typeIdentifier? default (simpleName (if d.baseName.isEmpty then d.name else d.baseName))

/-- Writes one member group. -/
def Writer.group (w : Writer) (g : MemberGroup) : Writer := (w.doc (g.summary.getD [])).all g.lines

namespace ExternFile

/-- The name of the host type in the `native` annotation. -/
def nativeName (d : Descriptor) : Text := if d.fullName.isEmpty then d.name else d.fullName

/-- The annotation that names the host type. -/
def nativeLine (d : Descriptor) : Text :=
  "@:native(\"".toList ++ escapeLiteral (nativeName d) ++ "\")".toList

/-- The first line of the class. -/
def classLine (className : Text) (d : Descriptor) : Text :=
  "extern class ".toList ++ className ++ genericList d.typeParameters ++ " \x7b".toList

/-- The writer after the whole file. -/
def write (unit className : Text) (d : Descriptor) (package : Text) (groups : List MemberGroup) :
    Writer :=
  let opened : Writer :=
    ((({ unit : Writer }.line ("package ".toList ++ package ++ [';'])).line []).line
      (nativeLine d)).line (classLine className d)
  (opened.block fun w => groups.foldl Writer.group w).line "\x7d".toList

/-- The text of the file; `none` when the class has no name. -/
def text? (unit default : Text) (d : Descriptor) (package : Text) (groups : List MemberGroup) :
    Option Text :=
  (d.className? default).map fun className => (write unit className d package groups).text

end ExternFile
end HaxeBindings
