import HaxeBindings.Files.Tree
import HaxeBindings.Text.Halves

/-!
# The system of the command

The command runs on a system that encodes names and texts in UTF-8 and takes no name
of more than 255 bytes.  A half of a character has no encoding.  In a name the second
halves up to `0xDCFF` stand for single bytes, so these can be there.

Permissions and space are not known in advance, so nothing is refused for want of
them here.
-/

namespace HaxeBindings

open Text

namespace Refusal

/-- Whether a half of a character stands for a byte of a name. -/
def isByteHalf (n : Nat) : Bool := 0xDC80 ≤ n && n ≤ 0xDCFF

/-- Whether a name can be encoded. -/
def isEncodableName (name : Text) : Bool := name.all fun c => (half? c).all isByteHalf

/-- The number of bytes a name takes. -/
def byteCount (name : Text) : Nat :=
  name.foldl (fun n c => n + if (half? c).isSome then 1 else c.utf8Size) 0

/-- What the system refuses. -/
def ofSystem : Access → Option Refusal
  | .walk p => if p.names.all isEncodableName then none else some .unencodable
  | .make l => if l.names.all fun name => byteCount name ≤ 255 then none else some .nameTooLong
  | .write l t =>
    if ¬l.names.all fun name => byteCount name ≤ 255 then some .nameTooLong
    else if hasHalf t then some .unencodable
    else none
  | .load _ => none

end Refusal

/-- The empty tree on the system of the command. -/
def FileTree.onSystem : FileTree := { refusal? := Refusal.ofSystem }

end HaxeBindings
