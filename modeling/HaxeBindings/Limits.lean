import HaxeBindings.Text.Basic

/-!
# Limits of recursion

Documents and references are read by functions that call themselves, and the number
of calls that may be open at once is limited.  A function that needs more gives up,
and its caller with it (`Overflow`).  How many calls are left for a reader hangs on
the calls that are open when it starts, so the numbers are parameters (`Limits`).
-/

namespace HaxeBindings

open Text

/-- What was being read when there were no calls left. -/
inductive Overflow where
  | list
  | object
  /-- A type reference, or a value shown because it is none. -/
  | reference
  deriving DecidableEq

namespace Overflow

/-- The wording of the error.  That of a reference is the wording of the check with which every
call starts. -/
def message : Overflow → Text
  | list =>
    "maximum recursion depth exceeded while decoding a JSON array from a unicode string".toList
  | object =>
    "maximum recursion depth exceeded while decoding a JSON object from a unicode string".toList
  | reference => "maximum recursion depth exceeded in comparison".toList

end Overflow

/-- How many calls are left for the readers of a dump.  At most 1000 calls may be open, and some are
open when a reader starts. -/
structure Limits where
  /-- The calls left for reading a document, one for each list and object around a value. -/
  document : Nat := 980
  /-- The calls left for reading the references of a member. -/
  member : Nat := 980

end HaxeBindings
