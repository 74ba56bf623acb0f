import HaxeBindings.Text.Basic

/-!
# Paths

A path is an anchor and a list of names.  Reading a path drops empty names and
single dots; a double dot stays, since what it means is up to the file tree.  Two
slashes at the start, and not three, are an anchor of their own.

Joining appends the names of a relative path.  A path with an anchor on the right
replaces what stands on the left.
-/

namespace HaxeBindings

open Text

/-- Where a path starts. -/
inductive Anchor where
  | current
  | root
  | doubleRoot
  deriving DecidableEq

namespace Anchor

/-- The anchor as it is written. -/
def text : Anchor → Text
  | current => []
  | root => ['/']
  | doubleRoot => ['/', '/']

/-- The anchor a text starts with. -/
def ofText : Text → Anchor
  | '/' :: '/' :: '/' :: _ => root
  | '/' :: '/' :: _ => doubleRoot
  | '/' :: _ => root
  | _ => current

end Anchor

/-- A path in the file tree. -/
structure Path where
  anchor : Anchor := .current
  names : List Text := []
  deriving DecidableEq

namespace Path

/-- Whether a piece between slashes counts as a name. -/
def isName (piece : Text) : Bool := !piece.isEmpty && piece != ['.']

/-- Reads a path. -/
def ofText (t : Text) : Path := ⟨Anchor.ofText t, (pieces '/' t).filter isName⟩

/-- The path as it is written; a single dot for the current directory. -/
def text (p : Path) : Text :=
  let t := p.anchor.text ++ join ['/'] p.names
  if t.isEmpty then ['.'] else t

/-- The path `t`, taken from the directory `p`. -/
def join (p : Path) (t : Text) : Path :=
  let q := ofText t
  if q.anchor = .current then ⟨p.anchor, p.names ++ q.names⟩ else q

/-- The path without its last name. -/
def parent (p : Path) : Path := { p with names := p.names.dropLast }

@[simp] theorem parent_names (p : Path) : p.parent.names = p.names.dropLast := rfl

@[simp] theorem join_nil (p : Path) : p.join [] = p := by
  simp [join, ofText, Anchor.ofText, isName]

end Path
end HaxeBindings
