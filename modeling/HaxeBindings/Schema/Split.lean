import HaxeBindings.Text.Blank

/-!
# Bases and arguments

A schema string writes an instantiated type as its base followed by arguments
between angle brackets, `Map<String,List<T>>`.  `Schema.split` takes such a
string apart.  The arguments are the text between the first opening bracket and
a closing bracket at the very end, cut at the commas outside all brackets.

## Depth

The depth in front of a position is the number of opening brackets before it
minus the number of closing ones.  In unbalanced text it becomes negative, and a
comma there is inside no argument list either way, so only a comma at depth
exactly zero separates arguments.

## The last piece

A trailing comma announces nothing: a blank last piece is dropped.  Blank pieces
in other places stand, so the remaining arguments keep their positions.
-/

namespace HaxeBindings
namespace Schema

open Text

/-- A type string taken apart: the base and the arguments applied to it. -/
structure Application where
  base : Text
  arguments : List Text
  deriving DecidableEq

/-- The bracket depth behind `c` when it is `depth` in front of it. -/
def depthBehind (depth : Int) (c : Char) : Int :=
  if c = '<' then depth + 1 else if c = '>' then depth - 1 else depth

/-- The segments between the commas at depth zero, when the text starts at `depth`. -/
def segments (depth : Int) : Text → List Text
  | [] => [[]]
  | c :: rest =>
    if c = ',' ∧ depth = 0 then [] :: segments 0 rest
    else consFirst c (segments (depthBehind depth c) rest)

/-- The list without its last element when that one is empty. -/
def dropEmptyLast (ts : List Text) : List Text :=
  if ts.getLast? = some [] then ts.dropLast else ts

/-- The arguments written between a pair of brackets. -/
def argumentsOf (inner : Text) : List Text := dropEmptyLast ((segments 0 inner).map strip)

/-- Whether the text, stripped already, has an opening bracket and ends with a closing one. -/
def isBracketed (t : Text) : Bool := t.contains '<' && t.getLast? == some '>'

/-- Takes a type string apart.  Text without a bracket pair that reaches its end is all base. -/
def split (text : Text) : Application :=
  let t := strip text
  if isBracketed t then ⟨strip (before '<' t), argumentsOf (afterFirst '<' t).dropLast⟩
  else ⟨t, []⟩

@[simp] theorem segments_nil (depth : Int) : segments depth [] = [[]] := rfl

theorem segments_ne_nil (depth : Int) (t : Text) : segments depth t ≠ [] := by
  cases t with
  | nil => simp
  | cons c rest => unfold segments; split <;> simp

theorem split_of_not_bracketed {text : Text} (h : isBracketed (strip text) = false) :
    split text = ⟨strip text, []⟩ := by
  simp [split, h]

theorem split_of_bracketed {text : Text} (h : isBracketed (strip text) = true) :
    split text = ⟨strip (before '<' (strip text)),
      argumentsOf (afterFirst '<' (strip text)).dropLast⟩ := by
  simp [split, h]

end Schema
end HaxeBindings
