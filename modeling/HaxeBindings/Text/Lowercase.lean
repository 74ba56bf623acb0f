import HaxeBindings.Text.Lowercase.Table

/-!
# Lower case

Packages and the directories they are stored in are written in lower case.
Lowering is the full mapping of all scripts, which differs from a map on single
characters in two places.  The dotted capital I becomes two characters, an `i`
and a combining dot.  The Greek capital sigma becomes the final form at the end
of a word (a letter in front of it and none behind it, both looked for past
ignorable characters) and the medial form elsewhere.
-/

namespace HaxeBindings
namespace Text

/-- Whether the character is passed over when the context of a letter is inspected. -/
def isIgnorable (c : Char) : Bool := inRanges ignorableRanges c

/-- Whether the character has case. -/
def isCased (c : Char) : Bool := inRanges casedRanges c

/-- The lower-case form of a letter that has one a single character long. -/
def lowerChar (c : Char) : Char :=
  match lowercaseRuns.find? fun (first, last, step, _) =>
      first ≤ c.toNat && c.toNat ≤ last && (c.toNat - first) % step == 0 with
  | some (_, _, _, shift) => Char.ofNat (c.toNat + shift).toNat
  | none => c

/-- The Greek capital sigma. -/
def capitalSigma : Char := Char.ofNat 0x3A3

/-- The capital I with a dot above. -/
def dottedCapitalI : Char := Char.ofNat 0x130

/-- Whether the nearest character that is not ignorable has case. -/
def meetsCased (t : Text) : Bool :=
  match t.dropWhile isIgnorable with
  | [] => false
  | c :: _ => isCased c

/-- The lower-case form of one character between the text in front of it (nearest character first)
and the text behind it. -/
def lowerIn (front : Text) (c : Char) (behind : Text) : Text :=
  if c = capitalSigma then
    [Char.ofNat (if meetsCased front && !meetsCased behind then 0x3C2 else 0x3C3)]
  else if c = dottedCapitalI then ['i', Char.ofNat 0x307]
  else [lowerChar c]

/-- Lowers the text that stands behind `front`, which is read from its end. -/
def lowerFrom (front : Text) : Text → Text
  | [] => []
  | c :: behind => lowerIn front c behind ++ lowerFrom (c :: front) behind

/-- The text in lower case. -/
def lower (t : Text) : Text := lowerFrom [] t

@[simp] theorem lower_nil : lower [] = [] := rfl

end Text
end HaxeBindings
