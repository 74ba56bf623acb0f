import HaxeBindings.Text.Basic

/-!
# Halves of characters

A character beyond the basic plane is spelled in a JSON document as two code units,
and a document may spell one of them alone.  Such a half is no character.  Texts
that hold one are cut, compared and shown like all others, and only when they are
encoded does it turn out that they cannot be.

A list of characters has no place for a half, so a private use character stands for
it: `0x100000 + n` for the half `n`, which is at least `0xD800` and below `0xE000`.
Like a half, that character is neither a blank nor a digit nor printable, and it has
no other letter case.  Two things are not kept.  A document that uses these private
characters itself is taken for one with halves, and a half is ordered behind all
characters and not in front of `0xE000`.
-/

namespace HaxeBindings
namespace Text

/-- The first half of a code point beyond the basic plane. -/
def isHighHalf (n : Nat) : Bool := 0xD800 ≤ n && n < 0xDC00

/-- The second half of a code point beyond the basic plane. -/
def isLowHalf (n : Nat) : Bool := 0xDC00 ≤ n && n < 0xE000

/-- The character of a code point, or the one that stands for a half. -/
def ofUnit (n : Nat) : Char :=
  Char.ofNat (if isHighHalf n || isLowHalf n then 0x100000 + n else n)

/-- The half that a character stands for, if it stands for one. -/
def half? (c : Char) : Option Nat :=
  let n := c.toNat - 0x100000
  if isHighHalf n || isLowHalf n then some n else none

/-- Whether a half is in the text, so that it cannot be encoded. -/
def hasHalf (t : Text) : Bool := t.any fun c => (half? c).isSome

end Text
end HaxeBindings
