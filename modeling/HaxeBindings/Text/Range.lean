import HaxeBindings.Text.Basic

/-!
# Character classes as ranges

A character class is given by a list of inclusive code point ranges in ascending
order, and membership is a search in it.
-/

namespace HaxeBindings
namespace Text

/-- Whether the code point of `c` lies in one of the ranges, ends included. -/
def inRanges (ranges : List (Nat × Nat)) (c : Char) : Bool :=
  ranges.any fun r => r.1 ≤ c.toNat && c.toNat ≤ r.2

@[simp] theorem inRanges_nil (c : Char) : inRanges [] c = false := rfl

end Text
end HaxeBindings
