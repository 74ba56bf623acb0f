import HaxeBindings.Decimal.Binary64
import HaxeBindings.Text.Basic

/-!
# Shortest decimals

The text of a double precision number shows the fewest digits that read back to
the same number, and of those digits the nearest to it.  A grid of decimals with
a given number of digits has two neighbours of the number; if any point of the
grid reads back, one of the two does.  So the digits are found by looking at the
neighbours on finer and finer grids.  Seventeen digits always read back.

## Layout

The point stands among the digits for exponents from -4 to 15, and a whole number
then ends in `.0`.  Other numbers have one digit in front of the point and an
exponent of at least two digits with its sign.
-/

namespace HaxeBindings
namespace Binary64

open Text

/-- The exponent of the greatest power of ten below or at a positive ratio. -/
def decimalExponent (num den : Nat) : Int :=
  if den ≤ num then ((Nat.toDigits 10 (num / den)).length : Int) - 1
  else
    let places := (Nat.toDigits 10 (den / num)).length
    if den ≤ num * Nat.pow 10 (places - 1) then -((places : Int) - 1) else -(places : Int)

/-- The neighbours of a ratio among the multiples of `10 ^ power`, the nearer one first. -/
def neighbours (num den : Nat) (power : Int) : List Nat :=
  let (n, d) := scaleRatio num den 10 (-power)
  let low := n / d
  if n % d = 0 then [low]
  else
    let twice := 2 * (n % d)
    if twice < d ∨ (twice = d ∧ low % 2 = 0) then [low, low + 1] else [low + 1, low]

/-- The digits and the power of ten of the shortest decimal that reads back, on grids of `count`
digits and more. -/
def shortestFrom (significand : Nat) (exponent : Int) (num den : Nat) (top : Int) :
    Nat → Nat → Nat × Int
  | 0, _ => (significand, exponent)
  | grids + 1, count =>
    let power := top - count + 1
    match (neighbours num den power).find? fun digits =>
        ofDecimal false digits power == .finite false significand exponent with
    | some digits => (digits, power)
    | none => shortestFrom significand exponent num den top grids (count + 1)

/-- The shortest decimal that reads back to `significand * 2 ^ exponent`. -/
def shortest (significand : Nat) (exponent : Int) : Nat × Int :=
  let (num, den) := scaleRatio significand 1 2 exponent
  shortestFrom significand exponent num den (decimalExponent num den) 17 1

/-- The text without the zeros it ends with. -/
def dropTrailingZeros (digits : Text) : Text := (digits.reverse.dropWhile (· == '0')).reverse

/-- The digits of an exponent, at least two of them. -/
def exponentDigits (n : Nat) : Text := if n < 10 then '0' :: ofNat n else ofNat n

/-- Digits with the point behind the first `point` of them. -/
def layout (digits : Text) (point : Int) : Text :=
  if -4 < point ∧ point ≤ 16 then
    if point ≤ 0 then "0.".toList ++ List.replicate (-point).toNat '0' ++ digits
    else
      let whole := digits.take point.toNat
      let fraction := digits.drop point.toNat
      whole ++ List.replicate (point.toNat - whole.length) '0' ++ '.' ::
        (if fraction.isEmpty then ['0'] else fraction)
  else
    let exponent := point - 1
    let fraction := digits.drop 1
    digits.take 1 ++ (if fraction.isEmpty then [] else '.' :: fraction) ++ 'e' ::
      (if 0 ≤ exponent then '+' else '-') :: exponentDigits exponent.natAbs

/-- The text of a number. -/
def text : Binary64 → Text
  | .notANumber => "nan".toList
  | .infinite negative => if negative then "-inf".toList else "inf".toList
  | .finite negative significand exponent =>
    (if negative then ['-'] else []) ++
      if significand = 0 then "0.0".toList
      else
        let (digits, power) := shortest significand exponent
        let shown := ofNat digits
        layout (dropTrailingZeros shown) (shown.length + power)

end Binary64
end HaxeBindings
