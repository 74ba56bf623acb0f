/-!
# Double precision numbers

Numbers with a fraction or an exponent are double precision numbers: an integer
below 2^53 times a power of two.  `Binary64.ofDecimal` rounds a decimal to the
nearest of them, ties going to the even integer, in exact arithmetic on natural
numbers.

## Rounding

A positive ratio is first measured by its binary exponent.  That fixes the unit
of the last place, 52 binary places below the first and never below 2^-1074, and
the ratio is rounded to a whole number of units.  Rounding up may reach 2^53
units, which is 2^52 units twice as large.

A decimal with its first digit above the 310th place or below the -330th is
infinite or zero without a computation.
-/

namespace HaxeBindings

/-- A double precision number: `± significand * 2 ^ exponent`, infinite, or not a number. -/
inductive Binary64 where
  | finite (negative : Bool) (significand : Nat) (exponent : Int)
  | infinite (negative : Bool)
  | notANumber
  deriving DecidableEq

namespace Binary64

/-- The ratio `num / den` times `base ^ power`, as a ratio. -/
def scaleRatio (num den base : Nat) (power : Int) : Nat × Nat :=
  if 0 ≤ power then (num * Nat.pow base power.toNat, den)
  else (num, den * Nat.pow base (-power).toNat)

/-- The nearest integer to a ratio; a tie goes to the even one. -/
def roundEven (num den : Nat) : Nat :=
  let q := num / den
  let twice := 2 * (num % den)
  if twice < den then q
  else if den < twice then q + 1
  else if q % 2 = 0 then q else q + 1

/-- The exponent of the greatest power of two below or at a positive ratio. -/
def binaryExponent (num den : Nat) : Int :=
  let guess : Int := (Nat.log2 num : Int) - Nat.log2 den
  let (n, d) := scaleRatio num den 2 (-guess)
  if d ≤ n then guess else guess - 1

/-- The least exponent of a finite number. -/
def minExponent : Int := -1074

/-- The greatest exponent of a finite number. -/
def maxExponent : Int := 971

/-- The least significand of a number above the least exponent: 2^52. -/
def minSignificand : Nat := Nat.pow 2 52

/-- The number nearest to a positive ratio. -/
def ofRatio (negative : Bool) (num den : Nat) : Binary64 :=
  let exponent := max (binaryExponent num den - 52) minExponent
  let (n, d) := scaleRatio num den 2 (-exponent)
  let units := roundEven n d
  let (significand, exponent) :=
    if units = 2 * minSignificand then (minSignificand, exponent + 1) else (units, exponent)
  if maxExponent < exponent then .infinite negative else .finite negative significand exponent

/-- Zero with its sign. -/
def zero (negative : Bool) : Binary64 := .finite negative 0 minExponent

/-- The number nearest to `± digits * 10 ^ power`. -/
def ofDecimal (negative : Bool) (digits : Nat) (power : Int) : Binary64 :=
  if digits = 0 then zero negative
  else
    let place := ((Nat.toDigits 10 digits).length : Int) + power
    if 310 < place then .infinite negative
    else if place < -330 then zero negative
    else
      let (num, den) := scaleRatio digits 1 10 power
      ofRatio negative num den

/-- Whether the number is a zero of either sign. -/
def isZero : Binary64 → Bool
  | .finite _ significand _ => significand == 0
  | _ => false

end Binary64
end HaxeBindings
