import HaxeBindings.Text.Digit
import HaxeBindings.Text.Quoted

/-!
# Runs of digits

A run of digit characters is read as a number by the values of its digits, in
whatever script they are.  Two runs cannot be read: one with a digit that has no
positional value, and one whose positional digits number more than 4300 before
any other character.  The length is looked at first.
-/

namespace HaxeBindings

open Text

/-- Why a run of digits cannot be read as a number. -/
inductive DigitsError where
  /-- A digit character without a positional value occurs in the text. -/
  | notPositional (digits : Text)
  /-- The number would have `count` digits. -/
  | tooLong (count : Nat)
  deriving DecidableEq

namespace DigitsError

/-- The wording of the error.  At most 200 characters of the text are shown. -/
def message : DigitsError → Text
  | notPositional digits =>
    "invalid literal for int() with base 10: ".toList ++ (quoted digits).take 200
  | tooLong count =>
    "Exceeds the limit (4300 digits) for integer string conversion: value has ".toList ++
      ofNat count ++
      " digits; use sys.set_int_max_str_digits() to increase the limit".toList

end DigitsError

/-- The largest number of digits that is read as a number. -/
def maxDigits : Nat := 4300

/-- The value of a list of decimal digit values, most significant first. -/
def positionalValue (digits : List Nat) : Nat := digits.foldl (fun n d => 10 * n + d) 0

/-- Reads a run of digit characters. -/
def readDigits (digits : Text) : Except DigitsError Nat :=
  let leading := digits.takeWhile fun c => (decimalValue? c).isSome
  if maxDigits < leading.length then .error (.tooLong leading.length)
  else if leading.length < digits.length then .error (.notPositional digits)
  else .ok (positionalValue (digits.filterMap decimalValue?))

end HaxeBindings
