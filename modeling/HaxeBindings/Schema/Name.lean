import HaxeBindings.Text.Blank
import HaxeBindings.Decimal.Digits

/-!
# Names inside schema strings

A schema name is a dotted path whose last component, the simple name, may carry
an arity marker: a mark and the number of type parameters of the definition.

## Generic parameters by convention

Nothing in a schema string says that a name stands for a generic parameter.
The convention decides: a single capital letter, or a `T` followed by ASCII
letters and digits.  A concrete type whose name happens to have that form counts
as a parameter too.

## Reading an arity

The marker text is a number when it is a non-empty run of digits.  Any other text
behind the mark makes a name without an arity; a run of digits that cannot be
read is an error.
-/

namespace HaxeBindings
namespace Schema

open Text

/-- The name of the root object type. -/
def objectName : Text := "System.Object".toList

/-- The base of the nullable value wrapper. -/
def nullableName : Text := "System.Nullable".toList ++ [arityMark, '1']

/-- The result type of a method that returns nothing. -/
def voidName : Text := "System.Void".toList

/-- The mark of an array type. -/
def arraySuffix : Text := "[]".toList

/-- Whether a name follows the convention for generic parameters. -/
def isParameterName (token : Text) : Bool :=
  match strip token with
  | [] => false
  | [c] => c.isUpper
  | c :: rest => c == 'T' && rest.all Char.isAlphanum

/-- The last component of a dotted name. -/
def simpleName (name : Text) : Text := afterLast '.' name

/-- The components in front of the last one; empty for a name without a dot. -/
def namespaceOf (name : Text) : Text := beforeLast '.' name

/-- The simple name without its arity marker. -/
def identifierOf (text : Text) : Text := before arityMark (simpleName (strip text))

/-- Whether a name carries an arity marker. -/
def hasArityMark (name : Text) : Bool := name.contains arityMark

/-- The name in front of its arity mark, with the arity when the text behind the mark is a
number. -/
def splitArity (name : Text) : Except DigitsError (Text × Option Nat) :=
  let digits := afterFirst arityMark name
  if digits.isEmpty || !digits.all isDigit then .ok (before arityMark name, none)
  else (readDigits digits).map fun arity => (before arityMark name, some arity)

/-- A marked name: the base, the mark and the arity. -/
def markArity (base : Text) (arity : Int) : Text := base ++ arityMark :: ofInt arity

@[simp] theorem isParameterName_nil : isParameterName [] = false := rfl

theorem splitArity_of_unmarked {name : Text} (h : hasArityMark name = false) :
    splitArity name = .ok (name, none) := by
  have hc : arityMark ∉ name := by simpa [hasArityMark] using h
  simp [splitArity, before_eq_self hc, afterFirst_eq_nil hc]

end Schema
end HaxeBindings
