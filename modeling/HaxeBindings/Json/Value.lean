import HaxeBindings.Decimal.Shortest
import HaxeBindings.Text.Quoted

/-!
# JSON values

A reflection dump is a JSON document, and every one of its entries may have any
shape.  Objects keep the order of their fields.  Numbers written without fraction
and exponent are integers, all others are double precision numbers.

## Reading fields

A missing field counts as null.  A field that is read as text is empty when it
holds anything else, and one that is read as a list is empty likewise, so a dump
is never rejected for the shape of a field.  A flag is set by every value except
null, `false`, zero and the empty text, list and object.

## Showing a value

`Json.shown` writes a value for a diagnostic: texts are quoted, and the constants
are spelled `None`, `True` and `False`.
-/

namespace HaxeBindings

open Text

/-- A JSON value. -/
inductive Json where
  | null
  | bool (value : Bool)
  | int (value : Int)
  | float (value : Binary64)
  | string (value : Text)
  | array (items : List Json)
  | object (fields : List (Text × Json))

namespace Json

/-- The value of a field, null when it is missing. -/
def field (name : Text) : List (Text × Json) → Json
  | [] => null
  | (key, value) :: rest => if key = name then value else field name rest

/-- Sets a field: in place when it is there already, and at the end otherwise. -/
def setField (name : Text) (value : Json) : List (Text × Json) → List (Text × Json)
  | [] => [(name, value)]
  | (key, old) :: rest =>
    if key = name then (key, value) :: rest else (key, old) :: setField name value rest

/-- The text of a value; empty for anything but a text. -/
def text : Json → Text
  | string value => value
  | _ => []

/-- The text of a value, unless it is empty. -/
def text? (j : Json) : Option Text := if j.text.isEmpty then none else some j.text

/-- The items of a value; empty for anything but a list. -/
def items : Json → List Json
  | array items => items
  | _ => []

/-- The non-empty texts in the list that a value holds. -/
def texts (j : Json) : List Text := j.items.filterMap text?

/-- Whether a flag with this value is set. -/
def isSet : Json → Bool
  | null => false
  | bool value => value
  | int value => value != 0
  | float value => !value.isZero
  | string value => !value.isEmpty
  | array items => !items.isEmpty
  | object fields => !fields.isEmpty

mutual

/-- How many lists and objects are nested in each other. -/
def nesting : Json → Nat
  | array items => nestingOfItems items + 1
  | object fields => nestingOfFields fields + 1
  | _ => 0

/-- The deepest nesting among the items of a list. -/
def nestingOfItems : List Json → Nat
  | [] => 0
  | item :: rest => max item.nesting (nestingOfItems rest)

/-- The deepest nesting among the fields of an object. -/
def nestingOfFields : List (Text × Json) → Nat
  | [] => 0
  | (_, value) :: rest => max value.nesting (nestingOfFields rest)

end

mutual

/-- A value as diagnostics show it. -/
def shown : Json → Text
  | null => "None".toList
  | bool value => (if value then "True" else "False").toList
  | int value => ofInt value
  | float value => value.text
  | string value => quoted value
  | array items => '[' :: join ", ".toList (shownItems items) ++ [']']
  | object fields => "\x7b".toList ++ join ", ".toList (shownFields fields) ++ "\x7d".toList

/-- The items of a list as diagnostics show them. -/
def shownItems : List Json → List Text
  | [] => []
  | item :: rest => item.shown :: shownItems rest

/-- The fields of an object as diagnostics show them. -/
def shownFields : List (Text × Json) → List Text
  | [] => []
  | (key, value) :: rest => (quoted key ++ ": ".toList ++ value.shown) :: shownFields rest

end

@[simp] theorem field_nil (name : Text) : field name [] = null := rfl

/-- A field is smaller than the object it is read from. -/
theorem sizeOf_field_le (name : Text) (fields : List (Text × Json)) :
    sizeOf (field name fields) ≤ sizeOf fields := by
  induction fields with
  | nil => simp [field]
  | cons f rest ih =>
    obtain ⟨key, value⟩ := f
    unfold field
    split
    · simp only [List.cons.sizeOf_spec, Prod.mk.sizeOf_spec]; omega
    · simp only [List.cons.sizeOf_spec]; omega

end Json
end HaxeBindings
