import HaxeBindings.Decimal.Digits
import HaxeBindings.Json.Value
import HaxeBindings.Limits
import HaxeBindings.Text.Halves

/-!
# Reading JSON

The reader takes a whole document and nothing else: blanks are space, tab, line
feed and carriage return, texts hold no raw control characters, and nothing may
follow the value.  Beyond the standard it knows the constants `NaN`, `Infinity`
and `-Infinity`.  A repeated key keeps the place of its first occurrence and the
value of its last.  A half of a character that is spelled alone is read, as the
character that stands for it.

A list or an object deeper than the limit ends the reading where it opens, whatever
follows.  Apart from that the recursion needs no bound: every step consumes a
character, so the length of the document serves as its fuel.
-/

namespace HaxeBindings
namespace Json

open Text

/-- Why a document is not read. -/
inductive ReadError where
  | malformed
  /-- An integer cannot be read. -/
  | number (cause : DigitsError)
  | tooDeep (cause : Overflow)
  deriving DecidableEq

/-- What a reading step makes of a text: a result and the text behind it. -/
abbrev Read (α : Type) := Except ReadError (α × Text)

/-- The blanks between tokens. -/
def isSpace (c : Char) : Bool := c == ' ' || c == '\t' || c == '\n' || c == '\r'

/-- The text without the blanks it starts with. -/
def skipSpace (t : Text) : Text := t.dropWhile isSpace

/-- The value of a hexadecimal digit. -/
def hexValue? (c : Char) : Option Nat :=
  let n := c.toNat
  if '0'.toNat ≤ n ∧ n ≤ '9'.toNat then some (n - '0'.toNat)
  else if 'a'.toNat ≤ n ∧ n ≤ 'f'.toNat then some (n - 'a'.toNat + 10)
  else if 'A'.toNat ≤ n ∧ n ≤ 'F'.toNat then some (n - 'A'.toNat + 10)
  else none

/-- The code unit of four hexadecimal digits. -/
def codeUnit? (a b c d : Char) : Option Nat := do
  let a ← hexValue? a
  let b ← hexValue? b
  let c ← hexValue? c
  let d ← hexValue? d
  return ((a * 16 + b) * 16 + c) * 16 + d

/-- The character behind a backslash. -/
def escaped? (c : Char) : Option Char :=
  if c = '"' ∨ c = '\\' ∨ c = '/' then some c
  else if c = 'b' then some (Char.ofNat 8)
  else if c = 'f' then some (Char.ofNat 12)
  else if c = 'n' then some '\n'
  else if c = 'r' then some '\r'
  else if c = 't' then some '\t'
  else none

/-- The code units up to the closing quote, collected in reverse. -/
def readUnits : Text → List Nat → Read (List Nat)
  | [], _ => .error .malformed
  | c :: rest, units =>
    if c = '"' then .ok (units.reverse, rest)
    else if c = '\\' then
      match rest with
      | 'u' :: a :: b :: x :: y :: rest =>
        match codeUnit? a b x y with
        | some unit => readUnits rest (unit :: units)
        | none => .error .malformed
      | e :: rest =>
        match escaped? e with
        | some c => readUnits rest (c.toNat :: units)
        | none => .error .malformed
      | [] => .error .malformed
    else if c.toNat < 0x20 then .error .malformed
    else readUnits rest (c.toNat :: units)

/-- The characters of a list of code units.  Two halves that belong together are one character, and
for any other half stands the character of `Text.ofUnit`. -/
def charsOfUnits : List Nat → Text
  | [] => []
  | [n] => [ofUnit n]
  | high :: low :: rest =>
    if isHighHalf high && isLowHalf low then
      Char.ofNat (0x10000 + (high - 0xD800) * 0x400 + (low - 0xDC00)) :: charsOfUnits rest
    else ofUnit high :: charsOfUnits (low :: rest)

/-- A text behind its opening quote. -/
def readText (t : Text) : Read Text :=
  (readUnits t []).map fun (units, rest) => (charsOfUnits units, rest)

/-- The digits a text starts with, and the text behind them. -/
def spanDigits (t : Text) : Text × Text := (t.takeWhile Char.isDigit, t.dropWhile Char.isDigit)

/-- The fraction digits of a number, if it has a fraction. -/
def spanFraction : Text → Option (Text × Text)
  | '.' :: rest =>
    let (digits, rest) := spanDigits rest
    if digits.isEmpty then none else some (digits, rest)
  | _ => none

/-- The exponent of a number, if it has one. -/
def spanExponent : Text → Option (Int × Text)
  | e :: rest =>
    if e = 'e' ∨ e = 'E' then
      let (negative, rest) := match rest with
        | '-' :: rest => (true, rest)
        | '+' :: rest => (false, rest)
        | rest => (false, rest)
      let (digits, rest) := spanDigits rest
      let value : Int := digits.foldl (fun n d => 10 * n + (d.toNat - '0'.toNat)) 0
      if digits.isEmpty then none else some (if negative then -value else value, rest)
    else none
  | [] => none

/-- The value of a run of ASCII digits. -/
def digitsValue (digits : Text) : Nat := digits.foldl (fun n d => 10 * n + (d.toNat - '0'.toNat)) 0

/-- A number behind its sign. -/
def readMagnitude (negative : Bool) (t : Text) : Read Json :=
  let (digits, rest) := match t with
    | '0' :: rest => (['0'], rest)
    | t => spanDigits t
  if digits.isEmpty then .error .malformed
  else match spanFraction rest, spanExponent ((spanFraction rest).elim rest Prod.snd) with
    | none, none =>
      if maxDigits < digits.length then .error (.number (.tooLong digits.length))
      else
        let value : Int := digitsValue digits
        .ok (.int (if negative then -value else value), rest)
    | fraction, exponent =>
      let places := (fraction.elim [] Prod.fst)
      let behind := (exponent.elim (fraction.elim rest Prod.snd) Prod.snd)
      let power := (exponent.elim 0 Prod.fst) - places.length
      .ok (.float (.ofDecimal negative (digitsValue (digits ++ places)) power), behind)

/-- The constants of the format. -/
def constants : List (Text × Json) :=
  [("null".toList, .null), ("true".toList, .bool true), ("false".toList, .bool false),
    ("NaN".toList, .float .notANumber), ("Infinity".toList, .float (.infinite false)),
    ("-Infinity".toList, .float (.infinite true))]

/-- A constant or a number. -/
def readScalar (t : Text) : Read Json :=
  match constants.find? fun e => e.1.isPrefixOf t with
  | some (name, value) => .ok (value, t.drop name.length)
  | none =>
    match t with
    | '-' :: rest => readMagnitude true rest
    | t => readMagnitude false t

mutual

/-- A value, blanks in front of it removed already.  Not more than `depth` lists and objects may be
nested. -/
def readValue : Nat → Nat → Text → Read Json
  | 0, _, _ => .error .malformed
  | fuel + 1, depth, t =>
    match t with
    | '"' :: rest => (readText rest).map fun (s, rest) => (.string s, rest)
    | '[' :: rest =>
      match depth with
      | 0 => .error (.tooDeep .list)
      | depth + 1 =>
        match skipSpace rest with
        | ']' :: rest => .ok (.array [], rest)
        | rest => (readItems fuel depth rest []).map fun (items, rest) => (.array items, rest)
    | c :: rest =>
      if c = Char.ofNat 0x7B then
        match depth with
        | 0 => .error (.tooDeep .object)
        | depth + 1 =>
          match skipSpace rest with
          | d :: behind =>
            if d = Char.ofNat 0x7D then .ok (.object [], behind)
            else
              (readFields fuel depth (d :: behind) []).map fun (fields, rest) =>
                (.object fields, rest)
          | [] => .error .malformed
      else readScalar t
    | [] => .error .malformed

/-- The items of a list up to its closing bracket, collected in reverse. -/
def readItems : Nat → Nat → Text → List Json → Read (List Json)
  | 0, _, _, _ => .error .malformed
  | fuel + 1, depth, t, items =>
    match readValue fuel depth t with
    | .error e => .error e
    | .ok (item, rest) =>
      match skipSpace rest with
      | ',' :: rest => readItems fuel depth (skipSpace rest) (item :: items)
      | ']' :: rest => .ok ((item :: items).reverse, rest)
      | _ => .error .malformed

/-- The fields of an object up to its closing brace, added to those read before. -/
def readFields : Nat → Nat → Text → List (Text × Json) → Read (List (Text × Json))
  | 0, _, _, _ => .error .malformed
  | fuel + 1, depth, t, fields =>
    match t with
    | '"' :: rest =>
      match readText rest with
      | .error e => .error e
      | .ok (name, rest) =>
        match skipSpace rest with
        | ':' :: rest =>
          match readValue fuel depth (skipSpace rest) with
          | .error e => .error e
          | .ok (value, rest) =>
            match skipSpace rest with
            | ',' :: rest => readFields fuel depth (skipSpace rest) (setField name value fields)
            | c :: rest =>
              if c = Char.ofNat 0x7D then .ok (setField name value fields, rest)
              else .error .malformed
            | [] => .error .malformed
        | _ => .error .malformed
    | _ => .error .malformed

end

/-- Reads a document with no more than `depth` lists and objects nested in each other. -/
def read (depth : Nat) (t : Text) : Except ReadError Json :=
  match readValue (t.length + 1) depth (skipSpace t) with
  | .error e => .error e
  | .ok (value, rest) => if (skipSpace rest).isEmpty then .ok value else .error .malformed

end Json
end HaxeBindings
