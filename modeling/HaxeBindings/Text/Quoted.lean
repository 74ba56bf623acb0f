import HaxeBindings.Text.Halves
import HaxeBindings.Text.Printable

/-!
# Quoted texts

Diagnostics show a text between quotes, so that blanks at its ends and
characters without a printed form stay visible.  The quote is the single one,
unless the text holds single quotes and no double ones.  The backslash, the
quote in use, tab, line feed and carriage return are written with a backslash;
every other character that is not printable becomes `\xNN`, `\uNNNN` or
`\UNNNNNNNN`, whichever is the shortest form that fits.  A half of a character is
written `\uNNNN`, too.
-/

namespace HaxeBindings
namespace Text

/-- The last `width` hexadecimal digits of `n`, with leading zeros. -/
def hexDigits : Nat → Nat → Text
  | 0, _ => []
  | width + 1, n => hexDigits width (n / 16) ++ [Nat.digitChar (n % 16)]

/-- The quote around a text: single, unless only single quotes occur inside. -/
def quoteFor (t : Text) : Char :=
  if t.contains '\'' && !t.contains '"' then '"' else '\''

/-- One character inside quotes. -/
def quotedChar (quote c : Char) : Text :=
  if c = '\\' || c = quote then ['\\', c]
  else if c = '\t' then ['\\', 't']
  else if c = '\n' then ['\\', 'n']
  else if c = '\r' then ['\\', 'r']
  else if let some n := half? c then '\\' :: 'u' :: hexDigits 4 n
  else if isPrintable c then [c]
  else if c.toNat < 0x100 then '\\' :: 'x' :: hexDigits 2 c.toNat
  else if c.toNat < 0x10000 then '\\' :: 'u' :: hexDigits 4 c.toNat
  else '\\' :: 'U' :: hexDigits 8 c.toNat

/-- The text between quotes. -/
def quoted (t : Text) : Text :=
  let quote := quoteFor t
  quote :: t.flatMap (quotedChar quote) ++ [quote]

@[simp] theorem length_hexDigits (width n : Nat) : (hexDigits width n).length = width := by
  induction width generalizing n with
  | zero => rfl
  | succ width ih => simp [hexDigits, ih]

end Text
end HaxeBindings
