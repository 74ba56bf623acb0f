import HaxeBindings.Schema.Name

/-!
# Identifiers of emitted declarations

Host names are rarely identifiers of the target language.  A type name loses its
parameter list, its arity marker and every character other than ASCII letters,
digits and the underscore; a member name that is a keyword gains an underscore.

A type name with no usable character is replaced by a default.  The default may
itself be empty, and then there is no identifier (`typeIdentifier?` is `none`).
-/

namespace HaxeBindings
namespace Name

open Text Schema

/-- The reserved words of the target language. -/
def keywords : List Text :=
  ["abstract", "break", "case", "cast", "catch", "class", "continue", "default", "do", "dynamic",
    "else", "enum", "extends", "extern", "false", "final", "for", "function", "if", "implements",
    "import", "in", "inline", "interface", "macro", "new", "null", "operator", "overload",
    "override", "package", "private", "public", "return", "static", "switch", "this", "throw",
    "true", "try", "typedef", "untyped", "using", "var", "while"].map String.toList

/-- Characters that stand in an identifier. -/
def isIdentifierChar (c : Char) : Bool := c.isAlphanum || c == '_'

/-- The usable characters of a type name. -/
def usablePart (name : Text) : Text :=
  (before arityMark (before '<' name)).filter isIdentifierChar

/-- Puts an underscore in front of a digit; `none` for the empty text. -/
def guardDigit : Text → Option Text
  | [] => none
  | c :: rest => some (if isDigit c then '_' :: c :: rest else c :: rest)

/-- The identifier of a type, with a default for names that have no usable character. -/
def typeIdentifier? (default name : Text) : Option Text :=
  let usable := usablePart name
  guardDigit (if usable.isEmpty then default else usable)

/-- The identifier of a member: keywords gain an underscore, other names stand as they are. -/
def memberIdentifier (name : Text) : Text := if name ∈ keywords then '_' :: name else name

/-- A non-empty default always yields an identifier. -/
theorem isSome_typeIdentifier? {default : Text} (h : default ≠ []) (name : Text) :
    (typeIdentifier? default name).isSome := by
  unfold typeIdentifier?
  simp only
  split
  · cases default with
    | nil => exact absurd rfl h
    | cons c rest => rfl
  · next hu =>
    cases hn : usablePart name with
    | nil => simp [hn] at hu
    | cons c rest => rfl

theorem memberIdentifier_of_not_keyword {name : Text} (h : name ∉ keywords) :
    memberIdentifier name = name := by
  simp [memberIdentifier, h]

end Name
end HaxeBindings
