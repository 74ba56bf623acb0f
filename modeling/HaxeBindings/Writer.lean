import HaxeBindings.Text.Blank

/-!
# Writing indented source text

A writer holds the lines written so far and the current level of indentation.
An empty line is never indented.  Doc comments stand on one line: line breaks
inside become spaces, and a comment end inside is pulled apart so that it ends
nothing.
-/

namespace HaxeBindings

open Text

/-- The text inside a string literal: backslashes and double quotes are escaped. -/
def escapeLiteral : Text → Text
  | [] => []
  | c :: rest =>
    if c = '\\' || c = '"' then '\\' :: c :: escapeLiteral rest else c :: escapeLiteral rest

/-- Puts a space between the two characters of every comment end. -/
def breakCommentEnds : Text → Text
  | '*' :: '/' :: rest => '*' :: ' ' :: '/' :: breakCommentEnds rest
  | c :: rest => c :: breakCommentEnds rest
  | [] => []

/-- A doc comment on one line. -/
def docComment (text : Text) : Text :=
  "/** ".toList ++ breakCommentEnds (replaceChar '\n' ' ' (replaceChar '\r' ' ' text)) ++
    " */".toList

/-- The lines written so far, and the level of the next one. -/
structure Writer where
  unit : Text := "  ".toList
  level : Nat := 0
  lines : List Text := []
  deriving DecidableEq

namespace Writer

/-- The spacing in front of a line at the current level. -/
def margin (w : Writer) : Text := (List.replicate w.level w.unit).flatten

/-- Writes one line. -/
def line (w : Writer) (text : Text) : Writer :=
  { w with lines := w.lines ++ [if text.isEmpty then [] else w.margin ++ text] }

/-- Writes lines one below the other. -/
def all (w : Writer) (texts : List Text) : Writer := texts.foldl line w

/-- Writes a doc comment, unless there is nothing to say. -/
def doc (w : Writer) (text : Text) : Writer :=
  if isBlankText text then w else w.line (docComment (strip text))

/-- One level further in. -/
def indent (w : Writer) : Writer := { w with level := w.level + 1 }

/-- One level further out; there is none outside the outermost. -/
def dedent? (w : Writer) : Option Writer :=
  match w.level with
  | 0 => none
  | level + 1 => some { w with level }

/-- Writes with `body` one level further in, and returns to the current level. -/
def block (w : Writer) (body : Writer → Writer) : Writer :=
  { body w.indent with level := w.level }

/-- The text written so far. -/
def text (w : Writer) : Text := join ['\n'] w.lines ++ ['\n']

@[simp] theorem dedent?_indent (w : Writer) : w.indent.dedent? = some w := rfl

@[simp] theorem level_line (w : Writer) (t : Text) : (w.line t).level = w.level := rfl

@[simp] theorem lines_line (w : Writer) (t : Text) :
    (w.line t).lines = w.lines ++ [if t.isEmpty then [] else w.margin ++ t] := rfl

end Writer
end HaxeBindings
