import HaxeBindings.Proofs.Generation.Lines

/-!
# The host name in its literal

A file names its host type in a string literal, `@:native("…")`, and a host name may hold any
character.  Two global replacements make it fit: every backslash is doubled, and then every double
quote gets a backslash in front.  `escapeLiteral` does both in one pass.

Beside it stands the reader of a literal.  Behind the opening quote a backslash takes the next
character, whatever it is, and a double quote that was not taken ends the literal.  Three things can
happen (`LiteralReading`): the literal ends, the text is over before it ends, or the text is over
right behind a backslash.

* `escapeLiteral_eq_replaceAll` --- one pass does what the two replacements do, one after the other;
* `readLiteral_escapeLiteral_append` --- an escaped text in front of any other text is read as what
  it was before, and the reader goes on as if it had just begun;
* `ExternFile.text_write_native` --- where the literal stands in a file;
* `readLiteral_escapeLiteral` --- hence every escaped text is read back, alone and in a file, and
  host names that differ are written differently.

The argument is in `readLiteral_escapeLiteral_append`.  Escaping a character gives one or two
characters, and no backslash is left over behind them; so the reader is never between a backslash
and the character it takes when the next one begins, however many backslashes and quotes stand in a
row.
-/

namespace HaxeBindings

open Text

/-! ## Two replacements -/

namespace Text

/-- Writes `new` in place of every `old`. -/
def replaceAll (old : Char) (new t : Text) : Text := t.flatMap fun c => if c = old then new else [c]

theorem replaceAll_cons (old : Char) (new : Text) (c : Char) (t : Text) :
    replaceAll old new (c :: t) = (if c = old then new else [c]) ++ replaceAll old new t :=
  List.flatMap_cons

theorem replaceAll_append (old : Char) (new s t : Text) :
    replaceAll old new (s ++ t) = replaceAll old new s ++ replaceAll old new t :=
  List.flatMap_append

end Text

theorem escapeLiteral_special {c : Char} (h : c = '\\' ∨ c = '"') (t : Text) :
    escapeLiteral (c :: t) = '\\' :: c :: escapeLiteral t := by
  rw [escapeLiteral, if_pos (by simpa using h)]

theorem escapeLiteral_plain {c : Char} (hbackslash : c ≠ '\\') (hquote : c ≠ '"') (t : Text) :
    escapeLiteral (c :: t) = c :: escapeLiteral t := by
  rw [escapeLiteral, if_neg (by simpa using ⟨hbackslash, hquote⟩)]

/-- **Escaping is two replacements**: of backslashes, and then of double quotes. -/
theorem escapeLiteral_eq_replaceAll (t : Text) :
    escapeLiteral t = replaceAll '"' "\\\"".toList (replaceAll '\\' "\\\\".toList t) := by
  induction t with
  | nil => rfl
  | cons c t ih =>
    rw [replaceAll_cons, replaceAll_append, ← ih]
    by_cases hbackslash : c = '\\'
    · subst hbackslash
      exact escapeLiteral_special (.inl rfl) t
    · rw [if_neg hbackslash, replaceAll_cons]
      by_cases hquote : c = '"'
      · subst hquote
        exact escapeLiteral_special (.inr rfl) t
      · rw [if_neg hquote]
        exact escapeLiteral_plain hbackslash hquote t

/-! ## Reading a literal -/

/-- What is found behind the opening quote of a literal. -/
inductive LiteralReading where
  /-- A double quote that no backslash took ended the literal, and `rest` stands behind it. -/
  | ended (value rest : Text)
  /-- The text is over, and nothing ended the literal. -/
  | unended (value : Text)
  /-- The text is over behind a backslash that has nothing to take. -/
  | dangling (value : Text)
  deriving DecidableEq

namespace LiteralReading

/-- The reading as it is when `front` was read before. -/
def after (front : Text) : LiteralReading → LiteralReading
  | ended value rest => ended (front ++ value) rest
  | unended value => unended (front ++ value)
  | dangling value => dangling (front ++ value)

@[simp] theorem after_nil (r : LiteralReading) : r.after [] = r := by cases r <;> rfl

theorem after_after (s t : Text) (r : LiteralReading) :
    (r.after t).after s = r.after (s ++ t) := by
  cases r <;> simp only [after, List.append_assoc]

end LiteralReading

/-- Reads a literal behind its opening quote. -/
def readLiteral : Text → LiteralReading
  | [] => .unended []
  | '"' :: rest => .ended [] rest
  | ['\\'] => .dangling []
  | '\\' :: c :: rest => (readLiteral rest).after [c]
  | c :: rest => (readLiteral rest).after [c]

@[simp] theorem readLiteral_quote (rest : Text) : readLiteral ('"' :: rest) = .ended [] rest := rfl

theorem readLiteral_backslash (c : Char) (rest : Text) :
    readLiteral ('\\' :: c :: rest) = (readLiteral rest).after [c] := rfl

theorem readLiteral_cons {c : Char} (hbackslash : c ≠ '\\') (hquote : c ≠ '"') (rest : Text) :
    readLiteral (c :: rest) = (readLiteral rest).after [c] := by
  -- the last equation holds behind the others: the character starts none of them
  rw [readLiteral]
  · exact hquote
  · exact fun h _ => hbackslash h
  · exact fun _ _ h _ => hbackslash h

/-- Behind an escaped character the reader goes on as if it had just begun. -/
theorem readLiteral_escapeLiteral_cons (c : Char) (s rest : Text) :
    readLiteral (escapeLiteral (c :: s) ++ rest) =
      (readLiteral (escapeLiteral s ++ rest)).after [c] := by
  by_cases hspecial : c = '\\' ∨ c = '"'
  · rw [escapeLiteral_special hspecial]
    exact readLiteral_backslash c _
  · obtain ⟨hbackslash, hquote⟩ := not_or.mp hspecial
    rw [escapeLiteral_plain hbackslash hquote]
    exact readLiteral_cons hbackslash hquote _

/-- **An escaped text is read as the text it was**, in front of any other text. -/
theorem readLiteral_escapeLiteral_append (s rest : Text) :
    readLiteral (escapeLiteral s ++ rest) = (readLiteral rest).after s := by
  induction s with
  | nil => exact (LiteralReading.after_nil _).symm
  | cons c s ih => rw [readLiteral_escapeLiteral_cons, ih, LiteralReading.after_after]; rfl

/-- The order of the replacements counts: with the quotes first, a quote ends its literal. -/
example : readLiteral (replaceAll '\\' "\\\\".toList (replaceAll '"' "\\\"".toList ['"'])) =
    .ended ['\\'] [] := by decide

theorem escapeLiteral_inj {s t : Text} : escapeLiteral s = escapeLiteral t ↔ s = t := by
  refine ⟨fun h => ?_, congrArg _⟩
  have hread : (readLiteral []).after s = (readLiteral []).after t := by
    rw [← readLiteral_escapeLiteral_append, ← readLiteral_escapeLiteral_append, h]
  simpa [readLiteral, LiteralReading.after] using hread

/-! ## In a file -/

namespace ExternFile

/-- What stands in a file behind the literal. -/
def behindName (unit className : Text) (d : Descriptor) (groups : List MemberGroup) : Text :=
  ")\n".toList ++
    (classLine className d :: (groups.flatMap (groupLines unit) ++ ["\x7d".toList])).flatMap
      (· ++ ['\n'])

/-- **The literal of a file** stands behind the package and an empty line. -/
theorem text_write_native (unit className : Text) (d : Descriptor) (package : Text)
    (groups : List MemberGroup) :
    (write unit className d package groups).text =
      "package ".toList ++ package ++ ";\n\n@:native(\"".toList ++
        (escapeLiteral (nativeName d) ++ '"' :: behindName unit className d groups) := by
  have hopen : ";\n\n@:native(\"".toList = ";\n\n".toList ++ "@:native(\"".toList := by decide
  rw [text_write, hopen]
  unfold headLines nativeLine behindName
  simp only [List.cons_append, List.nil_append, List.flatMap_cons, List.append_assoc]
  rfl

theorem nativeLine_inj {d e : Descriptor} :
    nativeLine d = nativeLine e ↔ nativeName d = nativeName e := by
  unfold nativeLine
  rw [List.append_left_inj, List.append_right_inj, escapeLiteral_inj]

end ExternFile

/-- **Escaped texts are read back and end nothing.**  An escaped text, which is what the two
replacements make of the text, is read to its end, without a quote that ends it or a backslash that
has nothing to take, and what was read is the text.  In a file it is followed by the closing quote,
and that is where the reading ends, with the host name.  So the annotations of host names that
differ are different. -/
theorem readLiteral_escapeLiteral :
    (∀ s, escapeLiteral s = replaceAll '"' "\\\"".toList (replaceAll '\\' "\\\\".toList s) ∧
      readLiteral (escapeLiteral s) = .unended s) ∧
    (∀ unit className d package groups, ∃ literal,
      (ExternFile.write unit className d package groups).text =
        "package ".toList ++ package ++ ";\n\n@:native(\"".toList ++ literal ∧
      readLiteral literal =
        .ended (ExternFile.nativeName d) (ExternFile.behindName unit className d groups)) ∧
    ∀ d e, ExternFile.nativeLine d = ExternFile.nativeLine e ↔
      ExternFile.nativeName d = ExternFile.nativeName e := by
  refine ⟨fun s => ⟨escapeLiteral_eq_replaceAll s, ?_⟩, fun unit className d package groups =>
    ⟨_, ExternFile.text_write_native unit className d package groups, ?_⟩,
    fun d e => ExternFile.nativeLine_inj⟩
  · have hread := readLiteral_escapeLiteral_append s []
    rw [List.append_nil] at hread
    rw [hread, readLiteral, LiteralReading.after, List.append_nil]
  · rw [readLiteral_escapeLiteral_append, readLiteral_quote, LiteralReading.after, List.append_nil]

end HaxeBindings
