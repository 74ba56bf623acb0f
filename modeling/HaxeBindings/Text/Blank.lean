import HaxeBindings.Text.Basic

/-!
# Blank characters and stripping

Names and schema strings arrive with stray spacing.  `Text.strip` removes the
blanks at both ends and leaves those inside alone.  The blanks are the spacing
characters, the line and paragraph breaks and the four information separators;
characters without width (zero-width space, byte order mark, word joiner) are
not among them.
-/

namespace HaxeBindings
namespace Text

/-- Spacing characters, line breaks and information separators. -/
def isBlank (c : Char) : Bool :=
  let n := c.toNat
  (0x9 ≤ n && n ≤ 0xD) || (0x1C ≤ n && n ≤ 0x20) || n == 0x85 || n == 0xA0 || n == 0x1680 ||
    (0x2000 ≤ n && n ≤ 0x200A) || n == 0x2028 || n == 0x2029 || n == 0x202F || n == 0x205F ||
    n == 0x3000

/-- The text without the blanks it starts with. -/
def stripStart (t : Text) : Text := t.dropWhile isBlank

/-- The text without the blanks it ends with. -/
def stripEnd (t : Text) : Text := (t.reverse.dropWhile isBlank).reverse

/-- The text without the blanks at both ends. -/
def strip (t : Text) : Text := stripEnd (stripStart t)

/-- A text is blank when nothing but blanks is in it. -/
def isBlankText (t : Text) : Bool := (strip t).isEmpty

@[simp] theorem strip_nil : strip [] = [] := rfl

theorem length_stripStart_le (t : Text) : (stripStart t).length ≤ t.length :=
  (List.dropWhile_sublist _).length_le

theorem length_stripEnd_le (t : Text) : (stripEnd t).length ≤ t.length := by
  simpa [stripEnd] using (List.dropWhile_sublist isBlank (l := t.reverse)).length_le

theorem length_strip_le (t : Text) : (strip t).length ≤ t.length :=
  Nat.le_trans (length_stripEnd_le _) (length_stripStart_le t)

theorem head?_stripStart {t : Text} {c : Char} (h : (stripStart t).head? = some c) :
    isBlank c = false := by
  have hd := List.head?_dropWhile_not isBlank t
  rw [stripStart] at h
  rw [h] at hd
  simpa using hd

theorem stripStart_eq_self {t : Text} (h : ∀ c, t.head? = some c → isBlank c = false) :
    stripStart t = t := by
  cases t with
  | nil => rfl
  | cons c rest => simp [stripStart, h c rfl]

theorem stripEnd_prefix (t : Text) : stripEnd t <+: t := by
  simpa [stripEnd] using
    List.reverse_prefix.mpr (List.dropWhile_suffix isBlank (l := t.reverse))

theorem stripEnd_stripEnd (t : Text) : stripEnd (stripEnd t) = stripEnd t := by
  have h : stripStart (stripStart t.reverse) = stripStart t.reverse :=
    stripStart_eq_self fun _ => head?_stripStart
  simpa [stripEnd, stripStart] using h

/-- Stripping leaves no blank at either end, so a second time changes nothing. -/
@[simp] theorem strip_strip (t : Text) : strip (strip t) = strip t := by
  have h : stripStart (stripEnd (stripStart t)) = stripEnd (stripStart t) := by
    refine stripStart_eq_self fun c hc => head?_stripStart (t := t) ?_
    obtain ⟨s, hs⟩ := stripEnd_prefix (stripStart t)
    rw [← hs, List.head?_append, hc]
    rfl
  rw [strip, strip, h, stripEnd_stripEnd]

end Text
end HaxeBindings
