import HaxeBindings.Proofs.Text.Characters
import HaxeBindings.Writer
import Mathlib.Data.List.Chain

/-!
# Lines and comments

A text that is written line by line is cut at its line breaks into the lines it was written from, as
long as none of these has a line break of its own (`IsLine`).

* `pieces_lines` --- cutting gives back the lines, and an empty piece behind the last line break;
* `isLine_docComment` --- a doc comment is a line, whatever is in it;
* `eq_nil_of_docComment` --- a doc comment ends at its end and nowhere else, whatever is in it.

That a comment ends is read off neighbours: a star stands in front of a slash.  Where no two
neighbours are of this kind (`HasNoCommentEnd`) nothing ends.
-/

namespace HaxeBindings
namespace Text

/-- There is no line break in the text. -/
def IsLine (t : Text) : Prop := '\n' ∉ t

instance (t : Text) : Decidable (IsLine t) := inferInstanceAs (Decidable ('\n' ∉ t))

variable {s t : Text} {ts : List Text}

@[simp] theorem isLine_nil : IsLine [] := List.not_mem_nil

@[simp] theorem isLine_cons {c : Char} : IsLine (c :: t) ↔ c ≠ '\n' ∧ IsLine t := by
  rw [IsLine, IsLine, List.mem_cons, not_or, eq_comm]

@[simp] theorem isLine_append : IsLine (s ++ t) ↔ IsLine s ∧ IsLine t := by
  rw [IsLine, IsLine, IsLine, List.mem_append, not_or]

theorem isLine_iff_forall : IsLine t ↔ ∀ c ∈ t, c ≠ '\n' :=
  ⟨fun h _ hc heq => h (heq ▸ hc), fun h hc => h _ hc rfl⟩

theorem IsLine.of_subset (h : IsLine t) (hst : s ⊆ t) : IsLine s := fun hc => h (hst hc)

theorem isLine_join {separator : Text} (hseparator : IsLine separator) (h : ∀ t ∈ ts, IsLine t) :
    IsLine (join separator ts) := by
  intro hc
  rcases mem_join hc with hc | ⟨t, ht, hc⟩
  · exact hseparator hc
  · exact h t ht hc

/-- **Lines are read back**, from texts that end with a line break. -/
theorem pieces_lines (h : ∀ t ∈ ts, IsLine t) :
    pieces '\n' (ts.flatMap (· ++ ['\n'])) = ts ++ [[]] := by
  induction ts with
  | nil => rfl
  | cons t ts ih =>
    obtain ⟨ht, hts⟩ := List.forall_mem_cons.mp h
    rw [List.flatMap_cons, List.append_assoc, List.singleton_append, pieces_append_cons ht, ih hts,
      List.cons_append]

/-! ## Names -/

theorem isLine_escapeLiteral (h : IsLine t) : IsLine (escapeLiteral t) := by
  induction t with
  | nil => exact isLine_nil
  | cons c rest ih =>
    obtain ⟨hc, hrest⟩ := isLine_cons.mp h
    unfold escapeLiteral
    split
    · exact isLine_cons.mpr ⟨by decide, isLine_cons.mpr ⟨hc, ih hrest⟩⟩
    · exact isLine_cons.mpr ⟨hc, ih hrest⟩

theorem isLine_of_identifier (h : ∀ c ∈ t, Name.isIdentifierChar c = true) : IsLine t :=
  fun hc => absurd (h _ hc) (by decide)

/-! ## Comments -/

/-- No star stands in front of a slash. -/
def HasNoCommentEnd (t : Text) : Prop := t.IsChain fun c d => ¬(c = '*' ∧ d = '/')

theorem head?_breakCommentEnds (t : Text) : (breakCommentEnds t).head? = t.head? := by
  unfold breakCommentEnds
  split
  · rfl
  · rfl
  · rfl

/-- **Comment ends that were pulled apart are gone**, and no new ones came about. -/
theorem hasNoCommentEnd_breakCommentEnds (t : Text) : HasNoCommentEnd (breakCommentEnds t) := by
  induction t using breakCommentEnds.induct with
  | case1 rest ih =>
    rw [breakCommentEnds]
    refine List.isChain_cons_cons.mpr ⟨by decide, List.isChain_cons_cons.mpr ⟨by decide, ?_⟩⟩
    exact List.isChain_cons.mpr ⟨fun d _ hends => absurd hends.1 (by decide), ih⟩
  | case2 c rest hnot ih =>
    rw [breakCommentEnds]
    · refine List.isChain_cons.mpr ⟨fun d hd => ?_, ih⟩
      rintro ⟨rfl, rfl⟩
      rw [head?_breakCommentEnds] at hd
      obtain ⟨others, hrest⟩ := List.head?_eq_some_iff.mp hd
      exact hnot others rfl hrest
    · exact hnot
  | case3 => exact List.isChain_nil

theorem mem_breakCommentEnds {c : Char} (h : c ∈ breakCommentEnds t) : c ∈ t ∨ c = ' ' := by
  induction t using breakCommentEnds.induct with
  | case1 rest ih =>
    rw [breakCommentEnds] at h
    simp only [List.mem_cons] at h ⊢
    rcases h with h | h | h | h
    · exact .inl (.inl h)
    · exact .inr h
    · exact .inl (.inr (.inl h))
    · exact (ih h).imp_left fun h => .inr (.inr h)
  | case2 d rest hnot ih =>
    rw [breakCommentEnds] at h
    · rcases List.mem_cons.mp h with h | h
      · exact .inl (List.mem_cons.mpr (.inl h))
      · exact (ih h).imp_left fun h => List.mem_cons_of_mem d h
    · exact hnot
  | case3 => exact absurd h List.not_mem_nil

theorem isLine_replaceChar {new : Char} (hnew : new ≠ '\n') (t : Text) :
    IsLine (replaceChar '\n' new t) := by
  intro hc
  obtain ⟨c, -, hc⟩ := List.mem_map.mp hc
  split at hc
  · exact hnew hc
  · next hne => exact hne hc

/-- **A doc comment stands on one line.** -/
theorem isLine_docComment (t : Text) : IsLine (docComment t) := by
  rw [docComment, isLine_append, isLine_append]
  refine ⟨⟨by decide, fun hc => ?_⟩, by decide⟩
  rcases mem_breakCommentEnds hc with hc | hc
  · exact isLine_replaceChar (by decide) _ hc
  · exact absurd hc (by decide)

/-- **A doc comment on an indented line ends where the line ends**, and not before. -/
theorem eq_nil_of_docComment {front behind : Text}
    (h : "  ".toList ++ docComment t = front ++ "*/".toList ++ behind) : behind = [] := by
  rcases List.eq_nil_or_concat behind with hnil | ⟨init, last, hbehind⟩
  · exact hnil
  · -- a comment end in front of the last character
    exfalso
    let inner := breakCommentEnds (replaceChar '\n' ' ' (replaceChar '\r' ' ' t))
    have hinner : HasNoCommentEnd inner := hasNoCommentEnd_breakCommentEnds _
    have hline :
        "  ".toList ++ docComment t = "  /** ".toList ++ inner ++ " *".toList ++ ['/'] := by
      have hopen : "  /** ".toList = "  ".toList ++ "/** ".toList := rfl
      have hclose : " */".toList = " *".toList ++ ['/'] := rfl
      rw [docComment, hopen, hclose]
      simp only [List.append_assoc]
      rfl
    have hchain : HasNoCommentEnd ("  /** ".toList ++ inner ++ " *".toList) := by
      refine List.isChain_append.mpr
        ⟨List.isChain_append.mpr ⟨by decide, hinner, ?_⟩, by decide, ?_⟩
      · intro c hc d _ hends
        obtain rfl := Option.some_inj.mp hc
        exact absurd hends.1 (by decide)
      · intro c _ d hd hends
        obtain rfl := Option.some_inj.mp hd
        exact absurd hends.2 (by decide)
    rw [hline, hbehind, List.concat_eq_append, ← List.append_assoc] at h
    have hinfix : "*/".toList <:+: "  /** ".toList ++ inner ++ " *".toList :=
      ⟨front, init, (List.append_inj_left' h rfl).symm⟩
    have hclosed : "*/".toList.IsChain fun c d => ¬(c = '*' ∧ d = '/') := hchain.infix hinfix
    exact absurd hclosed (by decide)

end Text
end HaxeBindings
