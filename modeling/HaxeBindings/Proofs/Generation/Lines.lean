import HaxeBindings.ExternFile
import Mathlib.Data.List.Basic

/-!
# The lines of an extern file

A file is written by handing a writer from one step to the next.  This file says what
is on the page at the end.

* `Writer.all_eq`, `Writer.foldl_group_eq` --- what a step adds to the lines, with the
  margin of the level it is taken at;
* `ExternFile.lines_write` --- the lines of a file: four of a head, those of the groups
  one level further in, and the closing brace; `ExternFile.text_write` is its text;
* `Writer.infix_text` --- a line that is not the first stands in the text between two
  line breaks, so a declaration has a line of its own (`ExternFile.infix_text_write`).
-/

namespace HaxeBindings

open Text Schema

namespace Writer

/-- A line as it is written: with the margin in front of it, unless it is empty. -/
def written (w : Writer) (t : Text) : Text := if t.isEmpty then [] else w.margin ++ t

theorem line_eq (w : Writer) (t : Text) :
    w.line t = { w with lines := w.lines ++ [w.written t] } := rfl

theorem all_eq (w : Writer) (ts : List Text) :
    w.all ts = { w with lines := w.lines ++ ts.map w.written } := by
  induction ts generalizing w with
  | nil => rw [List.map_nil, List.append_nil]; rfl
  | cons t ts ih =>
    have hall : w.all (t :: ts) = (w.line t).all ts := rfl
    rw [hall, ih, line_eq, List.map_cons, List.append_assoc]
    rfl

/-- The doc comment of a group, if there is one. -/
def docLines (g : MemberGroup) : List Text :=
  if isBlankText (g.summary.getD []) then [] else [docComment (strip (g.summary.getD []))]

theorem group_eq (w : Writer) (g : MemberGroup) :
    w.group g = { w with lines := w.lines ++ (docLines g ++ g.lines).map w.written } := by
  have hdoc : w.doc (g.summary.getD []) = w.all (docLines g) := by
    unfold doc docLines
    split
    · rfl
    · rfl
  rw [group, hdoc, all_eq, all_eq, List.map_append, List.append_assoc]
  rfl

/-- Groups are written one below the other. -/
theorem foldl_group_eq (w : Writer) (groups : List MemberGroup) :
    groups.foldl group w = { w with
      lines := w.lines ++ groups.flatMap fun g => (docLines g ++ g.lines).map w.written } := by
  induction groups generalizing w with
  | nil => rw [List.flatMap_nil, List.append_nil]; rfl
  | cons g groups ih =>
    rw [List.foldl_cons, ih, group_eq, List.flatMap_cons, List.append_assoc]
    rfl

/-! ## Text -/

theorem join_concat {ts : List Text} (h : ts ≠ []) :
    join ['\n'] ts ++ ['\n'] = ts.flatMap (· ++ ['\n']) := by
  induction ts with
  | nil => exact absurd rfl h
  | cons t ts ih =>
    cases ts with
    | nil => rw [join, List.intercalate_singleton, List.flatMap_singleton]
    | cons u ts =>
      rw [join, List.intercalate_cons_cons, List.append_assoc, ← join, ih (List.cons_ne_nil u ts)]
      rfl

/-- A line that is not the first stands between two line breaks. -/
theorem infix_text {w : Writer} {front behind : List Text} {t : Text} (hfront : front ≠ [])
    (h : w.lines = front ++ t :: behind) : '\n' :: t ++ ['\n'] <:+: w.text := by
  obtain ⟨others, last, rfl⟩ := (List.eq_nil_or_concat' front).resolve_left hfront
  rw [text, h, join_concat (by simp), List.flatMap_append]
  exact ⟨others.flatMap (· ++ ['\n']) ++ last, behind.flatMap (· ++ ['\n']), by simp⟩

end Writer

namespace ExternFile

/-- The lines of a group as they stand in a file. -/
def groupLines (unit : Text) (g : MemberGroup) : List Text :=
  (Writer.docLines g ++ g.lines).map fun t => if t.isEmpty then [] else unit ++ t

/-- The lines in front of the members. -/
def headLines (className : Text) (d : Descriptor) (package : Text) : List Text :=
  ["package ".toList ++ package ++ [';'], [], nativeLine d, classLine className d]

/-- **The lines of a file.** -/
theorem lines_write (unit className : Text) (d : Descriptor) (package : Text)
    (groups : List MemberGroup) :
    (write unit className d package groups).lines =
      headLines className d package ++ groups.flatMap (groupLines unit) ++ ["\x7d".toList] := by
  have hhead : ((({ unit : Writer }.line ("package ".toList ++ package ++ [';'])).line []).line
      (nativeLine d)).line (classLine className d) =
        { unit, lines := headLines className d package } := rfl
  have hwritten : Writer.written { unit, level := 1, lines := headLines className d package } =
      fun t => if t.isEmpty then [] else unit ++ t := by
    funext t
    rw [Writer.written, Writer.margin, List.replicate_one, List.flatten_singleton]
  unfold write
  simp only
  rw [hhead, Writer.lines_line, Writer.block, Writer.foldl_group_eq, Writer.indent, hwritten]
  rfl

/-- The text of a file is its lines, with a line break behind each. -/
theorem text_write (unit className : Text) (d : Descriptor) (package : Text)
    (groups : List MemberGroup) :
    (write unit className d package groups).text =
      (headLines className d package ++ groups.flatMap (groupLines unit) ++
        ["\x7d".toList]).flatMap (· ++ ['\n']) := by
  have hlines := lines_write unit className d package groups
  have hne : (write unit className d package groups).lines ≠ [] := by
    rw [hlines]
    exact List.append_ne_nil_of_right_ne_nil _ (List.cons_ne_nil _ _)
  rw [Writer.text, Writer.join_concat hne, hlines]

/-- **A declaration of a group stands on a line of its own.** -/
theorem infix_text_write {unit className package : Text} {d : Descriptor}
    {groups : List MemberGroup} {g : MemberGroup} (hg : g ∈ groups) {t : Text} (ht : t ∈ g.lines)
    (hne : t ≠ []) :
    '\n' :: (unit ++ t) ++ ['\n'] <:+: (write unit className d package groups).text := by
  have hmem : unit ++ t ∈ groups.flatMap (groupLines unit) := by
    refine List.mem_flatMap.mpr ⟨g, hg, List.mem_map.mpr ⟨t, List.mem_append_right _ ht, ?_⟩⟩
    rw [if_neg fun hempty => hne (List.isEmpty_iff.mp hempty)]
  obtain ⟨front, behind, hsplit⟩ := List.append_of_mem hmem
  have hlines : (write unit className d package groups).lines =
      (headLines className d package ++ front) ++ (unit ++ t) :: (behind ++ ["\x7d".toList]) := by
    rw [lines_write, hsplit]
    simp only [List.append_assoc, List.cons_append]
  exact Writer.infix_text (by simp [headLines]) hlines

end ExternFile
end HaxeBindings
