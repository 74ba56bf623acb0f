import HaxeBindings.Proofs.Schema.Brackets
import HaxeBindings.Proofs.Text.Characters
import HaxeBindings.Proofs.Text.Trimmed

/-!
# The commas that separate arguments

`argumentsOf` reads a text once, with the depth in hand.  This file says by position what it finds,
for any text, whether its brackets match or not.

* `separators` --- the positions of the commas in front of which as many brackets are opened as
  closed;
* `piecesBetween` --- a text cut at given positions;
* `IsCut.eq_piecesBetween` --- the pieces of a text between its commas at depth zero are the pieces
  between its separators, and with commas between them they make it up again (`join_segments`);
* `argumentsOf_exact` --- the arguments are these pieces, stripped, without the last one when it is
  blank.

The depth at which a text starts is kept open (`separatorsFrom`), since behind a separator the rest
of the text is read as if it stood alone.
-/

namespace HaxeBindings
namespace Schema

open Text

/-! ## Positions -/

/-- Whether a comma at depth zero stands at a position, when the text starts at depth `d`. -/
def isSeparator (d : Int) (t : Text) (i : Nat) : Bool :=
  t[i]? == some ',' && d + depth (t.take i) == 0

/-- The positions of the commas at depth zero, in ascending order. -/
def separatorsFrom (d : Int) (t : Text) : List Nat := (List.range t.length).filter (isSeparator d t)

/-- The positions of the commas that separate arguments, in ascending order. -/
def separators (t : Text) : List Nat := separatorsFrom 0 t

/-- The text from `start` on, cut at the given positions. -/
def piecesBetween (t : Text) (start : Nat) : List Nat → List Text
  | [] => [t.drop start]
  | cut :: cuts => (t.take cut).drop start :: piecesBetween t (cut + 1) cuts

theorem isSeparator_iff {d : Int} {t : Text} {i : Nat} :
    isSeparator d t i = true ↔ t[i]? = some ',' ∧ d + depth (t.take i) = 0 := by
  rw [isSeparator, Bool.and_eq_true, beq_iff_eq, beq_iff_eq]

theorem mem_separatorsFrom {d : Int} {t : Text} {i : Nat} :
    i ∈ separatorsFrom d t ↔ t[i]? = some ',' ∧ d + depth (t.take i) = 0 := by
  rw [separatorsFrom, List.mem_filter, List.mem_range, isSeparator_iff, and_iff_right_iff_imp]
  rintro ⟨hcomma, -⟩
  exact (List.getElem?_eq_some_iff.mp hcomma).1

theorem mem_separators {t : Text} {i : Nat} :
    i ∈ separators t ↔ t[i]? = some ',' ∧ (t.take i).count '<' = (t.take i).count '>' := by
  rw [separators, mem_separatorsFrom, depth]
  refine and_congr_right fun _ => ?_
  omega

theorem pairwise_separators (t : Text) : (separators t).Pairwise (· < ·) :=
  List.pairwise_lt_range.filter _

/-- A text without a comma at depth zero has no separator. -/
theorem separatorsFrom_of_unsplit {d : Int} {t : Text} (h : Unsplit d t) :
    separatorsFrom d t = [] := by
  refine List.eq_nil_iff_forall_not_mem.mpr fun i hi => ?_
  obtain ⟨hcomma, hdepth⟩ := mem_separatorsFrom.mp hi
  obtain ⟨hlt, hget⟩ := List.getElem?_eq_some_iff.mp hcomma
  refine h (t.take i) ?_ hdepth
  rw [← hget, List.take_append_getElem hlt]
  exact List.take_prefix _ _

/-- Behind a comma at depth zero the separators are those of the rest, moved up. -/
theorem separatorsFrom_append_comma {d : Int} {s : Text} (hs : Unsplit d s)
    (hdepth : d + depth s = 0) (t : Text) :
    separatorsFrom d (s ++ ',' :: t) =
      s.length :: (separators t).map fun i => (s.length + 1) + i := by
  have hlength : (s ++ ',' :: t).length = s.length + 1 + t.length := by
    rw [List.length_append, List.length_cons]
    omega
  have hfront : (List.range s.length).filter (isSeparator d (s ++ ',' :: t)) = [] := by
    rw [← separatorsFrom_of_unsplit hs, separatorsFrom]
    refine List.filter_congr fun i hi => ?_
    rw [List.mem_range] at hi
    rw [isSeparator, isSeparator, List.getElem?_append_left hi,
      List.take_append_of_le_length (Nat.le_of_lt hi)]
  have hhere : isSeparator d (s ++ ',' :: t) s.length = true := by
    rw [isSeparator_iff, List.getElem?_append_right (Nat.le_refl _), Nat.sub_self, List.take_left]
    exact ⟨rfl, hdepth⟩
  -- the depth counted from behind the comma is the depth counted from the start
  have hbehind (i : Nat) :
      isSeparator d (s ++ ',' :: t) (s.length + 1 + i) = isSeparator 0 t i := by
    have hindex : s.length + 1 + i = s.length + (i + 1) := by omega
    have hcomma : depthBehind 0 ',' = 0 := rfl
    have hlevel : d + (depth s + (0 + depth (t.take i))) = 0 + depth (t.take i) := by omega
    rw [isSeparator, isSeparator, hindex, List.getElem?_append_right (Nat.le_add_right _ _),
      Nat.add_sub_cancel_left, List.getElem?_cons_succ, List.take_length_add_append,
      List.take_succ_cons, depth_append, depth_cons, hcomma, hlevel]
  rw [separatorsFrom, hlength, List.range_add, List.filter_append, List.range_succ,
    List.filter_append, hfront, List.filter_cons_of_pos hhere, List.filter_nil, List.filter_map,
    List.nil_append, List.singleton_append]
  refine congrArg (fun cuts : List Nat => s.length :: cuts.map (s.length + 1 + ·)) ?_
  exact List.filter_congr fun i _ => hbehind i

/-! ## Pieces -/

theorem length_piecesBetween (t : Text) (start : Nat) (cuts : List Nat) :
    (piecesBetween t start cuts).length = cuts.length + 1 := by
  induction cuts generalizing start with
  | nil => rfl
  | cons cut cuts ih => rw [piecesBetween, List.length_cons, ih, List.length_cons]

/-- What stands in front of all positions plays no part. -/
theorem piecesBetween_append (s t : Text) (start : Nat) (cuts : List Nat) :
    piecesBetween (s ++ t) (s.length + start) (cuts.map fun i => s.length + i) =
      piecesBetween t start cuts := by
  induction cuts generalizing start with
  | nil => rw [List.map_nil, piecesBetween, piecesBetween, List.drop_length_add_append]
  | cons cut cuts ih =>
    rw [List.map_cons, piecesBetween, piecesBetween, List.take_length_add_append,
      List.drop_length_add_append, Nat.add_assoc, ih]

/-- **What a text is cut into at its commas at depth zero are the pieces between its separators.** -/
theorem IsCut.eq_piecesBetween {d : Int} {t : Text} {ts : List Text} (h : IsCut d t ts) :
    ts = piecesBetween t 0 (separatorsFrom d t) := by
  induction h with
  | last hunsplit =>
    rw [separatorsFrom_of_unsplit hunsplit, piecesBetween, List.drop_zero]
  | @comma d s t ts hunsplit hdepth hothers ih =>
    have hsplit : s ++ ',' :: t = (s ++ [',']) ++ t := by simp
    have hlength : s.length + 1 = (s ++ [',']).length := by simp
    have hshift := piecesBetween_append (s ++ [',']) t 0 (separators t)
    rw [separatorsFrom_append_comma hunsplit hdepth, piecesBetween, List.take_left, List.drop_zero,
      hsplit, hlength]
    rw [Nat.add_zero] at hshift
    rw [hshift, separators, ← ih]

theorem join_segments (d : Int) (t : Text) : join [','] (segments d t) = t := by
  generalize hts : segments d t = ts
  have hcut : IsCut d t ts := hts ▸ isCut_segments d t
  clear hts
  induction hcut with
  | last _ => rw [join, List.intercalate_singleton]
  | @comma d s t ts _ _ hothers ih =>
    rw [join_cons]
    cases ts with
    | nil => cases hothers
    | cons first others => rw [List.flatMap_cons, List.cons_append, ← join_cons, ih]

theorem segments_eq_piecesBetween (t : Text) :
    segments 0 t = piecesBetween t 0 (separators t) := (isCut_segments 0 t).eq_piecesBetween

/-- A list without its last element when that one is empty, by its last element. -/
theorem dropEmptyLast_concat (ts : List Text) (t : Text) :
    dropEmptyLast (ts ++ [t]) = ts ++ if t.isEmpty then [] else [t] := by
  rw [dropEmptyLast, List.getLast?_concat, List.dropLast_concat]
  cases t with
  | nil => rw [if_pos rfl, List.isEmpty_nil, if_pos rfl, List.append_nil]
  | cons c rest => rw [if_neg (by simp), List.isEmpty_cons, if_neg Bool.false_ne_true]

/-- **Arguments are cut apart at exactly the commas outside all brackets.**  These are the commas in
front of which the text opens as many brackets as it closes.  With such a comma between neighbours
the pieces make up the text; each is stripped of the blanks at its ends and stays in its place, and
the last one is left out exactly when it is blank. -/
theorem argumentsOf_exact (inner : Text) :
    let cuts := separators inner
    let pieces := piecesBetween inner 0 cuts
    (∀ i, i ∈ cuts ↔
      inner[i]? = some ',' ∧ (inner.take i).count '<' = (inner.take i).count '>') ∧
    cuts.Pairwise (· < ·) ∧
    pieces.length = cuts.length + 1 ∧
    join [','] pieces = inner ∧
    (∀ piece ∈ pieces, ∃ front behind, piece = front ++ strip piece ++ behind ∧
      (∀ c ∈ front ++ behind, isBlank c = true) ∧ strip (strip piece) = strip piece) ∧
    ∃ front last, pieces = front ++ [last] ∧
      argumentsOf inner = front.map strip ++ if isBlankText last then [] else [strip last] := by
  intro cuts pieces
  have hpieces : segments 0 inner = pieces := segments_eq_piecesBetween inner
  have hne : pieces ≠ [] := hpieces ▸ segments_ne_nil 0 inner
  obtain ⟨front, last, hlast⟩ := (List.eq_nil_or_concat' pieces).resolve_left hne
  refine ⟨fun i => mem_separators, pairwise_separators inner, length_piecesBetween inner 0 cuts,
    ?_, fun piece _ => ?_, front, last, hlast, ?_⟩
  · rw [← hpieces, join_segments]
  · obtain ⟨before, behind, hstrip, hblank⟩ := exists_blanks_around piece
    exact ⟨before, behind, hstrip, hblank, strip_strip piece⟩
  · rw [argumentsOf, hpieces, hlast, List.map_append, List.map_singleton, dropEmptyLast_concat]
    rfl

/-- A closing bracket that nothing opens hides the comma behind it, and the next opening bracket
brings one back; the blank piece in the middle keeps its place. -/
example : separators "A>,B<, ,C<D,E>, ".toList = [5, 7, 14] ∧
    argumentsOf "A>,B<, ,C<D,E>, ".toList = ["A>,B<".toList, [], "C<D,E>".toList] := by
  decide +kernel

end Schema
end HaxeBindings
