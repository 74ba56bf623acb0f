import HaxeBindings.Proofs.Schema.Arguments
import Mathlib.Data.List.Basic
import Mathlib.Data.List.Infix

/-!
# The bracket that matches

The arguments of a type string stand between its first opening bracket and the bracket that
matches it.  `Schema.split` does not look for the match: it takes the last character, if that is a
closing bracket.

* `IsGroup` --- the depth comes back to zero at the last character of a text and not before;
* `matchedSplit` --- a type string taken apart at the bracket that matches the first one, and left
  whole when that is not its last character;
* `IsGroup.exists_inner` --- a group is a pair of brackets around a text whose own brackets match;
* `split_eq_matchedSplit_iff` --- `split` finds the match exactly when the string has no opening
  bracket, does not end with a closing one, or has its match there;
* `split_two_groups` --- so two groups one after the other are taken for one.

## The argument

In front of the last character of a group something is open: the depth starts at one, a character
changes it by at most one, and it does not pass zero.  So the last character closes, and `split`
and `matchedSplit` cut at the same two brackets.  Where the match is not at the end one of them
leaves the string whole, and the other one does not.
-/

namespace HaxeBindings
namespace Schema

open Text

/-! ## Groups -/

/-- Counted from the first character of the text, the depth comes back to zero at the last character
and not before. -/
structure IsGroup (t : Text) : Prop where
  returns : depth t = 0
  first : ∀ p, p <+: t → p ≠ [] → depth p = 0 → p = t

instance (t : Text) : Decidable (IsGroup t) :=
  decidable_of_iff (depth t = 0 ∧ ∀ p ∈ t.inits, p ≠ [] → depth p = 0 → p = t)
    ⟨fun h => ⟨h.1, fun p hp => h.2 p ((List.mem_inits p t).mpr hp)⟩,
      fun h => ⟨h.returns, fun p hp => h.first p ((List.mem_inits p t).mp hp)⟩⟩

theorem depthBehind_zero_bounds (c : Char) : -1 ≤ depthBehind 0 c ∧ depthBehind 0 c ≤ 1 := by
  unfold depthBehind
  split
  · omega
  · split <;> omega

theorem depth_concat (t : Text) (c : Char) : depth (t ++ [c]) = depth t + depthBehind 0 c := by
  rw [depth_append, depth_cons, depth_nil]
  omega

/-- In front of its last character something is open in a group. -/
theorem IsGroup.depth_pos {t : Text} (h : IsGroup ('<' :: t)) {p : Text} (hp : p <+: '<' :: t)
    (hne : p ≠ []) (hpart : p ≠ '<' :: t) : 0 < depth p := by
  induction p using List.reverseRecOn with
  | nil => exact absurd rfl hne
  | append_singleton q c ih =>
    rcases List.eq_nil_or_concat q with rfl | hq
    · obtain rfl : c = '<' := by simpa using hp
      decide
    · have hlt : q.length < ('<' :: t).length := by
        have := hp.length_le
        rw [List.length_append, List.length_singleton] at this
        omega
      have hbefore : 0 < depth q := by
        refine ih ((List.prefix_append q [c]).trans hp) ?_ ?_
        · rintro rfl
          obtain ⟨_, _, hq⟩ := hq
          simp at hq
        · rintro rfl
          exact Nat.lt_irrefl _ hlt
      have hnonzero : depth (q ++ [c]) ≠ 0 := fun hzero => hpart (h.first _ hp hne hzero)
      have hstep := depthBehind_zero_bounds c
      rw [depth_concat] at hnonzero ⊢
      omega

/-- **A group is a pair of brackets around a text whose brackets match.** -/
theorem IsGroup.exists_inner {t : Text} (h : IsGroup ('<' :: t)) :
    ∃ inner, t = inner ++ ['>'] ∧ Balanced inner := by
  have hne : t ≠ [] := by
    rintro rfl
    exact absurd h.returns (by decide)
  obtain ⟨inner, c, rfl⟩ := (List.eq_nil_or_concat' t).resolve_left hne
  have hpos {p : Text} (hp : p <+: inner) : 0 < depth ('<' :: p) := by
    refine h.depth_pos ?_ (List.cons_ne_nil _ _) ?_
    · exact List.cons_prefix_cons.mpr ⟨rfl, hp.trans (List.prefix_append inner [c])⟩
    · intro heq
      have hlength := hp.length_le
      have := congrArg List.length heq
      simp at this
      omega
  have hopen : depthBehind 0 '<' = 1 := rfl
  have hinner := hpos (List.prefix_refl inner)
  have hreturns := h.returns
  rw [depth_cons] at hinner
  rw [depth_cons, depth_concat] at hreturns
  have hbounds := depthBehind_zero_bounds c
  obtain rfl : c = '>' := by
    by_contra hc
    have hlevel : depthBehind 0 c = 0 ∨ depthBehind 0 c = 1 := by
      unfold depthBehind
      split
      · exact .inr rfl
      · exact .inl rfl
    omega
  have hclose : depthBehind 0 '>' = -1 := rfl
  refine ⟨inner, rfl, ⟨fun p hp => ?_, by omega⟩⟩
  have := hpos hp
  rw [depth_cons] at this
  omega

/-! ## Taking apart at the match -/

/-- The text from its first opening bracket on. -/
def bracketed (t : Text) : Text := t.dropWhile (· != '<')

/-- A type string taken apart at the bracket that matches its first opening one.  It is left whole
when it has none or when the match is not its last character. -/
def matchedSplit (text : Text) : Application :=
  let t := strip text
  if '<' ∈ t ∧ IsGroup (bracketed t) then
    ⟨strip (before '<' t), argumentsOf (bracketed t).tail.dropLast⟩
  else ⟨t, []⟩

theorem isBracketed_iff {t : Text} :
    isBracketed t = true ↔ '<' ∈ t ∧ t.getLast? = some '>' := by
  rw [isBracketed, Bool.and_eq_true, beq_iff_eq, List.contains_iff_mem]

/-- A text with a group in it ends where the group ends. -/
theorem getLast?_of_isGroup {t : Text} (hopen : '<' ∈ t) (h : IsGroup (bracketed t)) :
    t.getLast? = some '>' := by
  obtain ⟨front, rest, rfl, hfront⟩ := List.eq_append_cons_of_mem hopen
  have hbracketed : bracketed (front ++ '<' :: rest) = '<' :: rest := by
    rw [bracketed, List.dropWhile_append_of_pos, List.dropWhile_cons_of_neg (by simp)]
    intro c hc
    rw [bne_iff_ne]
    rintro rfl
    exact hfront hc
  rw [hbracketed] at h
  obtain ⟨inner, rfl, -⟩ := h.exists_inner
  rw [List.getLast?_append_of_ne_nil _ (List.cons_ne_nil _ _), ← List.cons_append,
    List.getLast?_concat]

/-- **A type string is taken apart at matching brackets exactly when a closing bracket at its end is
the match of its first opening one.**  The arguments are what the text between the brackets is cut
into at its commas at depth zero, stripped, without a blank one at the end. -/
theorem split_eq_matchedSplit_iff (text : Text) :
    (split text = matchedSplit text ↔
      ('<' ∈ strip text → (strip text).getLast? = some '>' →
        IsGroup (bracketed (strip text)))) ∧
    ∀ inner, ∃ pieces, IsCut 0 inner pieces ∧
      argumentsOf inner = dropEmptyLast (pieces.map strip) := by
  refine ⟨?_, fun inner => ⟨segments 0 inner, isCut_segments 0 inner, rfl⟩⟩
  rw [← and_imp, ← isBracketed_iff]
  simp only [matchedSplit]
  cases hbracketed : isBracketed (strip text) with
  | false =>
    have hwhole : ¬('<' ∈ strip text ∧ IsGroup (bracketed (strip text))) := by
      rintro ⟨hopen, hgroup⟩
      have := isBracketed_iff.mpr ⟨hopen, getLast?_of_isGroup hopen hgroup⟩
      exact Bool.false_ne_true (hbracketed.symm.trans this)
    rw [split_of_not_bracketed hbracketed, if_neg hwhole]
    exact iff_of_true rfl (fun h => absurd h Bool.false_ne_true)
  | true =>
    obtain ⟨hopen, -⟩ := isBracketed_iff.mp hbracketed
    rw [split_of_bracketed hbracketed, forall_prop_of_true rfl]
    by_cases hgroup : IsGroup (bracketed (strip text))
    · rw [if_pos ⟨hopen, hgroup⟩, afterFirst, List.drop_one]
      exact iff_of_true rfl hgroup
    · rw [if_neg fun h => hgroup h.2]
      refine iff_of_false (fun heq => ?_) hgroup
      -- the bracket is in the whole text and not in front of it
      have hbase : strip (before '<' (strip text)) = strip text := congrArg Application.base heq
      exact not_mem_before '<' _ (mem_of_mem_strip (hbase.symm ▸ hopen))

/-- Arguments with brackets and arrays in them are found at the match. -/
example : matchedSplit " A<B<C>,D<E<F>[]>> ".toList =
    ⟨"A".toList, ["B<C>".toList, "D<E<F>[]>".toList]⟩ := by
  decide +kernel

/-- **Two groups one after the other are taken for one, and so are brackets that are not all
closed.** -/
theorem split_two_groups :
    let twice := "Foo<Bar><Baz>".toList
    let unclosed := "Foo<Bar<Baz>".toList
    (matchedSplit twice = ⟨twice, []⟩ ∧ split twice = ⟨"Foo".toList, ["Bar><Baz".toList]⟩) ∧
      matchedSplit unclosed = ⟨unclosed, []⟩ ∧
      split unclosed = ⟨"Foo".toList, ["Bar<Baz".toList]⟩ := by
  decide +kernel

end Schema
end HaxeBindings
