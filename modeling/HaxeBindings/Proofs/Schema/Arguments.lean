import HaxeBindings.Proofs.Schema.Brackets
import HaxeBindings.Proofs.Text.Trimmed
import HaxeBindings.Schema.Name

/-!
# Taking an instantiation apart

A text that stands for one argument (`IsArgument`) survives being joined to others
by commas, put between brackets and taken out again: `split_applied` takes the
text of an instantiation apart into its base and the text between the brackets,
and `argumentsOf_join` cuts the latter into the arguments it was joined from.
Where blanks are not stripped a text need only be closed (`IsClosed`), and then too
the items can be told from the joined text (`join_injective`).  Raw text that is put
into a list comes out stripped (`argumentsOf_join_eq_map`), if it is a piece of it
(`IsPiece`).
-/

namespace HaxeBindings
namespace Schema

open Text

/-- A text that stands for one argument: there is something in it, it has no blanks at its ends,
its brackets match, and its commas are between brackets. -/
structure IsArgument (t : Text) : Prop where
  ne_nil : t ≠ []
  trimmed : strip t = t
  balanced : Balanced t
  unsplit : Unsplit 0 t

/-- A text that is one item of a list: there is something in it, its brackets match, and its commas
are between brackets. -/
structure IsClosed (t : Text) : Prop where
  ne_nil : t ≠ []
  balanced : Balanced t
  unsplit : Unsplit 0 t

/-- A text that is one item of a list as soon as blanks are stripped: it is not blank, it closes as
many brackets as it opens, and its commas are not at depth zero.  The brackets need not match. -/
structure IsPiece (t : Text) : Prop where
  not_blank : strip t ≠ []
  closed : depth t = 0
  unsplit : Unsplit 0 t

theorem IsArgument.isPiece {t : Text} (h : IsArgument t) : IsPiece t where
  not_blank := h.trimmed.symm ▸ h.ne_nil
  closed := h.balanced.closed
  unsplit := h.unsplit

theorem IsArgument.isClosed {t : Text} (h : IsArgument t) : IsClosed t :=
  ⟨h.ne_nil, h.balanced, h.unsplit⟩

/-- Whatever the brackets hold, as long as its own brackets match. -/
theorem isClosed_applied {base inner : Text} (hbase : Balanced base) (hcomma : ',' ∉ base)
    (h : Balanced inner) : IsClosed (base ++ '<' :: inner ++ ['>']) where
  ne_nil := List.concat_ne_nil _ _
  balanced := by
    rw [List.append_assoc]
    exact hbase.append h.bracketed
  unsplit := by
    rw [List.append_assoc]
    refine (unsplit_of_no_comma hcomma).append ?_
    rw [hbase.closed]
    exact unsplit_bracketed h

/-- **Lists that are joined to the same text are the same.** -/
theorem join_injective {ss ts : List Text} (hs : ∀ s ∈ ss, IsClosed s) (ht : ∀ t ∈ ts, IsClosed t)
    (h : join [','] ss = join [','] ts) : ss = ts := by
  have hcut {us : List Text} (hne : us ≠ []) (hus : ∀ u ∈ us, IsClosed u) :
      segments 0 (join [','] us) = us :=
    segments_join hne (fun u hu => (hus u hu).unsplit) fun u hu => (hus u hu).balanced.closed
  -- the empty list is joined to the empty text, and no other list is
  have hnil {us : List Text} (hus : ∀ u ∈ us, IsClosed u) (hjoin : join [','] us = []) :
      us = [] := by
    by_contra hne
    have hsingle : us = [[]] := by rw [← hcut hne hus, hjoin, segments_nil]
    exact (hus [] (hsingle ▸ List.mem_cons_self)).ne_nil rfl
  by_cases hss : ss = []
  · subst hss
    exact (hnil ht h.symm).symm
  · by_cases hts : ts = []
    · subst hts
      exact hnil hs h
    · rw [← hcut hss hs, h, hcut hts ht]

theorem dropEmptyLast_eq_self {ts : List Text} (h : [] ∉ ts) : dropEmptyLast ts = ts := by
  rw [dropEmptyLast, if_neg]
  exact fun hlast => h (List.mem_of_getLast? hlast)

/-- Texts that were joined by commas are cut apart and stripped. -/
theorem argumentsOf_join_eq_map {ts : List Text} (hts : ts ≠ []) (h : ∀ t ∈ ts, IsPiece t) :
    argumentsOf (join [','] ts) = ts.map strip := by
  rw [argumentsOf, segments_join hts (fun t ht => (h t ht).unsplit) fun t ht => (h t ht).closed]
  refine dropEmptyLast_eq_self fun hnil => ?_
  obtain ⟨t, ht, hstrip⟩ := List.mem_map.mp hnil
  exact (h t ht).not_blank hstrip

/-- **Arguments that were joined by commas are cut apart again.** -/
theorem argumentsOf_join {ts : List Text} (hts : ts ≠ []) (h : ∀ t ∈ ts, IsArgument t) :
    argumentsOf (join [','] ts) = ts := by
  have hstrip : ts.map strip = ts := by
    conv_rhs => rw [← List.map_id ts]
    exact List.map_congr_left fun t ht => (h t ht).trimmed
  rw [argumentsOf_join_eq_map hts fun t ht => (h t ht).isPiece, hstrip]

/-- What is not cut is one argument, or none when it is blank. -/
theorem headD_argumentsOf {t : Text} (h : Unsplit 0 t) (default : Text) :
    (argumentsOf t).headD default = if strip t = [] then default else strip t := by
  rw [argumentsOf, segments_eq_singleton h, List.map_singleton, dropEmptyLast,
    List.getLast?_singleton]
  by_cases hblank : strip t = []
  · rw [if_pos (congrArg some hblank), if_pos hblank]
    rfl
  · rw [if_neg fun heq => hblank (Option.some_inj.mp heq), if_neg hblank]
    rfl

theorem before_append_cons {c : Char} {s : Text} (h : c ∉ s) (t : Text) :
    before c (s ++ c :: t) = s := by
  rw [before, List.takeWhile_append_of_pos, List.takeWhile_cons_of_neg (by simp),
    List.append_nil]
  intro d hd
  simp only [bne_iff_ne]
  rintro rfl
  exact h hd

theorem before_eq_iff {c : Char} {front t : Text} (h : c ∉ front) :
    before c t = front ↔ t = front ∨ ∃ rest, t = front ++ c :: rest := by
  constructor
  · rintro rfl
    by_cases hc : c ∈ t
    · obtain ⟨front, rest, rfl, hfront⟩ := List.eq_append_cons_of_mem hc
      exact .inr ⟨rest, by rw [before_append_cons hfront]⟩
    · exact .inl (before_eq_self hc).symm
  · rintro (rfl | ⟨rest, rfl⟩)
    · exact before_eq_self h
    · exact before_append_cons h rest

theorem afterFirst_append_cons {c : Char} {s : Text} (h : c ∉ s) (t : Text) :
    afterFirst c (s ++ c :: t) = t := by
  rw [afterFirst, List.dropWhile_append_of_pos, List.dropWhile_cons_of_neg (by simp)]
  · rfl
  · intro d hd
    simp only [bne_iff_ne]
    rintro rfl
    exact h hd

/-- Bases are stripped. -/
theorem strip_base_split (text : Text) : strip (split text).base = (split text).base := by
  unfold split
  simp only
  split
  · exact strip_strip _
  · exact strip_strip _

/-- Text without an opening bracket is all base. -/
theorem split_plain {t : Text} (htrim : strip t = t) (h : '<' ∉ t) : split t = ⟨t, []⟩ := by
  rw [split_of_not_bracketed, htrim]
  simp [isBracketed, htrim, h]

/-- The text of an instantiation has no blanks at its ends when its base has none. -/
theorem strip_applied {base : Text} (hne : base ≠ []) (htrim : strip base = base) (inner : Text) :
    strip (base ++ '<' :: inner ++ ['>']) = base ++ '<' :: inner ++ ['>'] := by
  have hbracket : strip ('<' :: inner ++ ['>']) = '<' :: inner ++ ['>'] := by
    refine strip_eq_self_iff.mpr ⟨fun c hc => ?_, fun c hc => ?_⟩
    · obtain rfl : '<' = c := by simpa using hc
      rfl
    · rw [List.getLast?_concat] at hc
      obtain rfl := Option.some_inj.mp hc
      rfl
  rw [List.append_assoc]
  exact strip_append htrim hbracket hne (List.cons_ne_nil _ _)

/-- **An instantiation is taken apart into its base and what stands between its brackets.** -/
theorem split_applied {base : Text} (hne : base ≠ []) (htrim : strip base = base)
    (h : '<' ∉ base) (inner : Text) :
    split (base ++ '<' :: inner ++ ['>']) = ⟨base, argumentsOf inner⟩ := by
  have hstrip := strip_applied hne htrim inner
  have hbracketed : isBracketed (strip (base ++ '<' :: inner ++ ['>'])) = true := by
    rw [hstrip, isBracketed, List.getLast?_concat]
    simp
  rw [split_of_bracketed hbracketed, hstrip, List.append_assoc, List.cons_append,
    before_append_cons h, afterFirst_append_cons h, htrim, List.dropLast_concat]

end Schema
end HaxeBindings
