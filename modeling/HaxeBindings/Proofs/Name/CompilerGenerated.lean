import HaxeBindings.Catalog.Describe
import HaxeBindings.Proofs.Schema.Arguments
import HaxeBindings.Proofs.Text.Characters

/-!
# Compiler generated names

Whether a name was made up by the host's compiler is asked twice: of the host's name, in which
nested types stand behind a plus sign, and of the canonical name, in which they stand behind a dot
and a parameter list may follow.

* `isCompilerGenerated_eq_false_iff` --- a name that is not made up does not start with a bracket,
  holds none of the marks, and has none of the fragments in its simple name;
* `isCompilerGenerated_dotted` --- writing dots for plus signs does not make a name look made up;
* `isCompilerGenerated_applied` --- neither does a parameter list, if it holds identifier characters
  and commas only and does not follow a separator.

## The argument

A mark in the dotted name comes from a mark in the name itself, since the two marks with a separator
in them differ in nothing else.  The simple name of the dotted name is shorter, so a fragment in it
was there before.  A mark that reaches from a name into its parameter list is one of the same two,
and then the name ends in the separator.
-/

namespace HaxeBindings

open Text Schema

/-! ## Parts of a text -/

namespace Text

theorem hasPart_iff {part t : Text} : hasPart part t = true ↔ part <:+: t := by
  induction t with
  | nil => rw [hasPart, List.isEmpty_iff, List.infix_nil]
  | cons c rest ih => rw [hasPart, Bool.or_eq_true, List.isPrefixOf_iff_prefix, ih, List.infix_cons_iff]

/-- What stands in front of a character does not change when the text goes on behind it. -/
theorem before_append_cons_self (c : Char) (s t : Text) : before c (s ++ c :: t) = before c s := by
  by_cases h : c ∈ s
  · obtain ⟨front, rest, rfl, hfront⟩ := List.eq_append_cons_of_mem h
    rw [List.append_assoc, List.cons_append, before_append_cons hfront, before_append_cons hfront]
  · rw [before_append_cons h, before_eq_self h]

end Text

/-! ## Dots for plus signs -/

namespace Schema

theorem dotted_eq_self {t : Text} (h : '+' ∉ t) : dotted t = t := by
  refine (List.map_congr_left fun c hc => ?_).trans (List.map_id t)
  refine if_neg ?_
  rintro rfl
  exact h hc

/-- A character of a dotted name is the dot for a plus sign, or it stood there before. -/
theorem dot_or_same {c d : Char} (h : (if c = '+' then '.' else c) = d) :
    c = '+' ∧ d = '.' ∨ c = d ∧ d ≠ '+' := by
  split at h
  · next hplus => exact .inl ⟨hplus, h.symm⟩
  · next hplus => exact .inr ⟨h, h ▸ hplus⟩

theorem head?_dotted {t : Text} {d : Char} (h : (dotted t).head? = some d) :
    ∃ c, t.head? = some c ∧ (c = '+' ∧ d = '.' ∨ c = d ∧ d ≠ '+') := by
  rw [dotted, replaceChar, List.head?_map] at h
  obtain ⟨c, hc, hwritten⟩ := Option.map_eq_some_iff.mp h
  exact ⟨c, hc, dot_or_same hwritten⟩

theorem getLast?_dotted {t : Text} {d : Char} (h : (dotted t).getLast? = some d) :
    ∃ c, t.getLast? = some c ∧ (c = '+' ∧ d = '.' ∨ c = d ∧ d ≠ '+') := by
  rw [dotted, replaceChar, List.getLast?_map] at h
  obtain ⟨c, hc, hwritten⟩ := Option.map_eq_some_iff.mp h
  exact ⟨c, hc, dot_or_same hwritten⟩

theorem before_dotted (t : Text) : before '<' (dotted t) = dotted (before '<' t) := by
  have htest : ((· != '<') ∘ fun c => if c = '+' then '.' else c) = (· != '<') := by
    funext c
    by_cases hc : c = '+'
    · subst hc
      rfl
    · rw [Function.comp_apply, if_neg hc]
  rw [before, dotted, replaceChar, List.takeWhile_map, htest]
  rfl

/-- The simple name of a dotted name is what is left of the simple name behind its plus signs. -/
theorem simpleName_dotted_suffix (t : Text) : simpleName (dotted t) <:+ simpleName t := by
  -- a character of the name that is not a dot when it is written dotted
  let keeps : Char → Bool := (· != '.') ∘ fun c => if c = '+' then '.' else c
  have hkeeps {c : Char} (hc : keeps c = true) : c ≠ '+' ∧ (c != '.') = true := by
    change ((if c = '+' then '.' else c) != '.') = true at hc
    split at hc
    · exact absurd hc (by decide)
    · next hplus => exact ⟨hplus, hc⟩
  have hcut : simpleName (dotted t) = (t.reverse.takeWhile keeps).reverse := by
    rw [simpleName, afterLast, dotted, replaceChar, ← List.map_reverse, List.takeWhile_map]
    refine congrArg List.reverse ((List.map_congr_left fun c hc => ?_).trans (List.map_id _))
    exact if_neg (hkeeps (List.mem_takeWhile_imp hc)).1
  have hkept (l : Text) : l.takeWhile keeps <+: l.takeWhile (· != '.') := by
    induction l with
    | nil => exact List.prefix_refl []
    | cons c rest ih =>
      by_cases hc : keeps c = true
      · rw [List.takeWhile_cons_of_pos hc,
          List.takeWhile_cons_of_pos (p := (· != '.')) (hkeeps hc).2]
        exact List.cons_prefix_cons.mpr ⟨rfl, ih⟩
      · rw [List.takeWhile_cons_of_neg hc]
        exact List.nil_prefix
  rw [hcut, simpleName, afterLast]
  exact List.reverse_suffix.mpr (hkept _)

theorem strip_dotted {t : Text} (h : strip t = t) : strip (dotted t) = dotted t := by
  obtain ⟨hstart, hend⟩ := strip_eq_self_iff.mp h
  refine strip_eq_self_iff.mpr ⟨fun d hd => ?_, fun d hd => ?_⟩
  · obtain ⟨c, hc, ⟨-, rfl⟩ | ⟨rfl, -⟩⟩ := head?_dotted hd
    · decide
    · exact hstart c hc
  · obtain ⟨c, hc, ⟨-, rfl⟩ | ⟨rfl, -⟩⟩ := getLast?_dotted hd
    · decide
    · exact hend c hc

end Schema

namespace Name

/-! ## Marks and fragments -/

/-- **What is not compiler generated.** -/
theorem isCompilerGenerated_eq_false_iff {name : Text} :
    isCompilerGenerated name = false ↔ name.head? ≠ some '<' ∧
      (∀ mark ∈ generatedMarks, ¬mark <:+: name) ∧
      ∀ fragment ∈ generatedFragments, ¬fragment <:+: simpleName (before '<' name) := by
  have hhead : ['<'].isPrefixOf name = false ↔ name.head? ≠ some '<' := by
    rw [← Bool.not_eq_true, List.isPrefixOf_iff_prefix]
    refine not_congr ?_
    cases name with
    | nil => exact iff_of_false (by simp) nofun
    | cons c rest =>
      rw [List.cons_prefix_cons, and_iff_left List.nil_prefix, List.head?_cons, Option.some_inj]
      exact eq_comm
  rw [isCompilerGenerated, Bool.or_eq_false_iff, Bool.or_eq_false_iff, hhead, List.any_eq_false,
    List.any_eq_false, and_assoc]
  simp only [hasPart_iff]

/-- A mark is written in the same way with dots for plus signs, or it is the mark with the other
separator. -/
theorem mem_generatedMarks_of_dotted {part : Text} (h : dotted part ∈ generatedMarks) :
    part ∈ generatedMarks := by
  by_cases hplus : '+' ∈ part
  · have hdot : '.' ∈ dotted part := List.mem_map.mpr ⟨'+', hplus, rfl⟩
    have honly : ∀ mark ∈ generatedMarks, '.' ∈ mark → mark = ".<".toList := by decide
    have hmark : part.map (fun c => if c = '+' then '.' else c) = ['.', '<'] := honly _ h hdot
    obtain ⟨a, rest, rfl, ha, hrest⟩ := List.map_eq_cons_iff.mp hmark
    obtain ⟨b, rest, rfl, hb, hnil⟩ := List.map_eq_cons_iff.mp hrest
    obtain rfl := List.map_eq_nil_iff.mp hnil
    obtain ⟨-, hb⟩ | ⟨rfl, -⟩ := dot_or_same hb
    · exact absurd hb (by decide)
    · obtain ⟨rfl, -⟩ | ⟨rfl, -⟩ := dot_or_same ha
      · decide
      · decide
  · rwa [dotted_eq_self hplus] at h

/-- **Dots for plus signs** do not make a name look made up. -/
theorem isCompilerGenerated_dotted {name : Text} (h : isCompilerGenerated name = false) :
    isCompilerGenerated (dotted name) = false := by
  obtain ⟨hhead, hmarks, hfragments⟩ := isCompilerGenerated_eq_false_iff.mp h
  refine isCompilerGenerated_eq_false_iff.mpr ⟨fun hopen => ?_, fun mark hmark hpart => ?_,
    fun fragment hfragment hpart => ?_⟩
  · obtain ⟨c, hc, ⟨-, hdot⟩ | ⟨rfl, -⟩⟩ := head?_dotted hopen
    · exact absurd hdot (by decide)
    · exact hhead hc
  · obtain ⟨part, hinfix, rfl⟩ := List.infix_map_iff.mp hpart
    exact hmarks part (mem_generatedMarks_of_dotted hmark) hinfix
  · rw [before_dotted] at hpart
    exact hfragments fragment hfragment (hpart.trans (simpleName_dotted_suffix _).isInfix)

/-- A mark that reaches from a name into its parameter list is a separator with the bracket. -/
theorem getLast?_of_mark {base rest front back : Text} (hmark : front ++ back ∈ generatedMarks)
    (hfront : front <:+ base) (hback : back <+: '<' :: rest) (hne : back ≠ []) :
    base.getLast? = some '.' ∨ base.getLast? = some '+' := by
  have hopen : ∀ mark ∈ generatedMarks, '<' ∈ mark → mark = ['.', '<'] ∨ mark = ['+', '<'] := by
    decide
  obtain ⟨c, back, rfl⟩ := List.exists_cons_of_ne_nil hne
  obtain ⟨rfl, -⟩ := List.cons_prefix_cons.mp hback
  have hends {sep : Char} (hsep : sep ≠ '<') (h : front ++ '<' :: back = [sep, '<']) :
      base.getLast? = some sep := by
    obtain ⟨rfl, h⟩ | ⟨front, rfl, h⟩ := List.append_eq_cons_iff.mp h
    · exact absurd (List.cons.inj h).1.symm hsep
    · have hlength : front.length + (back.length + 1) = 1 := by
        simpa using congrArg List.length h
      obtain rfl : front = [] := List.eq_nil_of_length_eq_zero (by omega)
      obtain ⟨start, rfl⟩ := hfront
      exact List.getLast?_concat
  exact (hopen _ hmark (by simp)).imp (hends (by decide)) (hends (by decide))

/-- **A parameter list** does not make a name look made up. -/
theorem isCompilerGenerated_applied {base inner : Text} (h : isCompilerGenerated base = false)
    (hne : base ≠ []) (hdot : base.getLast? ≠ some '.') (hplus : base.getLast? ≠ some '+')
    (hinner : ∀ c ∈ inner, isIdentifierChar c = true ∨ c = ',') :
    isCompilerGenerated (base ++ '<' :: inner ++ ['>']) = false := by
  obtain ⟨hhead, hmarks, hfragments⟩ := isCompilerGenerated_eq_false_iff.mp h
  rw [List.append_assoc, List.cons_append]
  have hlist : ∀ c ∈ '<' :: (inner ++ ['>']), isIdentifierChar c = true ∨ c ∈ [',', '<', '>'] := by
    intro c hc
    obtain rfl | hc := List.mem_cons.mp hc
    · exact .inr (by decide)
    obtain hc | hc := List.mem_append.mp hc
    · refine (hinner c hc).imp_right ?_
      rintro rfl
      decide
    · obtain rfl := List.mem_singleton.mp hc
      exact .inr (by decide)
  have hmarked : ∀ mark ∈ generatedMarks,
      mark.all (fun c => isIdentifierChar c || [',', '<', '>'].contains c) = false := by decide
  refine isCompilerGenerated_eq_false_iff.mpr ⟨?_, fun mark hmark hpart => ?_, ?_⟩
  · rw [List.head?_append_of_ne_nil _ hne]
    exact hhead
  · obtain hpart | hpart | ⟨front, back, rfl, hfront, hback⟩ := List.infix_append_iff.mp hpart
    · exact hmarks mark hmark hpart
    · have hall : mark.all (fun c => isIdentifierChar c || [',', '<', '>'].contains c) = true := by
        refine List.all_eq_true.mpr fun c hc => ?_
        rw [Bool.or_eq_true, List.contains_iff_mem]
        exact hlist c (hpart.subset hc)
      exact Bool.false_ne_true ((hmarked mark hmark).symm.trans hall)
    · by_cases hback' : back = []
      · rw [hback', List.append_nil] at hmark
        exact hmarks front hmark hfront.isInfix
      · exact (getLast?_of_mark hmark hfront hback hback').elim hdot hplus
  · rw [before_append_cons_self]
    exact hfragments

end Name
end HaxeBindings
