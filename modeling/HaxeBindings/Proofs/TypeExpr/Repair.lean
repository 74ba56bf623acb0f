import HaxeBindings.Proofs.ArityIndex.Choice
import HaxeBindings.Proofs.TypeExpr.Upgraded

/-!
# An upgrade changes bare names, and once

A schema string is upgraded by reading it, filling in the arguments of a bare name that
the index knows, and printing the tree.  Nothing in the printed string says that it was
upgraded.  When it is upgraded again it is read anew, and that must find nothing to do,
although the names that were filled in may be junk and the arrays may be deeper than the
reader goes.

* `upgradeText_eq_strip` --- any other text is only stripped;
* `upgradeText_marked` --- an instantiation inside arrays is not changed.  Too deep for
  the reader its name is not seen, and what is seen in its place is the root object type;
* `upgradeText_exact` --- all of this for one text, with the second upgrade;
* `upgradeText_deep` --- a text too deep for the reader that has a known bare name and is
  returned as it is.
-/

namespace HaxeBindings
namespace TypeExpr

open Text Schema

variable {index : ArityIndex} {generics : List Text} {placeholder text name : Text} {arity : Nat}

/-- Without a bare name that is given an arity, a text is only stripped. -/
theorem upgradeText_eq_strip (h : ∀ levels name, IsBare levels name (parse [placeholder] text) →
    index.chooseArity? name generics.length = none) :
    upgradeText index generics placeholder text = strip text := by
  refine upgradeText_of_none (Option.eq_none_iff_forall_ne_some.mpr fun e he => ?_)
  obtain ⟨levels, name, arity, hbare, harity, -⟩ := exists_isBare_of_upgrade? he
  rw [h levels name hbare] at harity
  exact nomatch harity

/-! ## Upgraded texts -/

section

variable (hplaceholder : arityMark ∉ placeholder) (htrim : strip name = name) (hopen : '<' ∉ name)

include hplaceholder htrim hopen

/-- An instantiation inside no more arrays than the reader goes deep is complete. -/
theorem upgrade?_parse_marked {levels : Nat} (hlevels : levels ≤ maxDepth) (arity : Int)
    (inner : Text) :
    upgrade? index generics placeholder
      (parse [placeholder] (markedText name arity inner ++ arrayMarks levels)) = none := by
  have hwords : ∀ word ∈ [placeholder], arityMark ∉ word :=
    List.forall_mem_singleton.mpr hplaceholder
  obtain ⟨left, hleft⟩ := Nat.exists_eq_add_of_le hlevels
  have hdepth : maxDepth + 1 = levels + (left + 1) := by omega
  rw [parse, hdepth, parseWithin_append_arrayMarks hwords (strip_markedText htrim arity inner)
    (mark_mem_markedText name arity inner), upgrade?_arrays,
    upgrade?_markedText hwords htrim hopen, Option.map_none]

omit hopen in
/-- Of an instantiation that lies deeper than the reader goes nothing is seen but the root object
type. -/
theorem isBare_parse_marked (arity : Int) (inner : Text) :
    IsBare (maxDepth + 1) objectName
      (parse [placeholder] (markedText name arity inner ++ arrayMarks (maxDepth + 1))) := by
  have hwords : ∀ word ∈ [placeholder], arityMark ∉ word :=
    List.forall_mem_singleton.mpr hplaceholder
  rw [parse, ← Nat.add_zero (maxDepth + 1), parseWithin_append_arrayMarks hwords
    (strip_markedText htrim arity inner) (mark_mem_markedText name arity inner) (maxDepth + 1) 0]
  exact isBare_arrays isBare_object (maxDepth + 1)

/-- **An instantiation is not changed.**  Of one that lies deeper than the reader goes nothing is
seen but the root object type, which is the name itself then. -/
theorem upgradeText_marked {levels : Nat} (hlevels : levels ≤ maxDepth + 1)
    (hdeep : levels = maxDepth + 1 → name = objectName) (hpositive : 0 < arity)
    (harity : index.chooseArity? name generics.length = some (arity : Int)) :
    let u := markedText name arity (join [','] (slotTexts generics placeholder arity)) ++
      arrayMarks levels
    upgradeText index generics placeholder u = u := by
  intro u
  have hbody := strip_markedText htrim (arity : Int)
    (join [','] (slotTexts generics placeholder arity))
  have hmark := mark_mem_markedText name (arity : Int)
    (join [','] (slotTexts generics placeholder arity))
  have hstrip : strip u = u := strip_append_arrayMarks hbody (List.ne_nil_of_mem hmark) levels
  rcases Nat.lt_or_ge maxDepth levels with hlt | hle
  · obtain rfl : levels = maxDepth + 1 := by omega
    obtain rfl := hdeep rfl
    have hne : strip u ≠ [] :=
      hstrip.symm ▸ List.append_ne_nil_of_left_ne_nil (List.ne_nil_of_mem hmark) _
    exact upgradeText_of_isBare hne (isBare_parse_marked hplaceholder htrim _ _) hpositive harity
  · rw [upgradeText_of_none (upgrade?_parse_marked hplaceholder htrim hopen hle _ _), hstrip]

end

/-- **An upgrade changes bare names, and once.**  A text that is a known bare name inside a number
of arrays becomes its instantiation inside as many arrays, and another text, unless its tree is cut
off.  Any other text is only stripped.  In both cases a second upgrade finds nothing to do. -/
theorem upgradeText_exact {entries : List (Text × List Int)}
    (hpositive : ∀ e ∈ entries, ∀ a ∈ e.2, 0 < a)
    (hnames : ∀ e ∈ entries, '<' ∉ e.1 ∧ arityMark ∉ e.1) (hplaceholder : arityMark ∉ placeholder)
    (generics : List Text) (text : Text) (hne : strip text ≠ []) :
    let index := ArityIndex.ofEntries entries
    let t := strip text
    let u := upgradeText index generics placeholder text
    (∀ levels name, IsBare levels name (parse [placeholder] t) → index.knows name = true →
      arityMark ∉ name ∧ ∃ arity : Nat, index.IsChosen name generics.length arity ∧
        u = markArity name arity ++ '<' :: join [','] (generics.take arity ++
          List.replicate (arity - generics.length) placeholder) ++ ['>'] ++ arrayMarks levels ∧
        (levels ≤ maxDepth → u ≠ t)) ∧
      ((∀ levels name, IsBare levels name (parse [placeholder] t) → index.knows name = false) →
        u = t) ∧
      upgradeText index generics placeholder u = u := by
  intro index t u
  have hread : parse [placeholder] t = parse [placeholder] text := parse_strip [placeholder] text
  -- what a known bare name is upgraded to
  have hknown {levels : Nat} {name : Text} (hbare : IsBare levels name (parse [placeholder] text))
      (hknows : index.knows name = true) :
      ∃ arity : Nat, 0 < arity ∧ index.chooseArity? name generics.length = some (arity : Int) ∧
        index.IsChosen name generics.length arity ∧ '<' ∉ name ∧ arityMark ∉ name ∧
        u = markedText name arity (join [','] (slotTexts generics placeholder arity)) ++
          arrayMarks levels := by
    obtain ⟨arity, hpos, harity, hchosen⟩ :=
      ArityIndex.exists_chooseArity? hpositive hknows generics.length
    obtain ⟨e, he, rfl, -⟩ :=
      ArityIndex.mem_arities_ofEntries (ArityIndex.mem_of_chooseArity? harity)
    exact ⟨arity, hpos, harity, hchosen, (hnames e he).1, (hnames e he).2,
      upgradeText_of_isBare hne hbare hpos harity⟩
  have hunknown (h : ∀ levels name, IsBare levels name (parse [placeholder] text) →
      index.knows name = false) : u = t :=
    upgradeText_eq_strip fun levels name hbare =>
      ArityIndex.chooseArity?_ofEntries_eq_none_iff.mpr (h levels name hbare)
  rw [hread]
  refine ⟨fun levels name hbare hknows => ?_, hunknown, ?_⟩
  · obtain ⟨arity, -, harity, hchosen, hopen, hmark, hu⟩ := hknown hbare hknows
    refine ⟨hmark, arity, hchosen, hu, fun hlevels hsame => ?_⟩
    -- the text itself still has something to upgrade
    have hcomplete : upgrade? index generics placeholder (parse [placeholder] u) = none :=
      hu ▸ upgrade?_parse_marked hplaceholder hbare.of_parseWithin.1 hopen hlevels arity _
    rw [hsame, hread, hbare.upgrade?, instantiate?, harity] at hcomplete
    exact Option.some_ne_none _ hcomplete
  · by_cases hbare : ∃ levels name, IsBare levels name (parse [placeholder] text) ∧
        index.knows name = true
    · obtain ⟨levels, name, hbare, hknows⟩ := hbare
      obtain ⟨arity, hpos, harity, -, hopen, -, hu⟩ := hknown hbare hknows
      obtain ⟨hlevels, hdeep⟩ := hbare.le_of_parseWithin
      rw [hu]
      exact upgradeText_marked hplaceholder hbare.of_parseWithin.1 hopen hlevels hdeep hpos harity
    · have hsame : u = t := hunknown fun levels name h =>
        Bool.eq_false_iff.mpr fun hknows => hbare ⟨levels, name, h, hknows⟩
      rw [hsame, upgradeText_strip]
      exact hsame

/-- An array of a type with two arities, inside a method with two generic parameters of which one is
not the name of anything. -/
theorem upgradeText_exact_pool :
    let entries : List (Text × List Int) :=
      [("Sandbox.Cell".toList, [1]), ("Sandbox.Pool".toList, [3, 2])]
    let index := ArityIndex.ofEntries entries
    let t := "Sandbox.Pool[]".toList
    let u := "Sandbox.Pool".toList ++ [arityMark, '2'] ++ "<T,<,>[]".toList
    let upgraded := upgradeText index [['T'], "<,".toList] "Dynamic".toList
    (∀ e ∈ entries, ∀ a ∈ e.2, 0 < a) ∧ (∀ e ∈ entries, '<' ∉ e.1 ∧ arityMark ∉ e.1) ∧
      IsBare 1 "Sandbox.Pool".toList (parse ["Dynamic".toList] t) ∧
      index.IsChosen "Sandbox.Pool".toList 2 2 ∧ upgraded t = u ∧ u ≠ t ∧ upgraded u = u := by
  intro entries index t u upgraded
  have hpositive : ∀ e ∈ entries, ∀ a ∈ e.2, 0 < a := by decide
  have hnames : ∀ e ∈ entries, '<' ∉ e.1 ∧ arityMark ∉ e.1 := by decide
  have hcanonical : IsCanonical ["Dynamic".toList] (.array (.named "Sandbox.Pool".toList [])) :=
    .array (.bare (by decide) (by decide) (by decide))
  have hbare : IsBare 1 "Sandbox.Pool".toList (parse ["Dynamic".toList] t) := by
    have hread : parse ["Dynamic".toList] t = .array (.named "Sandbox.Pool".toList []) :=
      parseWithin_schema (by decide) hcanonical (by decide)
    rw [hread]
    exact .array (.named (by decide))
  have hknows : index.knows "Sandbox.Pool".toList = true := by decide +kernel
  have htrim : strip t = t := by decide
  have hu : upgradeText index [['T'], "<,".toList] "Dynamic".toList t = u := by decide +kernel
  obtain ⟨hknown, -, hagain⟩ := upgradeText_exact hpositive hnames
    (by decide : arityMark ∉ "Dynamic".toList) [['T'], "<,".toList] t (by decide)
  rw [htrim] at hknown
  obtain ⟨-, arity, hchosen, -, hne⟩ := hknown 1 _ hbare hknows
  rw [hu] at hagain hne
  have harity : (arity : Int) = 2 := by
    rw [ArityIndex.IsChosen, if_pos (by decide +kernel)] at hchosen
    exact hchosen
  exact ⟨hpositive, hnames, hbare, harity ▸ hchosen, hu, hne (by decide), hagain⟩

/-- **A known bare name that is not changed.**  The text lies deeper than the reader goes, so its name
is the root object type; this is known, and the text is what it would be upgraded to already. -/
theorem upgradeText_deep :
    let entries : List (Text × List Int) := [(objectName, [1])]
    let index := ArityIndex.ofEntries entries
    let t := markedText objectName 1 "Dynamic".toList ++ arrayMarks (maxDepth + 1)
    (∀ e ∈ entries, ∀ a ∈ e.2, 0 < a) ∧ (∀ e ∈ entries, '<' ∉ e.1 ∧ arityMark ∉ e.1) ∧
      arityMark ∉ "Dynamic".toList ∧ strip t = t ∧ t ≠ [] ∧
      IsBare (maxDepth + 1) objectName (parse ["Dynamic".toList] t) ∧
      index.knows objectName = true ∧ upgradeText index [] "Dynamic".toList t = t := by
  intro entries index t
  have hplaceholder : arityMark ∉ "Dynamic".toList := by decide
  have htrim : strip objectName = objectName := by decide
  have hstrip : strip t = t := by decide +kernel
  have hne : t ≠ [] := by decide
  have hbare : IsBare (maxDepth + 1) objectName (parse ["Dynamic".toList] t) :=
    isBare_parse_marked hplaceholder htrim 1 "Dynamic".toList
  have harity : index.chooseArity? objectName ([] : List Text).length = some ((1 : Nat) : Int) := by
    decide +kernel
  have hslots : slotTexts [] "Dynamic".toList 1 = ["Dynamic".toList] := by decide
  have hupgraded := upgradeText_of_isBare (hstrip.symm ▸ hne) hbare Nat.one_pos harity
  rw [hslots] at hupgraded
  exact ⟨by decide, by decide, hplaceholder, hstrip, hne, hbare, by decide +kernel, hupgraded⟩

end TypeExpr
end HaxeBindings
