import HaxeBindings.Proofs.ArityIndex.Choice
import HaxeBindings.Proofs.Mapping.Shape
import HaxeBindings.Proofs.TypeExpr.Upgraded

/-!
# Names that are mapped to themselves

A host refers to a generic parameter by its identifier alone, and a schema string does
not say that the identifier is one.  On the way to the target it is upgraded, read and
mapped like any other name.  This file says when it comes out as it went in.

* `exists_parameter_of_mapExpr` --- a word without dots and brackets that is not in the
  vocabulary is what a generic parameter is mapped to, and nothing else;
* `base_of_parse_eq_parameter` --- a text is read as a generic parameter only when its
  base has the form of one, and the base of an upgraded name carries an arity mark
  (`parse_schema_marked_ne`);
* `map_upgradeText_eq_iff` --- so an identifier survives exactly when it follows the
  convention for generic parameters and the index knows no type of that name.
-/

namespace HaxeBindings

open Text Schema

namespace Schema

/-! ## Identifiers of the host -/

/-- A letter, and behind it letters and digits. -/
def isLetterWord : Text → Bool
  | [] => false
  | c :: rest => c.isAlpha && rest.all Char.isAlphanum

section

variable {name : Text}

theorem isAlphanum_of_mem_of_isLetterWord (h : isLetterWord name = true) {c : Char}
    (hc : c ∈ name) : c.isAlphanum = true := by
  cases name with
  | nil => exact absurd h Bool.false_ne_true
  | cons d rest =>
    obtain ⟨hd, hrest⟩ := Bool.and_eq_true_iff.mp h
    rcases List.mem_cons.mp hc with rfl | hc
    · exact Bool.or_eq_true_iff.mpr (.inl hd)
    · exact List.all_eq_true.mp hrest c hc

theorem not_mem_of_isLetterWord (h : isLetterWord name = true) {c : Char}
    (hc : c.isAlphanum = false) : c ∉ name := fun hmem =>
  Bool.false_ne_true (hc.symm.trans (isAlphanum_of_mem_of_isLetterWord h hmem))

theorem isBlank_of_isAlphanum {c : Char} (h : c.isAlphanum = true) : isBlank c = false :=
  isBlank_of_isIdentifierChar (isIdentifierChar_of_isAlphanum h)

theorem isName_of_isLetterWord (h : isLetterWord name = true) : IsName name where
  ne_nil := by
    rintro rfl
    exact Bool.false_ne_true h
  trimmed := strip_eq_self_of_not_blank fun _ hc =>
    isBlank_of_isAlphanum (isAlphanum_of_mem_of_isLetterWord h hc)
  no_open := not_mem_of_isLetterWord h (by decide)
  no_close := not_mem_of_isLetterWord h (by decide)
  no_comma := not_mem_of_isLetterWord h (by decide)
  not_array := by
    by_contra harray
    have hlast := TypeExpr.getLast?_of_isArrayText (Bool.not_eq_false _ ▸ harray)
    exact not_mem_of_isLetterWord h (by decide) (List.mem_of_getLast? hlast)

theorem simpleName_of_isLetterWord (h : isLetterWord name = true) : simpleName name = name :=
  simpleName_eq_self (not_mem_of_isLetterWord h (by decide))

theorem namesParameter_iff_of_isLetterWord (h : isLetterWord name = true) :
    NamesParameter name ↔ isParameterName name = true := by
  rw [NamesParameter, simpleName_of_isLetterWord h, or_self]

end

end Schema

namespace TypeExpr

variable {vocabulary : List Text}

/-- **The name of a generic parameter is a base that has the form of one.** -/
theorem base_of_parse_eq_parameter {text name : Text}
    (h : parse vocabulary text = .parameter name) :
    (split text).base = name ∧ NamesParameter name := by
  have hsplit : split (strip text) = split text := by simp only [split, strip_strip]
  have hshape := ofShape_eq_parameter_iff.mp h.symm
  unfold shape at hshape
  simp only at hshape
  split at hshape
  · cases hshape
  · split at hshape
    · cases hshape
    · split at hshape
      · cases hshape
      · rw [hsplit] at hshape
        unfold shapeOfApplication at hshape
        split at hshape
        · next hparameter =>
          obtain rfl := Shape.parameter.inj hshape
          exact ⟨rfl, Bool.or_eq_true_iff.mp hparameter⟩
        · split at hshape
          · cases hshape
          · cases hshape

/-- The upgraded form of an identifier is not read as a generic parameter. -/
theorem parse_schema_marked_ne {name : Text} (h : isLetterWord name = true) (arity : Int)
    (arguments : List TypeExpr) (parameter : Text) :
    parse vocabulary (named (markArity name arity) arguments).schema ≠ .parameter parameter := by
  have hname := isName_of_isLetterWord h
  have htrim := strip_markArity hname.trimmed arity
  have hopen : '<' ∉ markArity name arity :=
    not_mem_markArity hname.no_open (by decide) (by decide) (by decide) arity
  have hne := markArity_ne_nil name arity
  have hbase : (split (named (markArity name arity) arguments).schema).base =
      markArity name arity := by
    by_cases harguments : arguments = []
    · rw [harguments, schema, split_plain htrim hopen]
    · rw [schema_named harguments, split_applied hne htrim hopen]
  intro hparse
  obtain ⟨heq, hparameter⟩ := base_of_parse_eq_parameter hparse
  rw [hbase] at heq
  exact not_namesParameter_markArity name arity (heq ▸ hparameter)

/-! ## Upgrades -/

/-- An identifier that is not the placeholder is upgraded exactly when the index knows it. -/
theorem upgradeText_of_isLetterWord (index : ArityIndex) (generics : List Text)
    {placeholder name : Text} (h : isLetterWord name = true) (hne : name ≠ placeholder) :
    (index.arities name = [] ∧ upgradeText index generics placeholder name = name) ∨
      index.arities name ≠ [] ∧ ∃ arity, upgradeText index generics placeholder name =
        (named (markArity name arity) (slots generics placeholder arity)).schema := by
  have hname := isName_of_isLetterWord h
  have hkeyword : name ∉ [placeholder] := by rwa [List.mem_singleton]
  have hunmarked : hasArityMark name = false := by
    rw [hasArityMark, ← Bool.not_eq_true, List.contains_iff_mem]
    exact not_mem_of_isLetterWord h (by decide)
  have hbare : IsBare 0 name (parse [placeholder] name) := by
    by_cases hparameter : NamesParameter name
    · rw [parse_parameter hname.trimmed hname.no_open hkeyword hparameter]
      exact .parameter
    · rw [parse, parseWithin_succ, shape_bare hname hparameter hkeyword, ofShape, List.map_nil]
      exact .named hunmarked
  have htext : upgradeText index generics placeholder name =
      ((instantiate? index generics placeholder name).map schema).getD name := by
    have hupgrade := hbare.upgrade? index generics placeholder
    cases hinstance : instantiate? index generics placeholder name with
    | none =>
      rw [hinstance] at hupgrade
      rw [upgradeText_of_none hupgrade, hname.trimmed]
      rfl
    | some e =>
      rw [hinstance] at hupgrade
      exact upgradeText_of_some (hname.trimmed.symm ▸ hname.ne_nil) hupgrade
  rw [htext, instantiate?]
  cases harity : index.chooseArity? name generics.length with
  | none => exact .inl ⟨ArityIndex.chooseArity?_eq_none_iff.mp harity, rfl⟩
  | some arity =>
    refine .inr ⟨fun hunknown => ?_, arity, rfl⟩
    rw [ArityIndex.chooseArity?_eq_none_iff.mpr hunknown] at harity
    cases harity

end TypeExpr

namespace Mapping

variable {m : Mapping}

/-! ## What is mapped to a plain word -/

/-- **Only a generic parameter is mapped to a plain word of no vocabulary.** -/
theorem exists_parameter_of_mapExpr {e : TypeExpr} (he : e.IsWellNamed m.options.vocabulary)
    {word : Text} (hword : word ∉ m.options.vocabulary) (hdot : '.' ∉ word) (hopen : '<' ∉ word)
    (h : m.mapExpr e = .ok word) :
    ∃ name, e = .parameter name ∧ TypeExpr.parameterIdentifier name = word := by
  rcases mapExpr_eq_ok h with
    hmem | rfl | ⟨name, rfl, rfl⟩ | ⟨package, identifier, rfl⟩ | ⟨base, ts, rfl⟩
  · exact absurd hmem hword
  · exact absurd he hword
  · exact ⟨name, rfl, rfl⟩
  · exact absurd (by simp) hdot
  · exact absurd (by simp [applied]) hopen

/-- **An identifier survives when it is a parameter by its form and unknown to the index.**  It is
upgraded inside a method with any generic parameters, read and mapped, and then it is what it was
exactly in that case. -/
theorem map_upgradeText_eq_iff {name : Text} (h : isLetterWord name = true)
    (hkeyword : name ∉ m.options.vocabulary) (generics : List Text) :
    m.map (TypeExpr.upgradeText m.index generics m.options.dynamicType name) = .ok name ↔
      isParameterName name = true ∧ m.index.arities name = [] := by
  have hname := isName_of_isLetterWord h
  have hplaceholder : name ≠ m.options.dynamicType := by
    rintro rfl
    exact hkeyword List.mem_cons_self
  -- whatever is mapped to the name is read as a generic parameter
  have hread {text : Text} (hmap : m.map text = .ok name) :
      ∃ parameter, m.parse text = .parameter parameter := by
    obtain ⟨parameter, hparse, -⟩ := exists_parameter_of_mapExpr (TypeExpr.isWellNamed_ofShape _ _)
      hkeyword (not_mem_of_isLetterWord h (by decide)) hname.no_open hmap
    exact ⟨parameter, hparse⟩
  rcases TypeExpr.upgradeText_of_isLetterWord m.index generics h hplaceholder with
    ⟨hunknown, htext⟩ | ⟨hknown, arity, htext⟩
  · rw [htext, and_iff_left hunknown]
    constructor
    · intro hmap
      obtain ⟨parameter, hparse⟩ := hread hmap
      obtain ⟨hbase, hparameter⟩ := TypeExpr.base_of_parse_eq_parameter hparse
      rw [split_plain hname.trimmed hname.no_open] at hbase
      rw [← hbase] at hparameter
      exact (namesParameter_iff_of_isLetterWord h).mp hparameter
    · intro hparameter
      rw [map, parse,
        TypeExpr.parse_parameter hname.trimmed hname.no_open hkeyword (.inl hparameter), mapExpr,
        TypeExpr.parameterIdentifier, if_pos hparameter]
  · rw [htext]
    refine iff_of_false (fun hmap => ?_) fun hmap => hknown hmap.2
    obtain ⟨parameter, hparse⟩ := hread hmap
    exact TypeExpr.parse_schema_marked_ne h arity _ parameter hparse

end Mapping
end HaxeBindings
