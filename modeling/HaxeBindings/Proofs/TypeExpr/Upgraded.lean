import HaxeBindings.Proofs.TypeExpr.Nodes
import HaxeBindings.TypeExpr.Upgrade

/-!
# What an upgrade prints, and how it is read

An upgrade looks through the arrays of a tree at the one node inside them, and asks the
index about it when it is a name without arguments.  What it prints is

    name ` arity < slot , slot , ... > [] [] ...

and that text is read again by readers that know nothing of the upgrade.  This file says
what they find.

* `IsBare` --- a name without arguments inside a number of arrays, which is all that an
  upgrade asks the index about (`exists_isBare_of_upgrade?`);
* `schema_upgraded` --- the text that is printed;
* `shape_markedText`, `parseWithin_append_arrayMarks` --- relative to a vocabulary without
  marks, the printed text is read as that many arrays around the marked name with its
  slots, whatever the slots are;
* `upgradeText_of_isBare` --- a bare name that is given an arity is replaced by this text;
* `upgrade?_markedText` --- a marked name is complete, so nothing is upgraded twice.
-/

namespace HaxeBindings

open Text Schema

namespace Schema

/-! ## Marked names -/

theorem not_namesParameter_markArity (name : Text) (arity : Int) :
    ¬NamesParameter (markArity name arity) := by
  refine TypeExpr.not_namesParameter_marked (fun hdot => ?_) name
  rcases isDigit_of_mem_ofInt hdot with h | h
  · exact absurd h (by decide)
  · exact absurd h (by decide)

/-- What stands behind the mark. -/
theorem isDigit_of_mem_mark {c : Char} {arity : Int} (h : c ∈ arityMark :: ofInt arity) :
    c = arityMark ∨ c.isDigit = true ∨ c = '-' :=
  (List.mem_cons.mp h).imp_right isDigit_of_mem_ofInt

theorem not_mem_markArity {c : Char} {name : Text} (h : c ∉ name)
    (hmark : c ≠ arityMark) (hdigit : c.isDigit = false) (hminus : c ≠ '-') (arity : Int) :
    c ∉ markArity name arity := by
  rw [markArity, List.mem_append, not_or]
  refine ⟨h, fun hc => ?_⟩
  rcases isDigit_of_mem_mark hc with hc | hc | hc
  · exact hmark hc
  · exact Bool.false_ne_true (hdigit.symm.trans hc)
  · exact hminus hc

theorem mark_mem_markArity (name : Text) (arity : Int) : arityMark ∈ markArity name arity :=
  List.mem_append_right name List.mem_cons_self

theorem markArity_ne_nil (name : Text) (arity : Int) : markArity name arity ≠ [] :=
  List.ne_nil_of_mem (mark_mem_markArity name arity)

/-- A mark does not change what stands in front of the first one. -/
theorem before_markArity (name : Text) (arity : Int) :
    before arityMark (markArity name arity) = before arityMark name := by
  by_cases hmark : arityMark ∈ name
  · obtain ⟨front, rest, rfl, hfront⟩ := List.eq_append_cons_of_mem hmark
    rw [markArity, List.append_assoc, List.cons_append, before_append_cons hfront,
      before_append_cons hfront]
  · rw [markArity, before_append_cons hmark, before_eq_self hmark]

/-- A mark brings no blanks in. -/
theorem strip_markArity {name : Text} (h : strip name = name) (arity : Int) :
    strip (markArity name arity) = markArity name arity := by
  have hmark : strip (arityMark :: ofInt arity) = arityMark :: ofInt arity := by
    refine strip_eq_self_of_not_blank fun c hc => ?_
    rcases isDigit_of_mem_mark hc with rfl | hc | rfl
    · decide
    · exact isBlank_of_isIdentifierChar (isIdentifierChar_of_isDigit hc)
    · decide
  by_cases hne : name = []
  · rw [markArity, hne, List.nil_append, hmark]
  · exact strip_append h hmark hne (List.cons_ne_nil _ _)

end Schema

namespace TypeExpr

variable {vocabulary : List Text}

/-! ## Arrays -/

/-- A number of array marks behind each other. -/
def arrayMarks : Nat → Text
  | 0 => []
  | levels + 1 => arrayMarks levels ++ arraySuffix

/-- An expression inside a number of arrays. -/
def arrays : Nat → TypeExpr → TypeExpr
  | 0, e => e
  | levels + 1, e => .array (arrays levels e)

theorem schema_arrays (levels : Nat) (e : TypeExpr) :
    (arrays levels e).schema = e.schema ++ arrayMarks levels := by
  induction levels with
  | zero => exact (List.append_nil _).symm
  | succ levels ih => rw [arrays, schema, ih, arrayMarks, List.append_assoc]

theorem upgrade?_arrays (index : ArityIndex) (generics : List Text) (placeholder : Text)
    (levels : Nat) (e : TypeExpr) :
    upgrade? index generics placeholder (arrays levels e) =
      (upgrade? index generics placeholder e).map (arrays levels) := by
  induction levels with
  | zero => exact Option.map_id'.symm
  | succ levels ih => rw [arrays, upgrade?, ih, Option.map_map]; rfl

theorem mem_nodes_arrays (levels : Nat) (e : TypeExpr) : e ∈ (arrays levels e).nodes := by
  induction levels with
  | zero => exact self_mem_nodes e
  | succ levels ih => exact List.mem_cons_of_mem _ ih

/-! ## Bare names -/

/-- A name without arguments inside a number of arrays.  The name of a host type has no arity
marker. -/
inductive IsBare : Nat → Text → TypeExpr → Prop
  | named {name : Text} : hasArityMark name = false → IsBare 0 name (.named name [])
  | parameter {name : Text} : IsBare 0 name (.parameter name)
  | array {levels : Nat} {name : Text} {element : TypeExpr} : IsBare levels name element →
      IsBare (levels + 1) name (.array element)

/-- The name and the number of arrays are read off the tree. -/
theorem IsBare.unique {levels levels' : Nat} {name name' : Text} {e : TypeExpr}
    (h : IsBare levels name e) (h' : IsBare levels' name' e) : levels = levels' ∧ name = name' := by
  induction h generalizing levels' with
  | named _ =>
    cases h'
    exact ⟨rfl, rfl⟩
  | parameter =>
    cases h'
    exact ⟨rfl, rfl⟩
  | array _ ih =>
    cases h' with
    | array h' =>
      obtain ⟨rfl, rfl⟩ := ih h'
      exact ⟨rfl, rfl⟩

theorem isBare_arrays {name : Text} {e : TypeExpr} (h : IsBare 0 name e) (levels : Nat) :
    IsBare levels name (arrays levels e) := by
  induction levels with
  | zero => exact h
  | succ levels ih => exact ih.array

theorem isBare_object : IsBare 0 objectName object := .named (by decide)

/-- There is one node inside the arrays, and it has the bare name. -/
theorem IsBare.eq_arrays {levels : Nat} {name : Text} {e : TypeExpr} (h : IsBare levels name e) :
    e = arrays levels (.parameter name) ∨
      e = arrays levels (.named name []) ∧ hasArityMark name = false := by
  induction h with
  | named hmark => exact .inr ⟨rfl, hmark⟩
  | parameter => exact .inl rfl
  | array _ ih =>
    rcases ih with rfl | ⟨rfl, hmark⟩
    · exact .inl rfl
    · exact .inr ⟨rfl, hmark⟩

/-- A bare name is upgraded to its instantiation, inside the same arrays. -/
theorem IsBare.upgrade? {levels : Nat} {name : Text} {e : TypeExpr} (h : IsBare levels name e)
    (index : ArityIndex) (generics : List Text) (placeholder : Text) :
    upgrade? index generics placeholder e =
      (instantiate? index generics placeholder name).map (arrays levels) := by
  induction h with
  | named hmark =>
    rw [TypeExpr.upgrade?, hmark, if_neg Bool.false_ne_true]
    exact Option.map_id'.symm
  | parameter => exact Option.map_id'.symm
  | array _ ih => rw [TypeExpr.upgrade?, ih, Option.map_map]; rfl

/-- **Only bare names are upgraded.** -/
theorem exists_isBare_of_isSome_upgrade? {index : ArityIndex} {generics : List Text}
    {placeholder : Text} {e : TypeExpr} (h : (upgrade? index generics placeholder e).isSome) :
    ∃ levels name, IsBare levels name e := by
  induction e using TypeExpr.upgrade?.induct with
  | case1 element ih =>
    rw [TypeExpr.upgrade?, Option.isSome_map] at h
    obtain ⟨levels, name, hname⟩ := ih h
    exact ⟨levels + 1, name, hname.array⟩
  | case2 name hmark =>
    rw [TypeExpr.upgrade?, if_pos hmark] at h
    exact nomatch h
  | case3 name hmark => exact ⟨0, name, .named (Bool.eq_false_iff.mpr hmark)⟩
  | case4 name => exact ⟨0, name, .parameter⟩
  | case5 e harray hbase hparameter =>
    rw [TypeExpr.upgrade?] at h
    · exact nomatch h
    · exact harray
    · exact hbase
    · exact hparameter

/-- What an upgrade is, when there is one. -/
theorem exists_isBare_of_upgrade? {index : ArityIndex} {generics : List Text} {placeholder : Text}
    {e upgraded : TypeExpr} (h : upgrade? index generics placeholder e = some upgraded) :
    ∃ levels name arity, IsBare levels name e ∧
      index.chooseArity? name generics.length = some arity ∧
      upgraded =
        arrays levels (.named (markArity name arity) (slots generics placeholder arity)) := by
  obtain ⟨levels, name, hname⟩ := exists_isBare_of_isSome_upgrade? (Option.isSome_of_eq_some h)
  rw [hname.upgrade?, instantiate?, Option.map_map] at h
  obtain ⟨arity, harity, rfl⟩ := Option.map_eq_some_iff.mp h
  exact ⟨levels, name, arity, hname, harity, rfl⟩

/-- Where a bare name is read, the shape is that of a name or of an array. -/
theorem IsBare.of_ofShape {read : Text → TypeExpr} {s : Shape} {depth : Nat} {name : Text}
    (h : IsBare depth name (ofShape read s)) :
    depth = 0 ∧ (s = .object ∧ name = objectName ∨ s = .parameter name ∨ s = .named name []) ∨
      ∃ below element, depth = below + 1 ∧ s = .array element ∧
        IsBare below name (read element) := by
  cases s with
  | object =>
    cases h with
    | named _ => exact .inl ⟨rfl, .inl ⟨rfl, rfl⟩⟩
  | primitive keyword => exact nomatch h
  | array element =>
    cases h with
    | array h => exact .inr ⟨_, element, rfl, rfl, h⟩
  | parameter _ =>
    cases h with
    | parameter => exact .inl ⟨rfl, .inr (.inl rfl)⟩
  | nullable inner => exact nomatch h
  | named _ arguments =>
    cases arguments with
    | nil =>
      cases h with
      | named _ => exact .inl ⟨rfl, .inr (.inr rfl)⟩
    | cons first others => exact nomatch h

/-- The reader finds a bare name inside no more arrays than it goes deep, and at its last level it
finds the root object type. -/
theorem IsBare.le_of_parseWithin {levels depth : Nat} {name text : Text}
    (h : IsBare depth name (parseWithin vocabulary levels text)) :
    depth ≤ levels ∧ (depth = levels → name = objectName) := by
  induction levels generalizing depth text with
  | zero =>
    cases h with
    | named _ => exact ⟨Nat.le_refl 0, fun _ => rfl⟩
  | succ levels ih =>
    rcases h.of_ofShape with ⟨rfl, -⟩ | ⟨below, element, rfl, -, h⟩
    · exact ⟨Nat.zero_le _, fun hdepth => absurd hdepth.symm (Nat.succ_ne_zero levels)⟩
    · obtain ⟨hle, hobject⟩ := ih h
      exact ⟨Nat.succ_le_succ hle, fun hdepth => hobject (Nat.succ.inj hdepth)⟩

/-- A bare name that is read has no blanks at its ends.  It is that of a generic parameter by its
form, or the node is a host type without a mark. -/
theorem IsBare.of_parseWithin {levels depth : Nat} {name text : Text}
    (h : IsBare depth name (parseWithin vocabulary levels text)) :
    strip name = name ∧ (NamesParameter name ∨
      parseWithin vocabulary levels text = arrays depth (.named name []) ∧
        hasArityMark name = false) := by
  have hnamed := forall_nodes_parseWithin (P := IsWellNamed vocabulary) isWellNamed_object
    isWellNamed_ofShape levels text
  rcases h.eq_arrays with heq | ⟨heq, hmark⟩
  · obtain ⟨htrim, hparameter⟩ := hnamed _ (heq ▸ mem_nodes_arrays depth (.parameter name))
    exact ⟨htrim, .inl hparameter⟩
  · obtain ⟨htrim, -⟩ := hnamed _ (heq ▸ mem_nodes_arrays depth (.named name []))
    exact ⟨htrim, .inr ⟨heq, hmark⟩⟩

/-! ## The printed text -/

/-- The texts of the slots: the first generic parameters, and the placeholder in the other
places. -/
def slotTexts (generics : List Text) (placeholder : Text) (arity : Nat) : List Text :=
  generics.take arity ++ List.replicate (arity - generics.length) placeholder

theorem schema_slots (generics : List Text) (placeholder : Text) (arity : Nat) :
    (slots generics placeholder arity).map schema = slotTexts generics placeholder arity := by
  have htexts : (slots generics placeholder arity).map schema =
      (List.range arity).map fun i => generics[i]?.getD placeholder := by
    rw [slots, Int.toNat_natCast, List.map_map]
    refine List.map_congr_left fun i _ => ?_
    rw [Function.comp_apply]
    cases generics[i]? with
    | none => rfl
    | some name => rfl
  rw [htexts, slotTexts]
  refine List.ext_getElem (by simp; omega) fun i h₁ h₂ => ?_
  rw [List.getElem_map, List.getElem_range]
  rw [List.length_map, List.length_range] at h₁
  by_cases hlt : i < generics.length
  · rw [List.getElem_append_left (by simp; omega), List.getElem_take, List.getElem?_eq_getElem hlt,
      Option.getD_some]
  · rw [List.getElem_append_right (by simp; omega), List.getElem_replicate,
      List.getElem?_eq_none (by omega), Option.getD_none]

theorem length_slotTexts (generics : List Text) (placeholder : Text) (arity : Nat) :
    (slotTexts generics placeholder arity).length = arity := by
  rw [slotTexts, List.length_append, List.length_take, List.length_replicate]
  omega

theorem mem_slotTexts {generics : List Text} {placeholder s : Text} {arity : Nat}
    (h : s ∈ slotTexts generics placeholder arity) : s ∈ generics ∨ s = placeholder :=
  (List.mem_append.mp h).imp List.mem_of_mem_take List.eq_of_mem_replicate

/-- A marked name with slots behind it. -/
def markedText (name : Text) (arity : Int) (inner : Text) : Text :=
  markArity name arity ++ '<' :: inner ++ ['>']

/-- **What an upgrade prints.** -/
theorem schema_upgraded (generics : List Text) (placeholder name : Text) {arity : Nat}
    (h : 0 < arity) (levels : Nat) :
    (arrays levels (.named (markArity name arity) (slots generics placeholder arity))).schema =
      markedText name arity (join [','] (slotTexts generics placeholder arity)) ++
        arrayMarks levels := by
  have hne : slots generics placeholder arity ≠ [] := by
    rw [← List.length_pos_iff, length_slots, Int.toNat_natCast]
    exact h
  rw [schema_arrays, schema_named hne, schema_slots, markedText]

section

variable {name : Text}

theorem mark_mem_markedText (name : Text) (arity : Int) (inner : Text) :
    arityMark ∈ markedText name arity inner := by
  rw [markedText, List.append_assoc]
  exact List.mem_append_left _ (mark_mem_markArity name arity)

theorem strip_markedText (htrim : strip name = name) (arity : Int) (inner : Text) :
    strip (markedText name arity inner) = markedText name arity inner :=
  strip_applied (markArity_ne_nil name arity) (strip_markArity htrim arity) inner

/-- **A marked name with slots is read as what it was printed from**, except that the nullable
wrapper is one. -/
theorem shape_markedText (hwords : ∀ word ∈ vocabulary, arityMark ∉ word)
    (htrim : strip name = name) (hopen : '<' ∉ name) (arity : Int) (inner : Text) :
    shape vocabulary (markedText name arity inner) =
      if markArity name arity = nullableName then
        .nullable ((argumentsOf inner).headD objectName)
      else .named (markArity name arity) (argumentsOf inner) := by
  have hkeyword : markedText name arity inner ∉ vocabulary := fun hmem =>
    hwords _ hmem (mark_mem_markedText name arity inner)
  have hopen' : '<' ∉ markArity name arity :=
    not_mem_markArity hopen (by decide) (by decide) (by decide) arity
  have hsplit : split (markedText name arity inner) = ⟨markArity name arity, argumentsOf inner⟩ :=
    split_applied (markArity_ne_nil name arity) (strip_markArity htrim arity) hopen' inner
  rw [shape_eq_shapeOfApplication (strip_markedText htrim arity inner)
    (List.ne_nil_of_mem (mark_mem_markedText name arity inner)) hkeyword
    (isArrayText_concat (by decide)), hsplit]
  have hparameter := not_namesParameter_markArity name arity
  split
  · next hnullable =>
    have hwhole : markArity name arity ≠ markedText name arity inner := fun heq =>
      hopen' (heq ▸ by simp [markedText])
    rw [NamesParameter, not_or] at hparameter
    simp only [shapeOfApplication]
    rw [Bool.eq_false_iff.mpr hparameter.1, Bool.eq_false_iff.mpr hparameter.2, Bool.or_false,
      if_neg Bool.false_ne_true, if_pos ⟨hnullable, hwhole⟩]
  · next hnullable => exact shapeOfApplication_named hparameter (.inl hnullable)

/-- **Array marks are read as arrays**, one level each. -/
theorem parseWithin_append_arrayMarks (hwords : ∀ word ∈ vocabulary, arityMark ∉ word) {t : Text}
    (htrim : strip t = t) (hmark : arityMark ∈ t) (depth levels : Nat) :
    parseWithin vocabulary (depth + levels) (t ++ arrayMarks depth) =
      arrays depth (parseWithin vocabulary levels t) := by
  induction depth with
  | zero => rw [Nat.zero_add, arrayMarks, List.append_nil, arrays]
  | succ depth ih =>
    have hstart : stripStart (t ++ arrayMarks depth) = t ++ arrayMarks depth := by
      refine stripStart_eq_self fun c hc => head_not_blank htrim ?_
      rwa [List.head?_append_of_ne_nil _ (List.ne_nil_of_mem hmark)] at hc
    have hkeyword : stripStart (t ++ arrayMarks depth) ++ arraySuffix ∉ vocabulary := by
      rw [hstart]
      exact fun hmem => hwords _ hmem
        (List.mem_append_left _ (List.mem_append_left _ hmark))
    rw [Nat.succ_add, arrayMarks, ← List.append_assoc, parseWithin_succ,
      shape_append_arraySuffix_of_not_mem hkeyword, hstart, ofShape, ih, arrays]

/-- A text with array marks behind it has no blanks at its ends when the text has none. -/
theorem strip_append_arrayMarks {t : Text} (htrim : strip t = t) (hne : t ≠ []) (depth : Nat) :
    strip (t ++ arrayMarks depth) = t ++ arrayMarks depth := by
  induction depth with
  | zero => rw [arrayMarks, List.append_nil, htrim]
  | succ depth ih =>
    rw [arrayMarks, ← List.append_assoc]
    exact strip_append ih (by decide) (List.append_ne_nil_of_left_ne_nil hne _) (by decide)

/-- **A marked name is complete**, so it is not upgraded again. -/
theorem upgrade?_markedText (hwords : ∀ word ∈ vocabulary, arityMark ∉ word)
    (htrim : strip name = name) (hopen : '<' ∉ name) (arity : Int) (inner : Text)
    (index : ArityIndex) (generics : List Text) (placeholder : Text) (levels : Nat) :
    upgrade? index generics placeholder
      (parseWithin vocabulary (levels + 1) (markedText name arity inner)) = none := by
  have hmarked : hasArityMark (markArity name arity) = true :=
    List.contains_iff_mem.mpr (mark_mem_markArity name arity)
  rw [parseWithin_succ, shape_markedText hwords htrim hopen]
  split
  · rfl
  · cases argumentsOf inner with
    | nil => rw [ofShape, List.map_nil, TypeExpr.upgrade?, if_pos hmarked]
    | cons first others => rfl

end

/-! ## Upgrading a text -/

variable {index : ArityIndex} {generics : List Text} {placeholder text : Text}

@[simp] theorem upgradeText_strip (index : ArityIndex) (generics : List Text)
    (placeholder text : Text) : upgradeText index generics placeholder (strip text) =
      upgradeText index generics placeholder text := by
  unfold upgradeText
  simp only [strip_strip]

theorem upgradeText_of_blank (h : strip text = []) :
    upgradeText index generics placeholder text = [] := by
  unfold upgradeText
  simp only [h]
  rfl

/-- A text without a bare name that the index knows is only stripped. -/
theorem upgradeText_of_none
    (h : upgrade? index generics placeholder (parse [placeholder] text) = none) :
    upgradeText index generics placeholder text = strip text := by
  unfold upgradeText
  simp only [parse_strip]
  rw [h]
  split
  · rfl
  · rfl

theorem upgradeText_of_some (hne : strip text ≠ []) {e : TypeExpr}
    (h : upgrade? index generics placeholder (parse [placeholder] text) = some e) :
    upgradeText index generics placeholder text = e.schema := by
  unfold upgradeText
  simp only [parse_strip]
  rw [h, if_neg (by simpa using hne)]

/-- A bare name that is given an arity is replaced by its instantiation. -/
theorem upgradeText_of_isBare (hne : strip text ≠ []) {levels arity : Nat} {name : Text}
    (hbare : IsBare levels name (parse [placeholder] text)) (hpositive : 0 < arity)
    (harity : index.chooseArity? name generics.length = some (arity : Int)) :
    upgradeText index generics placeholder text =
      markedText name arity (join [','] (slotTexts generics placeholder arity)) ++
        arrayMarks levels := by
  have hupgrade : upgrade? index generics placeholder (parse [placeholder] text) =
      some (arrays levels (.named (markArity name arity) (slots generics placeholder arity))) := by
    rw [hbare.upgrade?, instantiate?, harity, Option.map_some, Option.map_some]
  rw [upgradeText_of_some hne hupgrade, schema_upgraded generics placeholder name hpositive]

end TypeExpr
end HaxeBindings
