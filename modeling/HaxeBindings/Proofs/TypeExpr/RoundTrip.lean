import HaxeBindings.Proofs.Schema.Arguments
import HaxeBindings.Proofs.Text.Characters
import HaxeBindings.Proofs.TypeExpr.Cut
import HaxeBindings.Options
import HaxeBindings.TypeExpr.Parse

/-!
# Reading what was printed

A schema string does not say which of its names are keywords of the target and
which are generic parameters, so not every tree can be read back: a parameter
called `Pool` prints as the host type `Pool` does.  A tree is *canonical* for a
vocabulary when every name in it says by its form what it is (`IsCanonical`), and
the reader gives every canonical tree back, as long as it is not higher than the
reader goes (`schema?_map_parse`).

## The argument

The reader asks five questions about a text, in this order: is it a keyword, an
array, a parameter, a nullable, and at last a named type.  For each node of a
canonical tree one lemma (`shape_array`, `shape_applied`, ...) says that all the
questions before the right one are answered with no.  Those lemmas need to know of
the texts below the node only that each `IsArgument`: there is something in it, no
blank is at its ends, its brackets match and its commas are between brackets.
`IsCanonical.isArgument_schema` shows this of every printed tree.

A tree that is higher than the reader goes comes back cut off
(`parseWithin_schema_eq_cut`), and what is left of it is canonical again.
-/

namespace HaxeBindings

open Text Schema

namespace Schema

/-- A name that stands for itself in a schema string: it has no blanks at its ends, no character
that schema strings use as punctuation, and no array mark behind it. -/
structure IsName (t : Text) : Prop where
  ne_nil : t ≠ []
  trimmed : strip t = t
  no_open : '<' ∉ t
  no_close : '>' ∉ t
  no_comma : ',' ∉ t
  not_array : TypeExpr.isArrayText t = false

/-- A name that counts as a generic parameter, by itself or by its simple name. -/
def NamesParameter (t : Text) : Prop :=
  isParameterName t = true ∨ isParameterName (simpleName t) = true

instance (t : Text) : Decidable (NamesParameter t) := inferInstanceAs (Decidable (_ ∨ _))

instance (t : Text) : Decidable (IsName t) :=
  decidable_of_iff (t ≠ [] ∧ strip t = t ∧ '<' ∉ t ∧ '>' ∉ t ∧ ',' ∉ t ∧
      TypeExpr.isArrayText t = false)
    ⟨fun ⟨h₁, h₂, h₃, h₄, h₅, h₆⟩ => ⟨h₁, h₂, h₃, h₄, h₅, h₆⟩,
      fun h => ⟨h.ne_nil, h.trimmed, h.no_open, h.no_close, h.no_comma, h.not_array⟩⟩

theorem IsName.ne_punctuation {t : Text} (h : IsName t) {c : Char} (hc : c ∈ t) :
    c ≠ '<' ∧ c ≠ '>' ∧ c ≠ ',' :=
  ⟨ne_of_mem_of_not_mem hc h.no_open, ne_of_mem_of_not_mem hc h.no_close,
    ne_of_mem_of_not_mem hc h.no_comma⟩

theorem IsName.isArgument {t : Text} (h : IsName t) : IsArgument t where
  ne_nil := h.ne_nil
  trimmed := h.trimmed
  balanced := balanced_of_no_bracket h.no_open h.no_close
  unsplit := unsplit_of_no_comma h.no_comma

end Schema

namespace TypeExpr

variable {vocabulary : List Text}

/-- A tree in which every name says by its form what it stands for, relative to the names of a
target vocabulary. -/
inductive IsCanonical (vocabulary : List Text) : TypeExpr → Prop
  | primitive {keyword : Text} : keyword ∈ vocabulary → IsCanonical vocabulary (.primitive keyword)
  | array {element : TypeExpr} : IsCanonical vocabulary element →
      IsCanonical vocabulary (.array element)
  | nullable {inner : TypeExpr} : IsCanonical vocabulary inner →
      IsCanonical vocabulary (.nullable inner)
  /-- A host type without arguments is not a keyword. -/
  | bare {name : Text} : IsName name → ¬NamesParameter name → name ∉ vocabulary →
      IsCanonical vocabulary (.named name [])
  /-- A host type with arguments is not the nullable wrapper. -/
  | applied {name : Text} {arguments : List TypeExpr} : IsName name → ¬NamesParameter name →
      name ≠ nullableName → arguments ≠ [] → (∀ a ∈ arguments, IsCanonical vocabulary a) →
      IsCanonical vocabulary (.named name arguments)
  | parameter {name : Text} : strip name = name → '<' ∉ name → '>' ∉ name → ',' ∉ name →
      name ∉ vocabulary → NamesParameter name → IsCanonical vocabulary (.parameter name)

/-! ## Names of parameters -/

theorem getLast?_strip {t : Text} {c : Char} (h : t.getLast? = some c) (hc : isBlank c = false) :
    (strip t).getLast? = some c := by
  obtain ⟨front, rfl⟩ := List.getLast?_eq_some_iff.mp h
  obtain ⟨kept, hkept⟩ : ∃ kept, stripStart (front ++ [c]) = kept ++ [c] := by
    rw [stripStart, List.dropWhile_append]
    split
    · exact ⟨[], by rw [List.dropWhile_cons_of_neg (by simp [hc])]; rfl⟩
    · exact ⟨_, rfl⟩
  have hend : stripEnd (kept ++ [c]) = kept ++ [c] := by
    refine stripEnd_eq_self fun d hd => ?_
    rw [List.getLast?_concat] at hd
    rw [← Option.some_inj.mp hd]
    exact hc
  rw [strip, hkept, hend, List.getLast?_concat]

theorem getLast?_simpleName {t : Text} {c : Char} (h : t.getLast? = some c) (hc : c ≠ '.') :
    (simpleName t).getLast? = some c := by
  obtain ⟨front, rfl⟩ := List.getLast?_eq_some_iff.mp h
  rw [simpleName, afterLast, List.getLast?_reverse, List.reverse_append, List.reverse_singleton,
    List.singleton_append, List.takeWhile_cons_of_pos (by simpa using hc), List.head?_cons]

/-- The name of a parameter holds letters and digits only. -/
theorem isAlphanum_of_isParameterName {t : Text} (h : isParameterName t = true) {c : Char}
    (hc : c ∈ strip t) : c.isAlphanum = true := by
  unfold isParameterName at h
  split at h
  · exact absurd h Bool.false_ne_true
  · next d heq =>
    rw [heq] at hc
    rw [List.mem_singleton.mp hc]
    show (d.isUpper || d.isLower || d.isDigit) = true
    rw [h]
    rfl
  · next d rest _ heq =>
    rw [Bool.and_eq_true, List.all_eq_true, beq_iff_eq] at h
    rw [heq] at hc
    rcases List.mem_cons.mp hc with rfl | hc
    · rw [h.1]
      decide
    · exact h.2 c hc

/-- A mark in the name of a parameter would have to stand in front of a dot. -/
theorem not_namesParameter_marked {t : Text} (h : '.' ∉ t) (base : Text) :
    ¬NamesParameter (base ++ arityMark :: t) := by
  have hplain {u : Text} (hu : isParameterName u = true) : arityMark ∉ u := fun hmark =>
    absurd (isAlphanum_of_isParameterName hu (mem_strip_of_mem hmark (by decide))) (by decide)
  have hdot : '.' ∉ arityMark :: t := List.not_mem_cons_of_ne_of_not_mem (by decide) h
  rintro (hparameter | hparameter)
  · exact hplain hparameter (by simp)
  · rw [simpleName_append hdot] at hparameter
    exact hplain hparameter (by simp)

theorem ne_nil_of_namesParameter {t : Text} (h : NamesParameter t) : t ≠ [] := by
  rintro rfl
  rcases h with h | h
  · exact Bool.false_ne_true h
  · exact Bool.false_ne_true h

theorem getLast?_of_isArrayText {t : Text} (h : isArrayText t = true) : t.getLast? = some ']' := by
  obtain ⟨front, rfl⟩ := List.isSuffixOf_iff_suffix.mp h
  rw [List.getLast?_append]
  rfl

/-- The name of a parameter ends with a letter or digit, so it is no array. -/
theorem isArrayText_of_namesParameter {t : Text} (h : NamesParameter t) :
    isArrayText t = false := by
  by_contra harray
  have hlast := getLast?_of_isArrayText (Bool.not_eq_false _ ▸ harray)
  have hdot : ']' ≠ '.' := by decide
  have halnum : Char.isAlphanum ']' = true := by
    rcases h with h | h
    · exact isAlphanum_of_isParameterName h (List.mem_of_getLast? (getLast?_strip hlast rfl))
    · have hsimple := getLast?_strip (getLast?_simpleName hlast hdot) rfl
      exact isAlphanum_of_isParameterName h (List.mem_of_getLast? hsimple)
  exact absurd halnum (by decide)

theorem isName_of_namesParameter {t : Text} (htrim : strip t = t) (hopen : '<' ∉ t)
    (hclose : '>' ∉ t) (hcomma : ',' ∉ t) (h : NamesParameter t) : IsName t :=
  ⟨ne_nil_of_namesParameter h, htrim, hopen, hclose, hcomma, isArrayText_of_namesParameter h⟩

/-! ## One node -/

theorem isArrayText_concat {t : Text} {c : Char} (hc : c ≠ ']') :
    isArrayText (t ++ [c]) = false := by
  by_contra harray
  have hlast := getLast?_of_isArrayText (Bool.not_eq_false _ ▸ harray)
  rw [List.getLast?_concat] at hlast
  exact hc (Option.some_inj.mp hlast)

theorem shape_keyword {keyword : Text} (hname : IsName keyword) (h : keyword ∈ vocabulary) :
    shape vocabulary keyword = .primitive keyword := by
  simp only [shape]
  rw [hname.trimmed, if_neg hname.ne_nil, if_pos h]

/-- A text that is neither empty nor a keyword nor an array is taken apart at its brackets. -/
theorem shape_eq_shapeOfApplication {t : Text} (htrim : strip t = t) (hne : t ≠ [])
    (hkeyword : t ∉ vocabulary) (harray : isArrayText t = false) :
    shape vocabulary t = shapeOfApplication t (split t) := by
  simp only [shape]
  rw [htrim, if_neg hne, if_neg hkeyword, if_neg (by rw [harray]; exact Bool.false_ne_true)]

/-- An array mark makes an array of a text that does not become a keyword by it. -/
theorem shape_append_arraySuffix_of_not_mem {t : Text}
    (hkeyword : stripStart t ++ arraySuffix ∉ vocabulary) :
    shape vocabulary (t ++ arraySuffix) = .array (stripStart t) := by
  have htrim : strip (t ++ arraySuffix) = stripStart t ++ arraySuffix :=
    strip_append_right (by decide) (by decide)
  have hne : stripStart t ++ arraySuffix ≠ [] :=
    List.append_ne_nil_of_right_ne_nil _ (by decide)
  have harray : isArrayText (stripStart t ++ arraySuffix) = true :=
    List.isSuffixOf_iff_suffix.mpr (List.suffix_append _ arraySuffix)
  have helement : elementText (stripStart t ++ arraySuffix) = stripStart t := by
    rw [elementText, List.length_append, Nat.add_sub_cancel, List.take_left]
  simp only [shape]
  rw [htrim, if_neg hne, if_neg hkeyword, if_pos harray, helement]

/-- An array mark makes an array of any text. -/
theorem shape_append_arraySuffix (hvocabulary : ∀ k ∈ vocabulary, IsName k) (t : Text) :
    shape vocabulary (t ++ arraySuffix) = .array (stripStart t) := by
  refine shape_append_arraySuffix_of_not_mem fun hmem => ?_
  have harray : isArrayText (stripStart t ++ arraySuffix) = true :=
    List.isSuffixOf_iff_suffix.mpr (List.suffix_append _ arraySuffix)
  exact Bool.false_ne_true ((hvocabulary _ hmem).not_array.symm.trans harray)

theorem shape_array (hvocabulary : ∀ k ∈ vocabulary, IsName k) {t : Text} (h : IsArgument t) :
    shape vocabulary (t ++ arraySuffix) = .array t := by
  rw [shape_append_arraySuffix hvocabulary, stripStart_eq_self fun c hc =>
    head_not_blank h.trimmed hc]

theorem shapeOfApplication_named {whole base : Text} {arguments : List Text}
    (hparameter : ¬NamesParameter base) (h : base ≠ nullableName ∨ base = whole) :
    shapeOfApplication whole ⟨base, arguments⟩ = .named base arguments := by
  have hconvention : (isParameterName base || isParameterName (simpleName base)) = false := by
    rw [NamesParameter, not_or] at hparameter
    simpa using hparameter
  have hnullable : ¬(base = nullableName ∧ base ≠ whole) := by
    rintro ⟨hbase, hwhole⟩
    rcases h with h | h
    · exact h hbase
    · exact hwhole h
  simp only [shapeOfApplication]
  rw [hconvention, if_neg Bool.false_ne_true, if_neg hnullable]

theorem shape_bare {name : Text} (hname : IsName name) (hparameter : ¬NamesParameter name)
    (hkeyword : name ∉ vocabulary) : shape vocabulary name = .named name [] := by
  rw [shape_eq_shapeOfApplication hname.trimmed hname.ne_nil hkeyword hname.not_array,
    split_plain hname.trimmed hname.no_open]
  exact shapeOfApplication_named hparameter (.inr rfl)

theorem shape_parameter {name : Text} (htrim : strip name = name) (hopen : '<' ∉ name)
    (hkeyword : name ∉ vocabulary) (hparameter : NamesParameter name) :
    shape vocabulary name = .parameter name := by
  have hne : name ≠ [] := ne_nil_of_namesParameter hparameter
  have hconvention : (isParameterName name || isParameterName (simpleName name)) = true := by
    rw [Bool.or_eq_true]
    exact hparameter
  rw [shape_eq_shapeOfApplication htrim hne hkeyword (isArrayText_of_namesParameter hparameter),
    split_plain htrim hopen]
  simp only [shapeOfApplication]
  rw [hconvention, if_pos rfl]

theorem parse_parameter {name : Text} (htrim : strip name = name) (hopen : '<' ∉ name)
    (hkeyword : name ∉ vocabulary) (hparameter : NamesParameter name) :
    parse vocabulary name = .parameter name := by
  rw [parse, parseWithin_succ, shape_parameter htrim hopen hkeyword hparameter, ofShape]

/-- The text of an instantiation is taken apart whatever its base is: it is no keyword, since it
has brackets, and no array, since it ends with one. -/
theorem shape_bracketed (hvocabulary : ∀ k ∈ vocabulary, IsName k) {base : Text}
    (hne : base ≠ []) (htrim : strip base = base) (hopen : '<' ∉ base) (inner : Text) :
    shape vocabulary (base ++ '<' :: inner ++ ['>']) =
      shapeOfApplication (base ++ '<' :: inner ++ ['>']) ⟨base, argumentsOf inner⟩ := by
  have hwhole : base ++ '<' :: inner ++ ['>'] ≠ [] := by simp
  have hkeyword : base ++ '<' :: inner ++ ['>'] ∉ vocabulary := fun hmem =>
    (hvocabulary _ hmem).no_open (by simp)
  rw [shape_eq_shapeOfApplication (strip_applied hne htrim inner) hwhole hkeyword
    (isArrayText_concat (by decide)), split_applied hne htrim hopen]

/-- A name that is neither a parameter nor the nullable wrapper is that of a host type, whatever
stands between the brackets behind it. -/
theorem shape_named (hvocabulary : ∀ k ∈ vocabulary, IsName k) {name : Text}
    (hname : IsName name) (hparameter : ¬NamesParameter name) (hnullable : name ≠ nullableName)
    (inner : Text) :
    shape vocabulary (name ++ '<' :: inner ++ ['>']) = .named name (argumentsOf inner) := by
  rw [shape_bracketed hvocabulary hname.ne_nil hname.trimmed hname.no_open]
  exact shapeOfApplication_named hparameter (.inl hnullable)

theorem shape_applied (hvocabulary : ∀ k ∈ vocabulary, IsName k) {name : Text}
    (hname : IsName name) (hparameter : ¬NamesParameter name) (hnullable : name ≠ nullableName)
    {arguments : List Text} (hne : arguments ≠ []) (h : ∀ t ∈ arguments, IsArgument t) :
    shape vocabulary (name ++ '<' :: join [','] arguments ++ ['>']) = .named name arguments := by
  rw [shape_named hvocabulary hname hparameter hnullable, argumentsOf_join hne h]

/-- The nullable wrapper keeps the first of what stands between its brackets, and wraps the root
object type when there is nothing. -/
theorem shape_nullableName (hvocabulary : ∀ k ∈ vocabulary, IsName k) (inner : Text) :
    shape vocabulary (nullableName ++ '<' :: inner ++ ['>']) =
      .nullable ((argumentsOf inner).headD objectName) := by
  have hconvention : (isParameterName nullableName ||
      isParameterName (simpleName nullableName)) = false := by decide
  have hbase : nullableName ≠ nullableName ++ '<' :: inner ++ ['>'] := by
    intro heq
    have := congrArg List.length heq
    simp only [List.length_append, List.length_cons] at this
    omega
  rw [shape_bracketed hvocabulary (by decide) (by decide) (by decide)]
  simp only [shapeOfApplication]
  rw [hconvention, if_neg Bool.false_ne_true, if_pos ⟨trivial, hbase⟩]

theorem shape_nullable (hvocabulary : ∀ k ∈ vocabulary, IsName k) {t : Text} (h : IsArgument t) :
    shape vocabulary (nullableName ++ '<' :: t ++ ['>']) = .nullable t := by
  rw [shape_nullableName hvocabulary, headD_argumentsOf h.unsplit, h.trimmed, if_neg h.ne_nil]

/-! ## The printed text -/

theorem isArgument_array {t : Text} (h : IsArgument t) : IsArgument (t ++ arraySuffix) where
  ne_nil := List.append_ne_nil_of_left_ne_nil h.ne_nil _
  trimmed := strip_append h.trimmed (by decide) h.ne_nil (by decide)
  balanced := h.balanced.append (balanced_of_no_bracket (by decide) (by decide))
  unsplit := h.unsplit.append (unsplit_of_no_comma (by decide))

theorem isArgument_applied {base inner : Text} (hbase : IsArgument base)
    (hcomma : ',' ∉ base) (h : Balanced inner) : IsArgument (base ++ '<' :: inner ++ ['>']) where
  ne_nil := (isClosed_applied hbase.balanced hcomma h).ne_nil
  trimmed := strip_applied hbase.ne_nil hbase.trimmed inner
  balanced := (isClosed_applied hbase.balanced hcomma h).balanced
  unsplit := (isClosed_applied hbase.balanced hcomma h).unsplit

theorem schema_named {name : Text} {arguments : List TypeExpr} (h : arguments ≠ []) :
    (named name arguments).schema = name ++ '<' :: join [','] (arguments.map schema) ++ ['>'] := by
  cases arguments with
  | nil => exact absurd rfl h
  | cons first others => rw [schema, schemas_eq_map, List.map_cons]

/-- **A canonical tree prints as one argument.** -/
theorem IsCanonical.isArgument_schema (hvocabulary : ∀ k ∈ vocabulary, IsName k) {e : TypeExpr}
    (h : IsCanonical vocabulary e) : IsArgument e.schema := by
  induction h with
  | primitive hkeyword => exact (hvocabulary _ hkeyword).isArgument
  | array _ ih => exact isArgument_array ih
  | nullable _ ih =>
    have hbase : IsArgument nullableName := ⟨by decide, by decide, balanced_of_no_bracket
      (by decide) (by decide), unsplit_of_no_comma (by decide)⟩
    exact isArgument_applied hbase (by decide) ih.balanced
  | bare hname _ _ => exact hname.isArgument
  | applied hname _ _ hne _ ih =>
    rw [schema_named hne]
    refine isArgument_applied hname.isArgument hname.no_comma (balanced_join fun t ht => ?_)
    obtain ⟨a, ha, rfl⟩ := List.mem_map.mp ht
    exact (ih a ha).balanced
  | parameter htrim hopen hclose hcomma _ hparameter =>
    exact (isName_of_namesParameter htrim hopen hclose hcomma hparameter).isArgument

/-! ## The round trip -/

/-- **The reader gives a canonical tree back as far as it goes.** -/
theorem parseWithin_schema_eq_cut (hvocabulary : ∀ k ∈ vocabulary, IsName k) {e : TypeExpr}
    (h : IsCanonical vocabulary e) (levels : Nat) :
    parseWithin vocabulary levels e.schema = cut levels e := by
  induction h generalizing levels with
  | primitive hkeyword =>
    cases levels with
    | zero => rfl
    | succ levels =>
      rw [schema, parseWithin_succ, shape_keyword (hvocabulary _ hkeyword) hkeyword, ofShape]
      rfl
  | array helement ih =>
    cases levels with
    | zero => rfl
    | succ levels =>
      have hprinted := helement.isArgument_schema hvocabulary
      rw [schema, parseWithin_succ, shape_array hvocabulary hprinted, ofShape, ih, cut]
  | nullable hinner ih =>
    cases levels with
    | zero => rfl
    | succ levels =>
      have hprinted := hinner.isArgument_schema hvocabulary
      rw [schema, parseWithin_succ, shape_nullable hvocabulary hprinted, ofShape, ih, cut]
  | bare hname hparameter hkeyword =>
    cases levels with
    | zero => rfl
    | succ levels =>
      rw [schema, parseWithin_succ, shape_bare hname hparameter hkeyword, ofShape, List.map_nil,
        cut, List.map_nil]
  | @applied name arguments hname hparameter hnullable hne harguments ih =>
    cases levels with
    | zero => rfl
    | succ levels =>
      have hprinted : ∀ t ∈ arguments.map schema, IsArgument t := by
        intro t ht
        obtain ⟨a, ha, rfl⟩ := List.mem_map.mp ht
        exact (harguments a ha).isArgument_schema hvocabulary
      rw [schema_named hne, parseWithin_succ,
        shape_applied hvocabulary hname hparameter hnullable (by simpa using hne) hprinted,
        ofShape, List.map_map, cut]
      exact congrArg (named name) (List.map_congr_left fun a ha => ih a ha levels)
  | parameter htrim hopen _ _ hkeyword hparameter =>
    cases levels with
    | zero => rfl
    | succ levels =>
      rw [schema, parseWithin_succ, shape_parameter htrim hopen hkeyword hparameter, ofShape]
      rfl

/-- With more levels than a canonical tree is high, the reader gives it back. -/
theorem parseWithin_schema (hvocabulary : ∀ k ∈ vocabulary, IsName k) {e : TypeExpr}
    (h : IsCanonical vocabulary e) {levels : Nat} (hlevels : e.height < levels) :
    parseWithin vocabulary levels e.schema = e := by
  rw [parseWithin_schema_eq_cut hvocabulary h, cut_eq_self hlevels]

/-- What is left of a canonical tree when it is cut off is canonical. -/
theorem IsCanonical.cut {e : TypeExpr} (h : IsCanonical vocabulary e)
    (hobject : IsCanonical vocabulary object) (levels : Nat) :
    IsCanonical vocabulary (cut levels e) := by
  induction h generalizing levels with
  | primitive hkeyword =>
    cases levels with
    | zero => exact hobject
    | succ levels => exact .primitive hkeyword
  | array _ ih =>
    cases levels with
    | zero => exact hobject
    | succ levels => exact .array (ih levels)
  | nullable _ ih =>
    cases levels with
    | zero => exact hobject
    | succ levels => exact .nullable (ih levels)
  | bare hname hparameter hkeyword =>
    cases levels with
    | zero => exact hobject
    | succ levels => exact .bare hname hparameter hkeyword
  | applied hname hparameter hnullable hne _ ih =>
    cases levels with
    | zero => exact hobject
    | succ levels =>
      refine .applied hname hparameter hnullable (by simpa using hne) fun e he => ?_
      obtain ⟨a, ha, rfl⟩ := List.mem_map.mp he
      exact ih a ha levels
  | parameter htrim hopen hclose hcomma hkeyword hparameter =>
    cases levels with
    | zero => exact hobject
    | succ levels => exact .parameter htrim hopen hclose hcomma hkeyword hparameter

/-- Every name in a canonical tree can stand in a schema string. -/
theorem IsCanonical.isName_of_mem (hvocabulary : ∀ k ∈ vocabulary, IsName k) {e : TypeExpr}
    (h : IsCanonical vocabulary e) {name : Text} (hname : name ∈ e.names) : IsName name := by
  induction h with
  | primitive hkeyword =>
    rw [List.mem_singleton.mp hname]
    exact hvocabulary _ hkeyword
  | array _ ih => exact ih hname
  | nullable _ ih => exact ih hname
  | bare hbase _ _ =>
    rw [List.mem_singleton.mp hname]
    exact hbase
  | applied hbase _ _ _ _ ih =>
    rw [names, namesOfAll_eq_flatMap] at hname
    rcases List.mem_cons.mp hname with rfl | hname
    · exact hbase
    · obtain ⟨a, ha, hname⟩ := List.mem_flatMap.mp hname
      exact ih a ha hname
  | parameter htrim hopen hclose hcomma _ hparameter =>
    rw [List.mem_singleton.mp hname]
    exact isName_of_namesParameter htrim hopen hclose hcomma hparameter

theorem IsCanonical.isClassified {e : TypeExpr} (h : IsCanonical vocabulary e) :
    e.isClassified = true := by
  induction h with
  | primitive _ => rfl
  | array _ ih => exact ih
  | nullable _ ih => exact ih
  | bare _ _ _ => rfl
  | applied _ _ _ _ _ ih =>
    rw [TypeExpr.isClassified, allClassified_eq_all, List.all_eq_true]
    exact ih
  | parameter _ _ _ _ _ _ => rfl

/-- **Printing then reading gives a canonical tree back.**  It has a schema string, and reading
that string relative to the same vocabulary yields the tree, up to the height at which the reader
erases what lies deeper. -/
theorem schema?_map_parse (hvocabulary : ∀ k ∈ vocabulary, IsName k) {e : TypeExpr}
    (h : IsCanonical vocabulary e) (hheight : e.height ≤ maxDepth) :
    e.schema?.map (parse vocabulary) = some e := by
  rw [schema?, if_pos h.isClassified, Option.map_some, parse,
    parseWithin_schema hvocabulary h (Nat.lt_succ_of_le hheight)]

/-- A map from a keyword to a nullable array of instantiations, relative to the keywords of the
default options: every kind of node occurs, and the array stands at the innermost level. -/
theorem schema?_map_parse_map :
    let vocabulary := ({} : Options).vocabulary
    let pool : TypeExpr := .named ("Sandbox.Pool".toList ++ [arityMark, '1']) [.parameter ['T']]
    let e : TypeExpr := .named ("Sandbox.Map".toList ++ [arityMark, '2'])
      [.primitive "Int".toList, .nullable (.array pool)]
    e.height = 4 ∧ e.schema?.map (parse vocabulary) = some e := by
  intro vocabulary pool e
  have hvocabulary : ∀ k ∈ vocabulary, IsName k := by decide
  have hpool : IsCanonical vocabulary pool :=
    .applied (by decide) (by decide) (by decide) (List.cons_ne_nil _ _) fun a ha => by
      rw [List.mem_singleton.mp ha]
      exact .parameter (by decide) (by decide) (by decide) (by decide) (by decide) (by decide)
  have he : IsCanonical vocabulary e := by
    refine .applied (by decide) (by decide) (by decide) (List.cons_ne_nil _ _) fun a ha => ?_
    rcases List.mem_cons.mp ha with rfl | ha
    · exact .primitive (by decide)
    · rw [List.mem_singleton.mp ha]
      exact .nullable (.array hpool)
  exact ⟨rfl, schema?_map_parse hvocabulary he (by decide)⟩

end TypeExpr
end HaxeBindings
