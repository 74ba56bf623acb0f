import HaxeBindings.Catalog.TypeRef
import HaxeBindings.Proofs.TypeExpr.RoundTrip

/-!
# What a reference stands for

A dump refers to types by trees, and everything behind the reader of the dump sees
schema strings.  Between the two a reference is printed by `TypeRef.schema` and the
string is read again by `TypeExpr.parse`, and this file says what comes out of that.

* `denoted` --- the type expression that a reference stands for: a pointer stands
  for what it points at, a missing reference for the root object type, and of the
  arguments of the nullable wrapper only the first counts;
* `parse_schemaOf` --- reading the schema string of a reference gives `denoted`, as
  long as the names in the reference say by their form what they are and the
  expression is not higher than the reader goes.

## The argument

`schema_denoted` says that a reference and its expression are printed alike, and
`IsCanonical.denoted` that the expression is one that the reader gives back.  The
rest is the round trip of expressions.
-/

namespace HaxeBindings

open Text Schema

/-- Words that a schema string can hold without being taken for anything else.  The root object
type is not among them, since missing references are written by its name. -/
structure IsVocabulary (vocabulary : List Text) : Prop where
  names : ∀ keyword ∈ vocabulary, IsName keyword
  object : objectName ∉ vocabulary

instance (vocabulary : List Text) : Decidable (IsVocabulary vocabulary) :=
  decidable_of_iff ((∀ keyword ∈ vocabulary, IsName keyword) ∧ objectName ∉ vocabulary)
    ⟨fun h => ⟨h.1, h.2⟩, fun h => ⟨h.names, h.object⟩⟩

theorem isVocabulary_default : IsVocabulary ({} : Options).vocabulary := by decide

theorem IsVocabulary.isCanonical_object {vocabulary : List Text} (h : IsVocabulary vocabulary) :
    TypeExpr.IsCanonical vocabulary .object :=
  .bare (by decide) (by decide) h.object

namespace TypeRef

/-! ## Expressions -/

mutual

/-- The type expression that a reference stands for. -/
def denoted : TypeRef → TypeExpr
  | .named name [] => .named (schemaName name) []
  | .named name (first :: others) =>
    if schemaName name = nullableName then .nullable first.denoted
    else .named (schemaName name) (first.denoted :: denotedAll others)
  | .array element => .array (denotedOf element)
  | .pointer element => denotedOf element
  | .parameter name => .parameter name

/-- The type expression that a reference stands for when it may be missing. -/
def denotedOf : Option TypeRef → TypeExpr
  | none => .object
  | some ref => ref.denoted

/-- The type expressions that a list of references stands for. -/
def denotedAll : List TypeRef → List TypeExpr
  | [] => []
  | ref :: refs => ref.denoted :: denotedAll refs

end

theorem denotedAll_eq_map (refs : List TypeRef) : denotedAll refs = refs.map denoted := by
  induction refs with
  | nil => rfl
  | cons ref refs ih => rw [denotedAll, ih, List.map_cons]

/-- A reference in which every name says by its form what it stands for, relative to the names of a
target vocabulary. -/
inductive IsCanonical (vocabulary : List Text) : TypeRef → Prop
  /-- A host type without arguments is not a keyword. -/
  | named {name : Text} {arguments : List TypeRef} : IsName (schemaName name) →
      ¬NamesParameter (schemaName name) → (arguments = [] → schemaName name ∉ vocabulary) →
      (∀ a ∈ arguments, IsCanonical vocabulary a) → IsCanonical vocabulary (.named name arguments)
  | array {element : Option TypeRef} : (∀ ref ∈ element, IsCanonical vocabulary ref) →
      IsCanonical vocabulary (.array element)
  | pointer {element : Option TypeRef} : (∀ ref ∈ element, IsCanonical vocabulary ref) →
      IsCanonical vocabulary (.pointer element)
  | parameter {name : Text} : strip name = name → isParameterName name = true →
      name ∉ vocabulary → IsCanonical vocabulary (.parameter name)

section

variable {vocabulary : List Text}

/-! ## Both are printed alike -/

theorem schemaOf_eq {element : Option TypeRef}
    (h : ∀ ref ∈ element, ref.denoted.schema = ref.schema) :
    (denotedOf element).schema = schemaOf element := by
  cases element with
  | none => rfl
  | some ref => exact h ref rfl

/-- **A reference is printed as its expression is.** -/
theorem IsCanonical.schema_denoted {ref : TypeRef} (h : IsCanonical vocabulary ref) :
    ref.denoted.schema = ref.schema := by
  induction h with
  | @named name arguments _ _ _ _ ih =>
    cases arguments with
    | nil => rfl
    | cons first others =>
      have hfirst : first.denoted.schema = first.schema := ih first List.mem_cons_self
      rw [denoted, schema]
      split
      · rw [TypeExpr.schema, hfirst]
      · have hothers : (denotedAll others).map TypeExpr.schema = schemas others := by
          rw [denotedAll_eq_map, schemas_eq_map, List.map_map]
          exact List.map_congr_left fun a ha => ih a (List.mem_cons_of_mem first ha)
        rw [TypeExpr.schema, TypeExpr.schemas_eq_map, hothers, hfirst]
  | array _ ih => rw [denoted, TypeExpr.schema, schemaOf_eq ih, schema]
  | pointer _ ih => rw [denoted, schemaOf_eq ih, schema]
  | @parameter name _ hparameter _ =>
    have hne : ¬name.isEmpty = true := by
      rw [List.isEmpty_iff]
      rintro rfl
      exact Bool.false_ne_true hparameter
    rw [denoted, TypeExpr.schema, schema, if_neg hne]

/-! ## The expression can be read back -/

theorem isCanonical_denotedOf (hvocabulary : IsVocabulary vocabulary) {element : Option TypeRef}
    (h : ∀ ref ∈ element, TypeExpr.IsCanonical vocabulary ref.denoted) :
    TypeExpr.IsCanonical vocabulary (denotedOf element) := by
  cases element with
  | none => exact hvocabulary.isCanonical_object
  | some ref => exact h ref rfl

/-- **The expression of a canonical reference is canonical.** -/
theorem IsCanonical.denoted (hvocabulary : IsVocabulary vocabulary) {ref : TypeRef}
    (h : IsCanonical vocabulary ref) : TypeExpr.IsCanonical vocabulary ref.denoted := by
  induction h with
  | @named name arguments hname hparameter hkeyword _ ih =>
    cases arguments with
    | nil => exact .bare hname hparameter (hkeyword rfl)
    | cons first others =>
      have hfirst := ih first List.mem_cons_self
      rw [TypeRef.denoted]
      split
      · exact .nullable hfirst
      · next hnullable =>
        refine .applied hname hparameter hnullable (List.cons_ne_nil _ _) fun e he => ?_
        rw [denotedAll_eq_map, ← List.map_cons] at he
        obtain ⟨a, ha, rfl⟩ := List.mem_map.mp he
        exact ih a ha
  | array _ ih => exact .array (isCanonical_denotedOf hvocabulary ih)
  | pointer _ ih => exact isCanonical_denotedOf hvocabulary ih
  | @parameter name htrim hparameter hkeyword =>
    have hplain {c : Char} (hc : c.isAlphanum = false) : c ∉ name := by
      intro hmem
      have halnum := TypeExpr.isAlphanum_of_isParameterName hparameter (htrim.symm ▸ hmem)
      exact Bool.false_ne_true (hc.symm.trans halnum)
    exact .parameter htrim (hplain rfl) (hplain rfl) (hplain rfl) hkeyword (.inl hparameter)

end

/-- **The schema string carries a reference faithfully.**  Reading it relative to the target
vocabulary yields what the reference stands for. -/
theorem parse_schemaOf {vocabulary : List Text} (hvocabulary : IsVocabulary vocabulary)
    {ref : Option TypeRef} (h : ∀ r ∈ ref, IsCanonical vocabulary r)
    (hheight : (denotedOf ref).height ≤ TypeExpr.maxDepth) :
    TypeExpr.parse vocabulary (schemaOf ref) = denotedOf ref := by
  have hprinted : (denotedOf ref).schema = schemaOf ref :=
    schemaOf_eq fun r hr => (h r hr).schema_denoted
  have hcanonical : TypeExpr.IsCanonical vocabulary (denotedOf ref) :=
    isCanonical_denotedOf hvocabulary fun r hr => (h r hr).denoted hvocabulary
  rw [← hprinted, TypeExpr.parse,
    TypeExpr.parseWithin_schema hvocabulary.names hcanonical (Nat.lt_succ_of_le hheight)]

/-- A pointer to an array of maps from a nested type to a nullable array of nothing in particular,
relative to the keywords of the default options.  The second argument of the nullable wrapper is
lost. -/
theorem parse_schemaOf_map :
    let vocabulary := ({} : Options).vocabulary
    let nullable : TypeRef := .named nullableName [.array none, .parameter ['U']]
    let map : TypeRef := .named ("Sandbox.Scene+Map".toList ++ [arityMark, '2'])
      [.named "Sandbox.Scene+Settings".toList [], nullable]
    let ref : Option TypeRef := some (.pointer (some (.array (some map))))
    IsVocabulary vocabulary ∧ (∀ r ∈ ref, IsCanonical vocabulary r) ∧
      (denotedOf ref).height ≤ TypeExpr.maxDepth ∧
      TypeExpr.parse vocabulary (schemaOf ref) = denotedOf ref ∧
      denotedOf ref = .array (.named ("Sandbox.Scene.Map".toList ++ [arityMark, '2'])
        [.named "Sandbox.Scene.Settings".toList [], .nullable (.array .object)]) := by
  intro vocabulary nullable map ref
  have hparameter : IsCanonical vocabulary (.parameter ['U']) :=
    .parameter (by decide) (by decide) (by decide)
  have hnullable : IsCanonical vocabulary nullable := by
    refine .named (by decide) (by decide) (by decide) fun a ha => ?_
    rcases List.mem_cons.mp ha with rfl | ha
    · exact .array fun r hr => nomatch hr
    · rw [List.mem_singleton.mp ha]
      exact hparameter
  have hmap : IsCanonical vocabulary map := by
    refine .named (by decide) (by decide) (by decide) fun a ha => ?_
    rcases List.mem_cons.mp ha with rfl | ha
    · exact .named (by decide) (by decide) (by decide) fun a ha => absurd ha List.not_mem_nil
    · rw [List.mem_singleton.mp ha]
      exact hnullable
  have href : ∀ r ∈ ref, IsCanonical vocabulary r := by
    intro r hr
    rw [← Option.some_inj.mp hr]
    refine .pointer fun r hr => ?_
    rw [← Option.some_inj.mp hr]
    refine .array fun r hr => ?_
    rw [← Option.some_inj.mp hr]
    exact hmap
  have hheight : (denotedOf ref).height ≤ TypeExpr.maxDepth := by decide
  exact ⟨isVocabulary_default, href, hheight, parse_schemaOf isVocabulary_default href hheight, rfl⟩

end TypeRef
end HaxeBindings
