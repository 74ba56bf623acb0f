import HaxeBindings.Proofs.Catalog.Acceptance
import Mathlib.Data.List.Forall2
import Mathlib.Tactic.ByContra

/-!
# The positions of arguments

A reference to an instantiated type lists its arguments, and a missing one stands for the root
object type, as it does everywhere.  In the schema string each argument should then have the
position that it has in the list.

* `ofJson_named` --- a named reference keeps the arguments that are not missing, and no others;
* `weight_present` --- what a list of arguments takes up when it is written, in terms of the
  arguments that are present and the number of the missing ones;
* `schema_named_iff` --- so the positions are kept exactly when no argument is missing, and of the
  nullable wrapper when it has one argument only;
* `schema_missing_argument` --- a map from anything to integers that becomes a map of integers.

## The argument

Whether two argument lists are written alike can be read off their lengths alone: every item takes
up its own length and a place for a comma, so a list with a missing argument is longer by the name
of the object type and a comma, and nothing else can make up for that.
-/

namespace HaxeBindings

open Text Schema

/-! ## Written lists -/

/-- What a list of texts takes up, with a comma behind each of them. -/
def Text.weight (ts : List Text) : Nat := ts.foldr (fun t n => t.length + 1 + n) 0

@[simp] theorem Text.weight_nil : weight [] = 0 := rfl

@[simp] theorem Text.weight_cons (t : Text) (ts : List Text) :
    weight (t :: ts) = t.length + 1 + weight ts := rfl

theorem Text.length_le_weight (ts : List Text) : ts.length ≤ weight ts := by
  induction ts with
  | nil => exact Nat.le_refl 0
  | cons t ts ih =>
    rw [List.length_cons, weight_cons]
    omega

/-- Joined texts have a comma behind each of them but the last. -/
theorem Text.length_join {ts : List Text} (h : ts ≠ []) :
    (join [','] ts).length + 1 = weight ts := by
  induction ts with
  | nil => exact absurd rfl h
  | cons t ts ih =>
    cases ts with
    | nil => rw [join, List.intercalate_singleton, weight_cons, weight_nil]
    | cons u ts =>
      have hrest := ih (List.cons_ne_nil u ts)
      rw [join] at hrest
      rw [join, List.intercalate_cons_cons, weight_cons, List.length_append, List.length_append,
        List.length_singleton]
      omega

namespace TypeRef

/-! ## Missing arguments -/

/-- The arguments that are not missing. -/
def present (refs : List (Option TypeRef)) : List TypeRef := refs.filterMap id

/-- The number of missing arguments. -/
def missing (refs : List (Option TypeRef)) : Nat := refs.countP Option.isNone

@[simp] theorem present_none (refs : List (Option TypeRef)) :
    present (none :: refs) = present refs := rfl

@[simp] theorem present_some (r : TypeRef) (refs : List (Option TypeRef)) :
    present (some r :: refs) = r :: present refs := rfl

@[simp] theorem missing_none (refs : List (Option TypeRef)) :
    missing (none :: refs) = missing refs + 1 := List.countP_cons_of_pos rfl

@[simp] theorem missing_some (r : TypeRef) (refs : List (Option TypeRef)) :
    missing (some r :: refs) = missing refs := List.countP_cons_of_neg Bool.false_ne_true

theorem missing_eq_zero_iff {refs : List (Option TypeRef)} : missing refs = 0 ↔ none ∉ refs := by
  rw [missing, List.countP_eq_zero]
  constructor
  · intro h hnone
    exact h none hnone rfl
  · intro h ref href hmissing
    exact h (Option.isNone_iff_eq_none.mp hmissing ▸ href)

theorem length_present (refs : List (Option TypeRef)) :
    (present refs).length + missing refs = refs.length := by
  induction refs with
  | nil => rfl
  | cons ref refs ih =>
    rw [List.length_cons]
    cases ref with
    | none =>
      rw [present_none, missing_none]
      omega
    | some r =>
      rw [present_some, missing_some, List.length_cons]
      omega

/-- **A missing argument would take up the name of the object type and a comma.** -/
theorem weight_present (refs : List (Option TypeRef)) :
    weight (refs.map schemaOf) =
      weight ((present refs).map schema) + (objectName.length + 1) * missing refs := by
  induction refs with
  | nil => rfl
  | cons ref refs ih =>
    rw [List.map_cons, weight_cons, ih]
    cases ref with
    | none =>
      rw [present_none, missing_none, schemaOf_none, Nat.mul_succ]
      omega
    | some r =>
      rw [present_some, missing_some, List.map_cons, weight_cons, schemaOf]
      omega

theorem map_schemaOf_of_missing_eq_zero {refs : List (Option TypeRef)} (h : missing refs = 0) :
    refs.map schemaOf = (present refs).map schema := by
  induction refs with
  | nil => rfl
  | cons ref refs ih =>
    cases ref with
    | none => simp at h
    | some r =>
      rw [missing_some] at h
      rw [present_some, List.map_cons, List.map_cons, ih h, schemaOf]

/-! ## Positions -/

/-- **A named reference keeps the arguments that are there.** -/
theorem ofJson_named {fields : List (Text × Json)} (hkind : kindOf fields = "named".toList)
    {refs : List (Option TypeRef)} (hload : List.Forall₂ (fun item ref => ofJson item = .ok ref)
      (Json.field "arguments".toList fields).items refs) :
    ofJson (.object fields) = .ok (some (.named (nameOf fields) (present refs))) := by
  rw [ofJson_of_named hkind, mapM_eq_ok_iff.mpr hload]
  rfl

/-- The schema string in which each argument has its position, a missing one that of the object
type. -/
def positioned (name : Text) (refs : List (Option TypeRef)) : Text :=
  schemaName name ++ '<' :: join [','] (refs.map schemaOf) ++ ['>']

theorem length_positioned {name : Text} {refs : List (Option TypeRef)} (h : refs ≠ []) :
    (positioned name refs).length = (schemaName name).length + 1 + weight (refs.map schemaOf) := by
  have hschemas : refs.map schemaOf ≠ [] := mt List.map_eq_nil_iff.mp h
  have hjoin := length_join hschemas
  rw [positioned, List.length_append, List.length_append, List.length_cons, List.length_singleton]
  omega

/-- **The arguments that are there have their positions exactly when they are all arguments**, and in
the nullable wrapper when there is one. -/
theorem schema_named_eq_positioned_iff (name : Text) {refs : List (Option TypeRef)}
    (hne : refs ≠ []) :
    (named name (present refs)).schema = positioned name refs ↔
      none ∉ refs ∧ (schemaName name = nullableName → refs.length = 1) := by
  have hlength : (positioned name refs).length =
      (schemaName name).length + 1 + weight (refs.map schemaOf) := length_positioned hne
  have hweight := weight_present refs
  have hcount := length_present refs
  have hobject : objectName.length = 13 := rfl
  rw [hobject] at hweight
  rw [← missing_eq_zero_iff]
  cases hpresent : present refs with
  | nil =>
    -- nothing is written behind the name
    refine iff_of_false (fun heq => ?_) fun ⟨hmissing, _⟩ => ?_
    · rw [← heq, schema] at hlength
      omega
    · rw [hpresent, List.length_nil, hmissing] at hcount
      exact hne (List.length_eq_zero_iff.mp hcount.symm)
  | cons first others =>
    have hothers := length_le_weight (others.map schema)
    rw [List.length_map] at hothers
    rw [hpresent, List.map_cons, weight_cons] at hweight
    rw [hpresent, List.length_cons] at hcount
    rw [schema]
    by_cases hnullable : schemaName name = nullableName
    · simp only [if_pos hnullable, forall_prop_of_true hnullable]
      constructor
      · intro heq
        rw [← heq, ← hnullable, List.length_append, List.length_append, List.length_cons,
          List.length_singleton] at hlength
        omega
      · rintro ⟨hmissing, hone⟩
        obtain rfl : others = [] := List.length_eq_zero_iff.mp (by omega)
        rw [positioned, map_schemaOf_of_missing_eq_zero hmissing, hpresent, List.map_singleton,
          join, List.intercalate_singleton, hnullable]
    · simp only [if_neg hnullable, schemas_eq_map]
      rw [and_iff_left fun h => absurd h hnullable]
      constructor
      · intro heq
        have hjoin := length_join (List.cons_ne_nil first.schema (others.map schema))
        rw [weight_cons] at hjoin
        rw [← heq, List.length_append, List.length_append, List.length_cons,
          List.length_singleton] at hlength
        omega
      · intro hmissing
        rw [positioned, map_schemaOf_of_missing_eq_zero hmissing, hpresent, List.map_cons]

/-- **An object with readable arguments is read as a reference whose schema string keeps their
positions, unless one of them is missing.**  The nullable wrapper keeps its first argument only,
also under a name that becomes its own when nested types are separated by dots. -/
theorem schema_named_iff {fields : List (Text × Json)}
    (hkind : kindOf fields = "named".toList)
    (hne : (Json.field "arguments".toList fields).items ≠ [])
    (hitems : ∀ item ∈ (Json.field "arguments".toList fields).items, IsReadable item) :
    ∃ refs, List.Forall₂ (fun item ref => ofJson item = .ok ref)
        (Json.field "arguments".toList fields).items refs ∧
      ∃ ref, ofJson (.object fields) = .ok (some ref) ∧
        (ref.schema = schemaName (nameOf fields) ++ '<' :: join [','] (refs.map schemaOf) ++ ['>'] ↔
          none ∉ refs ∧ (schemaName (nameOf fields) = nullableName → refs.length = 1)) := by
  obtain ⟨refs, hrefs⟩ := mapM_isOk_iff.mpr fun item hitem =>
    (ofJson_isOk_iff item).mpr (hitems item hitem)
  have hload := mapM_eq_ok_iff.mp hrefs
  have hrefs₀ : refs ≠ [] := by
    rintro rfl
    exact hne (List.forall₂_nil_right_iff.mp hload)
  exact ⟨refs, hload, _, ofJson_named hkind hload, schema_named_eq_positioned_iff _ hrefs₀⟩

/-- The fields of a reference to a nested map with the given arguments. -/
def mapFields (arguments : List Json) : List (Text × Json) :=
  [("full_name".toList, .string ("Sandbox.Scene+Map".toList ++ [arityMark, '2'])),
    ("arguments".toList, .array arguments)]

/-- A map from texts to arrays of nothing in particular. -/
theorem schema_named_iff_map :
    let anything := Json.object [("kind".toList, .string "array".toList)]
    let fields := mapFields [.string "System.String".toList, anything]
    kindOf fields = "named".toList ∧ (Json.field "arguments".toList fields).items ≠ [] ∧
      (∀ item ∈ (Json.field "arguments".toList fields).items, IsReadable item) ∧
      ∃ ref, ofJson (.object fields) = .ok (some ref) ∧ ref.schema =
        "Sandbox.Scene.Map".toList ++ [arityMark, '2'] ++ "<System.String,System.Object[]>".toList := by
  intro anything fields
  have htext : ofJson (.string "System.String".toList) =
      .ok (some (.named "System.String".toList [])) := by
    rw [ofJson]
    rfl
  have hanything : ofJson anything = .ok (some (.array none)) := by
    rw [ofJson, if_pos (by decide)]
    show (ofJson .null).map _ = _
    rw [ofJson]
    rfl
  have hload : List.Forall₂ (fun item ref => ofJson item = .ok ref)
      (Json.field "arguments".toList fields).items
      [some (.named "System.String".toList []), some (.array none)] :=
    .cons htext (.cons hanything .nil)
  have hkind : kindOf fields = "named".toList := by decide
  have hne : (Json.field "arguments".toList fields).items ≠ [] := List.cons_ne_nil _ _
  have hreadable : ∀ item ∈ (Json.field "arguments".toList fields).items, IsReadable item := by
    decide +kernel
  obtain ⟨refs, hrefs, ref, href, hiff⟩ := schema_named_iff hkind hne hreadable
  obtain rfl : refs = [some (.named "System.String".toList []), some (.array none)] :=
    Except.ok.inj ((mapM_eq_ok_iff.mpr hrefs).symm.trans (mapM_eq_ok_iff.mpr hload))
  refine ⟨hkind, hne, hreadable, ref, href, ?_⟩
  exact hiff.mpr ⟨by simp, fun hnullable => absurd hnullable (by decide)⟩

/-- **A missing argument leaves its position to the next one.**  A map from anything to integers is
written with integers as its only argument. -/
theorem schema_missing_argument :
    let fields := mapFields [.null, .string "System.Int32".toList]
    let map := "Sandbox.Scene.Map".toList ++ [arityMark, '2']
    positioned (nameOf fields) [none, some (.named "System.Int32".toList [])] =
        map ++ "<System.Object,System.Int32>".toList ∧
      ∃ ref, ofJson (.object fields) = .ok (some ref) ∧
        ref.schema = map ++ "<System.Int32>".toList := by
  intro fields map
  have hload : List.Forall₂ (fun item ref => ofJson item = .ok ref)
      (Json.field "arguments".toList fields).items
      [none, some (.named "System.Int32".toList [])] := by
    refine .cons ?_ (.cons ?_ .nil)
    · rw [ofJson]
    · rw [ofJson]
      rfl
  exact ⟨by decide, _, ofJson_named (by decide) hload, by decide⟩

end TypeRef
end HaxeBindings
