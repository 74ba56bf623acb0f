import HaxeBindings.Catalog.Describe
import HaxeBindings.Catalog.Select
import HaxeBindings.Proofs.Sorted.Selection
import HaxeBindings.Proofs.Text.Characters

/-!
# Catalogs with more in them than is exported

A catalog may hold a lot that is not exported: foreign assemblies, types the host does
not show, members no script can reach.  Here one catalog is compared with another
one that has more of this.

* `Inserted` --- a list with hidden entries put in, at any place;
* `IsHidden` --- for each kind of entry, what keeps it from being exported, as a
  property of what the dump records of it;
* `TypeEntry.Extended`, `Assembly.Extended` --- entries to which hidden ones have been
  added, one level down;
* `describeAll_select_eq` --- the larger catalog gives the same descriptors.

## The argument

Selection and description look at a type only through its exposed part
(`TypeEntry.exposed`).  Hidden entries have none, and an extended type has the exposed
part it had before, so both catalogs have the same list of exposed types, and from
there on nothing else is read.  In particular the choice of the first type for a name
is made among exposed types.
-/

namespace HaxeBindings

open Text Schema

/-! ## Insertion -/

/-- The second list is the first one with hidden entries put in, and with entries that are the same
to an observer in place of those it had. -/
inductive Inserted {α : Type} (hidden : α → Prop) (same : α → α → Prop) : List α → List α → Prop
  | nil : Inserted hidden same [] []
  | keep {x y : α} {xs ys : List α} (h : same x y) (rest : Inserted hidden same xs ys) :
    Inserted hidden same (x :: xs) (y :: ys)
  | insert {y : α} {xs ys : List α} (h : hidden y) (rest : Inserted hidden same xs ys) :
    Inserted hidden same xs (y :: ys)

namespace Inserted

variable {α β : Type} {hidden : α → Prop} {same : α → α → Prop} {xs ys : List α}

protected theorem refl (h : ∀ x, same x x) (xs : List α) : Inserted hidden same xs xs := by
  induction xs with
  | nil => exact .nil
  | cons x xs ih => exact .keep (h x) ih

/-- What a test lets through shows nothing of insertions, when it stops the hidden entries and what
is read of the others is the same. -/
theorem map_filter_eq (h : Inserted hidden same xs ys) {p : α → Bool} {f : α → β}
    (hhidden : ∀ y, hidden y → p y = false)
    (hsame : ∀ x y, same x y → p y = p x ∧ f y = f x) :
    (ys.filter p).map f = (xs.filter p).map f := by
  induction h with
  | nil => rfl
  | @keep x y xs ys hxy rest ih =>
    obtain ⟨hp, hf⟩ := hsame x y hxy
    by_cases hx : p x = true
    · rw [List.filter_cons_of_pos hx, List.filter_cons_of_pos (hp.trans hx), List.map_cons,
        List.map_cons, ih, hf]
    · rw [List.filter_cons_of_neg hx, List.filter_cons_of_neg (hp ▸ hx), ih]
  | @insert y xs ys hy rest ih =>
    rw [List.filter_cons_of_neg (Bool.eq_false_iff.mp (hhidden y hy)), ih]

theorem filter_eq (h : Inserted hidden Eq xs ys) {p : α → Bool}
    (hhidden : ∀ y, hidden y → p y = false) : ys.filter p = xs.filter p := by
  have hmap := h.map_filter_eq (f := id) hhidden fun x y hxy => ⟨hxy ▸ rfl, hxy ▸ rfl⟩
  rwa [List.map_id, List.map_id] at hmap

/-- Reading the entries of a list keeps an insertion, when hidden entries are read as hidden ones and
entries that are the same are read alike. -/
theorem filterMap {hidden' : β → Prop} {same' : β → β → Prop} (h : Inserted hidden same xs ys)
    {f : α → Option β} (hhidden : ∀ y, hidden y → ∀ b, f y = some b → hidden' b)
    (hsame : ∀ x y, same x y → Option.Rel same' (f x) (f y)) :
    Inserted hidden' same' (xs.filterMap f) (ys.filterMap f) := by
  induction h with
  | nil => exact .nil
  | @keep x y xs ys hxy rest ih =>
    have hread := hsame x y hxy
    rw [List.filterMap_cons, List.filterMap_cons]
    generalize f x = a at hread ⊢
    generalize f y = b at hread ⊢
    cases hread with
    | none => exact ih
    | some hab => exact .keep hab ih
  | @insert y xs ys hy rest ih =>
    rw [List.filterMap_cons]
    cases hread : f y with
    | none => exact ih
    | some b => exact .insert (hhidden y hy b hread) ih

end Inserted

namespace Catalog

/-! ## Hidden entries -/

/-- A constructor is hidden when it is static or not public. -/
def ConstructorEntry.IsHidden (c : ConstructorEntry) : Prop :=
  c.isStatic = true ∨ c.visibility ≠ "public".toList

/-- A property is hidden when neither of its accessors is public. -/
def PropertyEntry.IsHidden (p : PropertyEntry) : Prop :=
  p.getter ≠ some "public".toList ∧ p.setter ≠ some "public".toList

/-- A method is hidden when it implements a property or an operator, when another type declares it,
and when it is neither public nor protected. -/
def MethodEntry.IsHidden (owner : Text) (method : MethodEntry) : Prop :=
  method.isSpecialName = true ∨
    (∃ declaring, method.declaringType = some declaring ∧ dotted declaring ≠ dotted owner) ∨
    method.visibility ∉
      ["public".toList, "protected".toList, "protected_internal".toList]

/-- A type is hidden when it is a pointer, not visible, made up by the compiler or of another
namespace. -/
def TypeEntry.IsHidden (root : Text) (t : TypeEntry) : Prop :=
  t.isPointer = true ∨ t.visibility ∉ ["public".toList, "nested_public".toList] ∨
    t.isGenerated = true ∨
    (t.namespaceName ≠ [] ∧ t.namespaceName ≠ root ∧ ¬root ++ ['.'] <+: t.namespaceName)

/-- An assembly is hidden when its name is not below the root namespace, in any case of letters. -/
def Assembly.IsHidden (root : Text) (a : Assembly) : Prop := ¬lower root ++ ['.'] <+: lower a.name

theorem ConstructorEntry.isReachable_of_isHidden {c : ConstructorEntry} (h : c.IsHidden) :
    c.isReachable = false := by
  unfold isReachable isPublic
  rcases h with h | h
  · rw [h, Bool.not_true, Bool.and_false]
  · rw [beq_eq_false_iff_ne.mpr h, Bool.false_and]

theorem PropertyEntry.isReachable_of_isHidden {p : PropertyEntry} (h : p.IsHidden) :
    p.isReachable = false := by
  have haccessor {accessor : Option Text} (hne : accessor ≠ some "public".toList) :
      accessor.any isPublic = false := by
    cases accessor with
    | none => rfl
    | some v => exact beq_eq_false_iff_ne.mpr fun hv => hne (congrArg some hv)
  rw [isReachable, haccessor h.1, haccessor h.2, Bool.or_false]

theorem MethodEntry.isReachable_of_isHidden {owner : Text} {method : MethodEntry}
    (h : method.IsHidden owner) : method.isReachable owner = false := by
  unfold isReachable
  rcases h with h | ⟨declaring, hdeclaring, hne⟩ | h
  · rw [h, Bool.not_true, Bool.false_and, Bool.false_and]
  · have hforeign : (some declaring).all (fun d => dotted d == dotted owner) = false :=
      beq_eq_false_iff_ne.mpr hne
    rw [hdeclaring, hforeign, Bool.and_false, Bool.false_and]
  · simp only [List.mem_cons, List.not_mem_nil, or_false, not_or] at h
    obtain ⟨hpublic, hprotected, hinternal⟩ := h
    rw [isPublic, isProtected, beq_eq_false_iff_ne.mpr hpublic, beq_eq_false_iff_ne.mpr hprotected,
      beq_eq_false_iff_ne.mpr hinternal, Bool.or_false, Bool.or_false, Bool.and_false]

theorem TypeEntry.isExportable_of_isHidden {root : Text} {t : TypeEntry} (h : t.IsHidden root) :
    t.isExportable root = false := by
  unfold isExportable
  rcases h with h | h | h | ⟨hne, hroot, hbelow⟩
  · rw [isShown, h, Bool.not_true, Bool.false_and, Bool.false_and, Bool.false_and]
  · simp only [List.mem_cons, List.not_mem_nil, or_false, not_or] at h
    rw [isShown, beq_eq_false_iff_ne.mpr h.1, beq_eq_false_iff_ne.mpr h.2, Bool.or_false,
      Bool.and_false, Bool.false_and, Bool.false_and]
  · rw [h, Bool.not_true, Bool.and_false, Bool.false_and]
  · have hforeign : (root ++ ['.']).isPrefixOf t.namespaceName = false := by
      rwa [Bool.eq_false_iff, ne_eq, List.isPrefixOf_iff_prefix]
    rw [isWithin, hforeign, beq_eq_false_iff_ne.mpr hroot, List.isEmpty_eq_false_iff.mpr hne,
      Bool.or_false, Bool.or_false, Bool.and_false]

theorem Assembly.isOf_of_isHidden {root : Text} {a : Assembly} (h : a.IsHidden root) :
    a.isOf root = false := by
  rwa [isOf, Bool.eq_false_iff, ne_eq, List.isPrefixOf_iff_prefix, lower_concat_dot]

/-! ## Extended entries -/

namespace TypeEntry

/-- What is recorded of a type apart from its members. -/
def bare (t : TypeEntry) : TypeEntry := { t with constructors := [], properties := [], methods := [] }

/-- The second type is the first one with hidden members put in. -/
structure Extended (t t' : TypeEntry) : Prop where
  bare : t'.bare = t.bare
  constructors : Inserted ConstructorEntry.IsHidden Eq t.constructors t'.constructors
  properties : Inserted PropertyEntry.IsHidden Eq t.properties t'.properties
  methods : Inserted (MethodEntry.IsHidden t.fullName) Eq t.methods t'.methods

protected theorem Extended.refl (t : TypeEntry) : t.Extended t :=
  ⟨rfl, .refl (fun _ => rfl) _, .refl (fun _ => rfl) _, .refl (fun _ => rfl) _⟩

/-- A type with only those of its members that a script can reach. -/
def exposed (t : TypeEntry) : TypeEntry :=
  { t.bare with
    constructors := t.constructors.filter ConstructorEntry.isReachable
    properties := t.properties.filter PropertyEntry.isReachable
    methods := t.methods.filter (MethodEntry.isReachable t.fullName) }

/-- A descriptor is made from the exposed part of a type. -/
theorem describe_exposed (t : TypeEntry) : t.exposed.describe = t.describe := by
  simp only [describe, exposed, bare, canonicalName, List.filter_filter, Bool.and_self]
  rfl

variable {t t' : TypeEntry}

theorem Extended.exposed_eq (h : t.Extended t') : t'.exposed = t.exposed := by
  have hname : t'.fullName = t.fullName := by
    show t'.bare.fullName = t.bare.fullName
    rw [h.bare]
  have hconstructors := h.constructors.filter_eq fun _ => ConstructorEntry.isReachable_of_isHidden
  have hproperties := h.properties.filter_eq fun _ => PropertyEntry.isReachable_of_isHidden
  have hmethods := h.methods.filter_eq fun _ => MethodEntry.isReachable_of_isHidden
  rw [exposed, exposed, hconstructors, hproperties, hname, hmethods, h.bare]

theorem Extended.isExportable_eq (h : t.Extended t') (root : Text) :
    t'.isExportable root = t.isExportable root := by
  show t'.bare.isExportable root = t.bare.isExportable root
  rw [h.bare]

end TypeEntry

/-- The second assembly is the first one with hidden types put in, and with extended types in place
of those it had. -/
structure Assembly.Extended (root : Text) (a a' : Assembly) : Prop where
  name : a'.name = a.name
  types : Inserted (TypeEntry.IsHidden root) TypeEntry.Extended a.types a'.types

protected theorem Assembly.Extended.refl (root : Text) (a : Assembly) : a.Extended root a :=
  ⟨rfl, .refl TypeEntry.Extended.refl _⟩

/-! ## Selection and description -/

/-- The exposed parts of the exportable types, before one is chosen for each name. -/
def exposedTypes (root : Text) (assemblies : List Assembly) : List TypeEntry :=
  ((candidates root assemblies).filter (TypeEntry.isExportable root)).map TypeEntry.exposed

/-- The descriptors of a catalog hang on its exposed types only. -/
theorem describeAll_select (root : Text) (assemblies : List Assembly) :
    describeAll (select root assemblies).value =
      describeAll (Sorted.firstPerKey TypeEntry.fullName (exposedTypes root assemblies)) := by
  have hdescribe (types : List TypeEntry) :
      describeAll (types.map TypeEntry.exposed) = describeAll types := by
    simp only [describeAll, List.map_map, Function.comp_def, TypeEntry.describe_exposed]
  rw [exposedTypes, Sorted.firstPerKey_map, hdescribe]
  rfl

section

variable {root : Text} {assemblies others : List Assembly}

/-- **Insertions do not show in the exposed types.** -/
theorem exposedTypes_eq
    (h : Inserted (Assembly.IsHidden root) (Assembly.Extended root) assemblies others) :
    exposedTypes root others = exposedTypes root assemblies := by
  have hassembly (a a' : Assembly) (ha : a.Extended root a') :
      a'.isOf root = a.isOf root ∧
        (a'.types.filter (TypeEntry.isExportable root)).map TypeEntry.exposed =
          (a.types.filter (TypeEntry.isExportable root)).map TypeEntry.exposed := by
    constructor
    · rw [Assembly.isOf, Assembly.isOf, ha.name]
    · exact ha.types.map_filter_eq (fun _ => TypeEntry.isExportable_of_isHidden)
        fun t t' ht => ⟨ht.isExportable_eq root, ht.exposed_eq⟩
  have hparts := h.map_filter_eq (fun _ => Assembly.isOf_of_isHidden) hassembly
  simp only [exposedTypes, candidates, List.filter_flatMap, List.map_flatMap]
  rw [List.flatMap_def, List.flatMap_def, hparts]

/-- **Hidden entries have no part in the descriptors of a catalog.** -/
theorem describeAll_select_eq
    (h : Inserted (Assembly.IsHidden root) (Assembly.Extended root) assemblies others) :
    describeAll (select root others).value = describeAll (select root assemblies).value := by
  rw [describeAll_select, describeAll_select, exposedTypes_eq h]

end

end Catalog
end HaxeBindings
