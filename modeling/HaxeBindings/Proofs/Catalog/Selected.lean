import HaxeBindings.Proofs.Catalog.Loaded
import HaxeBindings.Proofs.Sorted.Exchange
import HaxeBindings.Proofs.Text.CaseFolding

/-!
# Which types are selected

Of the types that are recorded in a catalog those that qualify are selected, for each full name the
first of them, in the order of the record.  A type qualifies by what is recorded of itself and by
the name of its assembly, which starts with the root namespace and a dot up to the case of letters.

* `Qualifies`, `IsExactSelection` --- the selection, described from the record alone;
* `select_sound`, `select_append` --- what is selected qualifies, has a full name of its own, stands
  in the order of the record, and stays when assemblies are added;
* `select_exact_iff` --- the selection is the described one for every catalog exactly when the
  root namespace has no sigma.

## The argument

A type that does not qualify shadows no other one, since the first type for every name is looked
for among those that qualify (`select_eq`).  The names of assemblies are compared by their
lower-case forms, and that of a capital sigma at the end of the root namespace is not the one it
has in front of a dot and a letter.
-/

namespace HaxeBindings
namespace Catalog

open Text Name

variable {root : Text} {assemblies : List Assembly} {a : Assembly} {t : TypeEntry}

/-- The recorded types, each with the assembly it is recorded in. -/
def recorded (assemblies : List Assembly) : List (Assembly × TypeEntry) :=
  assemblies.flatMap fun a => a.types.map fun t => (a, t)

/-- What makes a type of an assembly one to be exported. -/
structure Qualifies (root : Text) (a : Assembly) (t : TypeEntry) : Prop where
  assembly : folded (root ++ ['.']) <+: folded a.name
  visible : t.visibility = "public".toList ∨ t.visibility = "nested_public".toList
  noPointer : t.isPointer = false
  noFlag : t.compilerGenerated = false
  noGeneratedName : isCompilerGenerated t.name = false
  noGeneratedFullName : isCompilerGenerated t.fullName = false
  within : t.namespaceName = [] ∨ t.namespaceName = root ∨ root ++ ['.'] <+: t.namespaceName

/-- The selected types have different full names, stand in the order of the record and qualify. -/
structure IsSoundSelection (root : Text) (assemblies : List Assembly) (selected : List TypeEntry) :
    Prop where
  once : (selected.map TypeEntry.fullName).Nodup
  ordered : selected.Sublist (assemblies.flatMap Assembly.types)
  qualified : ∀ t ∈ selected, ∃ a ∈ assemblies, t ∈ a.types ∧ Qualifies root a t

/-- The selected types are moreover all those in front of which no type of the same full name
qualifies. -/
structure IsExactSelection (root : Text) (assemblies : List Assembly) (selected : List TypeEntry) :
    Prop extends IsSoundSelection root assemblies selected where
  first : ∀ front a t behind, recorded assemblies = front ++ (a, t) :: behind →
    Qualifies root a t → (∀ x ∈ front, Qualifies root x.1 x.2 → x.2.fullName ≠ t.fullName) →
    t ∈ selected

/-! ## The tests of the selection -/

theorem Assembly.isOf_iff : a.isOf root = true ↔ lower (root ++ ['.']) <+: lower a.name := by
  rw [isOf, List.isPrefixOf_iff_prefix]

theorem TypeEntry.isGenerated_eq_false_iff :
    t.isGenerated = false ↔ t.compilerGenerated = false ∧ isCompilerGenerated t.name = false ∧
      isCompilerGenerated t.fullName = false := by
  rw [isGenerated, Bool.or_eq_false_iff, Bool.or_eq_false_iff, and_assoc]

theorem TypeEntry.isShown_iff :
    t.isShown = true ↔ t.isPointer = false ∧
      (t.visibility = "public".toList ∨ t.visibility = "nested_public".toList) := by
  rw [isShown, Bool.and_eq_true, Bool.or_eq_true, Bool.not_eq_true', beq_iff_eq, beq_iff_eq]

theorem TypeEntry.isWithin_iff :
    t.isWithin root = true ↔
      t.namespaceName = [] ∨ t.namespaceName = root ∨ root ++ ['.'] <+: t.namespaceName := by
  rw [isWithin, Bool.or_eq_true, Bool.or_eq_true, List.isEmpty_iff, beq_iff_eq,
    List.isPrefixOf_iff_prefix, or_assoc]

/-- The tests on a type are what makes it qualify, the name of its assembly apart. -/
theorem qualifies_iff :
    Qualifies root a t ↔ folded (root ++ ['.']) <+: folded a.name ∧ t.isExportable root = true := by
  rw [TypeEntry.isExportable, Bool.and_eq_true, Bool.and_eq_true, Bool.not_eq_true',
    TypeEntry.isShown_iff, TypeEntry.isGenerated_eq_false_iff, TypeEntry.isWithin_iff]
  constructor
  · rintro ⟨hassembly, hvisible, hpointer, hflag, hname, hfull, hwithin⟩
    exact ⟨hassembly, ⟨⟨hpointer, hvisible⟩, hflag, hname, hfull⟩, hwithin⟩
  · rintro ⟨hassembly, ⟨⟨hpointer, hvisible⟩, hflag, hname, hfull⟩, hwithin⟩
    exact ⟨hassembly, hvisible, hpointer, hflag, hname, hfull, hwithin⟩

/-- Whether a recorded type passes the tests. -/
def isSelectable (root : Text) (x : Assembly × TypeEntry) : Bool :=
  x.1.isOf root && x.2.isExportable root

/-- What passes the tests qualifies. -/
theorem qualifies_of_isSelectable {x : Assembly × TypeEntry} (h : isSelectable root x = true) :
    Qualifies root x.1 x.2 := by
  obtain ⟨hof, hexportable⟩ := Bool.and_eq_true_iff.mp h
  exact qualifies_iff.mpr ⟨folded_prefix_of_lower (Assembly.isOf_iff.mp hof), hexportable⟩

/-- For a root namespace without a sigma the tests are exact. -/
theorem isSelectable_of_qualifies (hsigma : smallSigma ∉ folded (root ++ ['.']))
    (h : Qualifies root a t) : isSelectable root (a, t) = true := by
  obtain ⟨hassembly, hexportable⟩ := qualifies_iff.mp h
  exact Bool.and_eq_true_iff.mpr
    ⟨Assembly.isOf_iff.mpr (lower_prefix_of_folded hsigma hassembly), hexportable⟩

/-! ## The record and the selection -/

theorem recorded_append (assemblies more : List Assembly) :
    recorded (assemblies ++ more) = recorded assemblies ++ recorded more :=
  List.flatMap_append

theorem mem_recorded {x : Assembly × TypeEntry} :
    x ∈ recorded assemblies ↔ x.1 ∈ assemblies ∧ x.2 ∈ x.1.types := by
  rw [recorded, List.mem_flatMap]
  constructor
  · rintro ⟨a, ha, hx⟩
    obtain ⟨t, ht, rfl⟩ := List.mem_map.mp hx
    exact ⟨ha, ht⟩
  · rintro ⟨ha, ht⟩
    exact ⟨x.1, ha, List.mem_map.mpr ⟨x.2, ht, rfl⟩⟩

theorem map_snd_recorded (assemblies : List Assembly) :
    (recorded assemblies).map Prod.snd = assemblies.flatMap Assembly.types := by
  rw [recorded, List.map_flatMap]
  refine congrArg (List.flatMap · assemblies) (funext fun a => ?_)
  rw [List.map_map]
  exact List.map_id a.types

theorem filter_candidates (root : Text) (assemblies : List Assembly) :
    (candidates root assemblies).filter (TypeEntry.isExportable root) =
      ((recorded assemblies).filter (isSelectable root)).map Prod.snd := by
  have hassembly (a : Assembly) :
      ((a.types.map fun t => (a, t)).filter (isSelectable root)).map Prod.snd =
        if a.isOf root = true then a.types.filter (TypeEntry.isExportable root) else [] := by
    rw [List.filter_map, List.map_map]
    split
    · next hof =>
      have hsame : isSelectable root ∘ (fun t => (a, t)) = TypeEntry.isExportable root :=
        funext fun t => by rw [Function.comp_apply, isSelectable, hof, Bool.true_and]
      rw [hsame]
      exact List.map_id _
    · next hof =>
      have hnone : isSelectable root ∘ (fun t => (a, t)) = fun _ => false :=
        funext fun t => by
          rw [Function.comp_apply, isSelectable, Bool.eq_false_iff.mpr hof, Bool.false_and]
      rw [hnone, List.filter_false, List.map_nil]
  induction assemblies with
  | nil => rfl
  | cons a assemblies ih =>
    have hcons : recorded (a :: assemblies) =
        (a.types.map fun t => (a, t)) ++ recorded assemblies := List.flatMap_cons
    rw [hcons, List.filter_append, List.map_append, hassembly, ← ih, candidates, candidates,
      List.filter_cons]
    split
    · rw [List.flatMap_cons, List.filter_append]
    · rw [List.nil_append]

/-- **The selection from the record**: of what passes the tests, the first for every full name. -/
theorem select_eq (root : Text) (assemblies : List Assembly) :
    (select root assemblies).value =
      (Sorted.firstPerKey (TypeEntry.fullName ∘ Prod.snd)
        ((recorded assemblies).filter (isSelectable root))).map Prod.snd := by
  rw [select, filter_candidates, Sorted.firstPerKey_map]

/-- **Whatever the root namespace is, the selection is sound.** -/
theorem select_sound (root : Text) (assemblies : List Assembly) :
    IsSoundSelection root assemblies (select root assemblies).value where
  once := Sorted.nodup_map_firstPerKey TypeEntry.fullName _
  ordered := by
    rw [select_eq, ← map_snd_recorded]
    exact ((Sorted.firstPerKey_sublist _ _).trans List.filter_sublist).map Prod.snd
  qualified := by
    intro t ht
    rw [select_eq] at ht
    obtain ⟨x, hx, rfl⟩ := List.mem_map.mp ht
    obtain ⟨hrecorded, hselectable⟩ := List.mem_filter.mp (Sorted.mem_of_mem_firstPerKey hx)
    obtain ⟨ha, hta⟩ := mem_recorded.mp hrecorded
    exact ⟨x.1, ha, hta, qualifies_of_isSelectable hselectable⟩

/-- **Assemblies that are added add to the selection**, at its end. -/
theorem select_append (root : Text) (assemblies more : List Assembly) :
    ∃ added, (select root (assemblies ++ more)).value = (select root assemblies).value ++ added := by
  rw [select_eq, select_eq, recorded_append, List.filter_append, Sorted.firstPerKey_append,
    List.map_append]
  exact ⟨_, rfl⟩

/-- A type that passes the tests is selected when none of its name in front of it qualifies. -/
theorem mem_select_of_first {front behind : List (Assembly × TypeEntry)}
    (hrecorded : recorded assemblies = front ++ (a, t) :: behind)
    (h : isSelectable root (a, t) = true)
    (hfront : ∀ x ∈ front, Qualifies root x.1 x.2 → x.2.fullName ≠ t.fullName) :
    t ∈ (select root assemblies).value := by
  rw [select_eq, hrecorded, List.filter_append, List.filter_cons_of_pos h]
  refine List.mem_map.mpr ⟨(a, t), Sorted.mem_firstPerKey.mpr ?_, rfl⟩
  refine List.find?_eq_some_iff_append.mpr ⟨decide_eq_true rfl, _, _, rfl, ?_⟩
  intro x hx
  obtain ⟨hmem, hselectable⟩ := List.mem_filter.mp hx
  have hne : x.2.fullName ≠ t.fullName := hfront x hmem (qualifies_of_isSelectable hselectable)
  exact (Bool.not_eq_true' _).mpr (decide_eq_false hne)

/-! ## Exactness -/

/-- A public type without members that lives in no namespace. -/
def plainType (fullName assembly : Text) : TypeEntry where
  fullName := fullName
  name := fullName
  namespaceName := []
  visibility := "public".toList
  isPointer := false
  compilerGenerated := false
  genericParameters := []
  constructors := []
  properties := []
  methods := []
  assembly := assembly

/-- An assembly with one plain type. -/
def plainAssembly (name fullName : Text) : Assembly := ⟨name, [plainType fullName name], none⟩

theorem qualifies_plainType {name fullName : Text}
    (hname : folded (root ++ ['.']) <+: folded name)
    (hfull : isCompilerGenerated fullName = false) :
    Qualifies root (plainAssembly name fullName) (plainType fullName name) where
  assembly := hname
  visible := .inl rfl
  noPointer := rfl
  noFlag := rfl
  noGeneratedName := hfull
  noGeneratedFullName := hfull
  within := .inl rfl

/-- Nothing is selected from an assembly whose name differs in lower case. -/
theorem select_plainAssembly_eq_nil {name : Text} (h : ¬lower (root ++ ['.']) <+: lower name)
    (fullName : Text) : (select root [plainAssembly name fullName]).value = [] := by
  have hnot : (plainAssembly name fullName).isOf root = false :=
    Bool.eq_false_iff.mpr (mt Assembly.isOf_iff.mp h)
  rw [select, candidates, List.filter_cons_of_neg (Bool.not_eq_true _ ▸ hnot)]
  rfl

/-- A qualifying type that is alone in the record and not selected. -/
theorem not_isExactSelection_nil {name fullName : Text}
    (h : Qualifies root (plainAssembly name fullName) (plainType fullName name)) :
    ¬IsExactSelection root [plainAssembly name fullName] [] := by
  intro hexact
  have hselected : plainType fullName name ∈ [] :=
    hexact.first [] _ _ [] rfl h fun x hx => absurd hx List.not_mem_nil
  exact List.not_mem_nil hselected

/-- **The selection of types is exact for the root namespaces without a sigma, and for no other.**
It is sound for all of them, and assemblies behind the others add to its end. -/
theorem select_exact_iff (root : Text) :
    (∀ assemblies, IsSoundSelection root assemblies (select root assemblies).value) ∧
      (∀ assemblies more, ∃ added,
        (select root (assemblies ++ more)).value = (select root assemblies).value ++ added) ∧
      ((∀ assemblies, IsExactSelection root assemblies (select root assemblies).value) ↔
        smallSigma ∉ folded root) := by
  have hdotted : smallSigma ∈ folded (root ++ ['.']) ↔ smallSigma ∈ folded root := by
    rw [folded_eq_flatMap, folded_eq_flatMap, List.flatMap_append, List.mem_append]
    exact or_iff_left (by decide +kernel)
  refine ⟨select_sound root, select_append root, fun h hsigma => ?_, fun hsigma assemblies => ?_⟩
  · -- an assembly whose name is that of the root and a dot up to the kind of a small sigma
    obtain ⟨name, hfolded, hlower⟩ := exists_folded_eq_of_sigma (hdotted.mpr hsigma)
    have hqualifies : Qualifies root (plainAssembly name ['A']) (plainType ['A'] name) :=
      qualifies_plainType (hfolded ▸ List.prefix_refl _) (by decide)
    have hexact := h [plainAssembly name ['A']]
    rw [select_plainAssembly_eq_nil hlower] at hexact
    exact not_isExactSelection_nil hqualifies hexact
  · refine ⟨select_sound root assemblies, ?_⟩
    intro front a t behind hrecorded hqualifies hfront
    have hselectable := isSelectable_of_qualifies (mt hdotted.mp hsigma) hqualifies
    exact mem_select_of_first hrecorded hselectable hfront

/-- A root namespace that ends in a capital sigma misses the assemblies that are named after it. -/
theorem select_greek :
    let root := "ΛΟΓΟΣ".toList
    let name := "ΛΟΓΟΣ.Engine".toList
    let fullName := "ΛΟΓΟΣ.Pool".toList
    let assemblies := [plainAssembly name fullName]
    root ++ ['.'] <+: name ∧
      Qualifies root (plainAssembly name fullName) (plainType fullName name) ∧
      (select root assemblies).value = [] ∧
      ¬IsExactSelection root assemblies (select root assemblies).value := by
  intro root name fullName assemblies
  have hname : root ++ ['.'] <+: name := by decide
  have hlower : ¬lower (root ++ ['.']) <+: lower name := by decide +kernel
  have hqualifies : Qualifies root (plainAssembly name fullName) (plainType fullName name) :=
    qualifies_plainType (by decide +kernel) (by decide)
  have hnone : (select root assemblies).value = [] := select_plainAssembly_eq_nil hlower _
  refine ⟨hname, hqualifies, hnone, ?_⟩
  rw [hnone]
  exact not_isExactSelection_nil hqualifies

end Catalog
end HaxeBindings
