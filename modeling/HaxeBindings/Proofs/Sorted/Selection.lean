import HaxeBindings.Sorted
import Mathlib.Data.List.Nodup
import Mathlib.Data.List.Perm.Basic

/-!
# One element per key, in order

Overload sets are reduced in two steps: of the elements with one key the first is
kept, and what is left is sorted.  `select` is the two steps together.  What it
yields is described without them by `IsSelection`: it holds the first element for
every key that occurs, each key once, in strictly ascending order
(`isSelection_select`).

The order may compare less than the keys and may compare more, but it has to tell
different keys apart; `IsOrder` says so.

## Ascending lists

`ofList_pairwise` is the same statement for `Sorted.ofList`, where the elements are
their own keys.
-/

namespace HaxeBindings
namespace Sorted

variable {α κ : Type} [DecidableEq κ] {key : α → κ} {le : α → α → Bool}

/-- A total order by which elements with different keys are different. -/
structure IsOrder (key : α → κ) (le : α → α → Bool) : Prop where
  total : ∀ a b, (le a b || le b a) = true
  trans : ∀ a b c, le a b = true → le b c = true → le a c = true
  antisymm : ∀ a b, le a b = true → le b a = true → key a = key b

/-! ## The first element for a key -/

/-- The elements that are kept are those that are found first under their own key. -/
theorem mem_firstPerKey {x : α} {xs : List α} :
    x ∈ firstPerKey key xs ↔ xs.find? (fun y => key y = key x) = some x := by
  induction xs with
  | nil => simp
  | cons y ys ih =>
    rw [firstPerKey_cons, List.mem_cons, List.mem_filter, ih, List.find?_cons]
    by_cases hkey : key y = key x
    · have hne : ¬decide (key x ≠ key y) = true := by simp [hkey]
      rw [decide_eq_true hkey, Option.some_inj]
      constructor
      · rintro (rfl | ⟨-, h⟩)
        · rfl
        · exact absurd h hne
      · rintro rfl
        exact .inl rfl
    · have hne : decide (key x ≠ key y) = true := by simpa using fun h => hkey h.symm
      rw [decide_eq_false hkey]
      constructor
      · rintro (rfl | ⟨h, -⟩)
        · exact absurd rfl hkey
        · exact h
      · exact fun h => .inr ⟨h, hne⟩

theorem mem_of_mem_firstPerKey {x : α} {xs : List α} (h : x ∈ firstPerKey key xs) : x ∈ xs :=
  List.mem_of_find?_eq_some (mem_firstPerKey.mp h)

theorem exists_mem_firstPerKey (key : α → κ) {y : α} {xs : List α} (h : y ∈ xs) :
    ∃ x ∈ firstPerKey key xs, key x = key y := by
  induction xs with
  | nil => exact absurd h List.not_mem_nil
  | cons z zs ih =>
    rw [firstPerKey_cons]
    by_cases hkey : key z = key y
    · exact ⟨z, List.mem_cons_self, hkey⟩
    · rcases List.mem_cons.mp h with rfl | h
      · exact absurd rfl hkey
      · obtain ⟨x, hx, hxy⟩ := ih h
        have hne : decide (key x ≠ key z) = true := by
          simpa [hxy] using fun h => hkey h.symm
        exact ⟨x, List.mem_cons_of_mem z (List.mem_filter.mpr ⟨hx, hne⟩), hxy⟩

/-- Elements that are their own keys are all kept. -/
theorem mem_firstPerKey_id [DecidableEq α] {x : α} {xs : List α} :
    x ∈ firstPerKey id xs ↔ x ∈ xs := by
  constructor
  · exact mem_of_mem_firstPerKey
  · intro h
    obtain ⟨y, hy, rfl⟩ := exists_mem_firstPerKey id h
    exact hy

theorem nodup_map_firstPerKey (key : α → κ) (xs : List α) :
    ((firstPerKey key xs).map key).Nodup := by
  induction xs with
  | nil => exact List.nodup_nil
  | cons x xs ih =>
    rw [firstPerKey_cons, List.map_cons, List.nodup_cons]
    refine ⟨?_, ih.sublist (List.filter_sublist.map key)⟩
    intro hmem
    obtain ⟨y, hy, hkey⟩ := List.mem_map.mp hmem
    have hne := (List.mem_filter.mp hy).2
    simp [hkey] at hne

/-- What is kept stays in its order. -/
theorem firstPerKey_sublist (key : α → κ) (xs : List α) : (firstPerKey key xs).Sublist xs := by
  induction xs with
  | nil => exact List.Sublist.slnil
  | cons x xs ih =>
    rw [firstPerKey_cons]
    exact (List.filter_sublist.trans ih).cons_cons x

theorem firstPerKey_map {β : Type} (key : β → κ) (f : α → β) (xs : List α) :
    firstPerKey key (xs.map f) = (firstPerKey (key ∘ f) xs).map f := by
  induction xs with
  | nil => rfl
  | cons x xs ih =>
    rw [List.map_cons, firstPerKey_cons, firstPerKey_cons, List.map_cons, ih, List.filter_map]
    rfl

/-! ## Selection -/

/-- The first element for every key, sorted. -/
def select (key : α → κ) (le : α → α → Bool) (xs : List α) : List α :=
  (firstPerKey key xs).mergeSort le

/-- What a selection from `candidates` has to be: the first candidate for every key, each key once,
in ascending order. -/
structure IsSelection (key : α → κ) (lt : α → α → Prop) (candidates selected : List α) : Prop where
  first : ∀ x ∈ selected, candidates.find? (fun y => key y = key x) = some x
  complete : ∀ y ∈ candidates, ∃ x ∈ selected, key x = key y
  once : (selected.map key).Nodup
  ascending : selected.Pairwise lt

theorem mem_select {x : α} {xs : List α} :
    x ∈ select key le xs ↔ xs.find? (fun y => key y = key x) = some x := by
  rw [select, List.mem_mergeSort, mem_firstPerKey]

theorem mem_of_mem_select {x : α} {xs : List α} (h : x ∈ select key le xs) : x ∈ xs :=
  List.mem_of_find?_eq_some (mem_select.mp h)

theorem exists_mem_select (key : α → κ) (le : α → α → Bool) {y : α} {xs : List α} (h : y ∈ xs) :
    ∃ x ∈ select key le xs, key x = key y := by
  obtain ⟨x, hx, hkey⟩ := exists_mem_firstPerKey key h
  exact ⟨x, List.mem_mergeSort.mpr hx, hkey⟩

theorem nodup_map_select (key : α → κ) (le : α → α → Bool) (xs : List α) :
    ((select key le xs).map key).Nodup :=
  ((List.mergeSort_perm (firstPerKey key xs) le).map key).nodup_iff.mpr
    (nodup_map_firstPerKey key xs)

/-- **Keeping the first element for every key and sorting is a selection.** -/
theorem isSelection_select {lt : α → α → Prop} (hle : IsOrder key le)
    (hlt : ∀ a b, le a b = true → key a ≠ key b → lt a b) (xs : List α) :
    IsSelection key lt xs (select key le xs) where
  first _ hx := mem_select.mp hx
  complete _ hy := exists_mem_select key le hy
  once := nodup_map_select key le xs
  ascending := by
    have hsorted := List.pairwise_mergeSort hle.trans hle.total (firstPerKey key xs)
    have honce := List.pairwise_map.mp (nodup_map_select key le xs)
    exact hsorted.imp₂ (fun a b hab hkey => hlt a b hab hkey) honce

theorem select_map {β : Type} (key : β → κ) (le : β → β → Bool) (f : α → β) (xs : List α) :
    select key le (xs.map f) = (select (key ∘ f) (fun a b => le (f a) (f b)) xs).map f := by
  rw [select, select, firstPerKey_map]
  exact (List.map_mergeSort (r := fun a b => le (f a) (f b)) fun _ _ _ _ => rfl).symm

/-! ## Ascending lists -/

section

variable [DecidableEq α]

/-- What `insert` keeps: each element is below the later ones, and none occurs twice. -/
theorem insert_pairwise (hle : IsOrder id le) (x : α) {ys : List α}
    (h : ys.Pairwise fun a b => le a b = true ∧ a ≠ b) :
    (insert le x ys).Pairwise fun a b => le a b = true ∧ a ≠ b := by
  induction ys with
  | nil => exact List.pairwise_singleton _ x
  | cons y ys ih =>
    obtain ⟨hy, hys⟩ := List.pairwise_cons.mp h
    unfold insert
    split
    · exact h
    · next hxy =>
      split
      · next hle₁ =>
        refine List.pairwise_cons.mpr ⟨?_, h⟩
        intro z hz
        rcases List.mem_cons.mp hz with rfl | hz
        · exact ⟨hle₁, hxy⟩
        · refine ⟨hle.trans x y z hle₁ (hy z hz).1, ?_⟩
          rintro rfl
          exact hxy (hle.antisymm x y hle₁ (hy x hz).1)
      · next hle₁ =>
        refine List.pairwise_cons.mpr ⟨?_, ih hys⟩
        intro z hz
        rcases (mem_insert le).mp hz with rfl | hz
        · have htotal := hle.total z y
          rw [Bool.or_eq_true] at htotal
          exact ⟨htotal.resolve_left hle₁, fun heq => hxy heq.symm⟩
        · exact hy z hz

/-- **`ofList` is strictly ascending.** -/
theorem ofList_pairwise (hle : IsOrder id le) (xs : List α) :
    (ofList le xs).Pairwise fun a b => le a b = true ∧ a ≠ b := by
  induction xs with
  | nil => exact List.Pairwise.nil
  | cons x xs ih => exact insert_pairwise hle x ih

end

end Sorted
end HaxeBindings
