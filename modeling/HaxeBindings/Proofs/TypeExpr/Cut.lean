import HaxeBindings.TypeExpr.Basic
import Mathlib.Data.List.Basic

/-!
# Trees that are cut off

The reader goes a number of levels deep and erases what lies deeper.  `cut` does so to
a tree: below the given number of levels there is nothing but the root object type.  A
tree that is not higher is not changed (`cut_eq_self`), and whether it was can be told
from what is left (`height_cut_lt_iff`).  No name comes in but that of the root object
type (`mem_names_cut`).
-/

namespace HaxeBindings
namespace TypeExpr

open Text Schema

/-- The expression with the root object type in place of what lies deeper than its first `levels`
levels. -/
def cut : Nat → TypeExpr → TypeExpr
  | 0, _ => object
  | levels + 1, .array element => .array (cut levels element)
  | levels + 1, .nullable inner => .nullable (cut levels inner)
  | levels + 1, .named name arguments => .named name (arguments.map (cut levels))
  | _ + 1, e => e

mutual

/-- The names that stand in an expression, from left to right. -/
def names : TypeExpr → List Text
  | .primitive keyword => [keyword]
  | .array element => element.names
  | .nullable inner => inner.names
  | .named name arguments => name :: namesOfAll arguments
  | .parameter name => [name]
  | .unclassified => []

/-- The names that stand in a list of expressions. -/
def namesOfAll : List TypeExpr → List Text
  | [] => []
  | e :: es => e.names ++ namesOfAll es

end

theorem namesOfAll_eq_flatMap (es : List TypeExpr) : namesOfAll es = es.flatMap names := by
  induction es with
  | nil => rfl
  | cons e es ih => rw [namesOfAll, ih, List.flatMap_cons]

theorem mem_names_of_mem {name base : Text} {e : TypeExpr} {es : List TypeExpr} (he : e ∈ es)
    (h : name ∈ e.names) : name ∈ (named base es).names := by
  rw [names, namesOfAll_eq_flatMap]
  exact List.mem_cons_of_mem base (List.mem_flatMap.mpr ⟨e, he, h⟩)

/-! ## Height -/

theorem height_le_maxHeight {e : TypeExpr} {es : List TypeExpr} (h : e ∈ es) :
    e.height ≤ maxHeight es := by
  induction es with
  | nil => exact absurd h List.not_mem_nil
  | cons d es ih =>
    rw [maxHeight]
    rcases List.mem_cons.mp h with rfl | h
    · exact Nat.le_max_left _ _
    · exact Nat.le_trans (ih h) (Nat.le_max_right _ _)

theorem height_lt_of_mem {name : Text} {e : TypeExpr} {es : List TypeExpr} (h : e ∈ es) :
    e.height < (named name es).height := by
  cases es with
  | nil => exact absurd h List.not_mem_nil
  | cons first others =>
    rw [height]
    have := height_le_maxHeight h
    rw [maxHeight] at this
    omega

theorem maxHeight_lt {es : List TypeExpr} {n : Nat} (hn : 0 < n) (h : ∀ e ∈ es, e.height < n) :
    maxHeight es < n := by
  induction es with
  | nil => exact hn
  | cons e es ih =>
    obtain ⟨he, hes⟩ := List.forall_mem_cons.mp h
    rw [maxHeight]
    exact Nat.max_lt.mpr ⟨he, ih hes⟩

theorem height_named_lt_iff {name : Text} {arguments : List TypeExpr} {n : Nat} :
    (named name arguments).height < n + 1 ↔ ∀ a ∈ arguments, a.height < n := by
  constructor
  · intro h a ha
    have hlower : a.height < (named name arguments).height := height_lt_of_mem ha
    omega
  · intro h
    cases arguments with
    | nil => exact Nat.succ_pos n
    | cons first others =>
      have hpos : 0 < n := Nat.zero_lt_of_lt (h first List.mem_cons_self)
      exact Nat.succ_lt_succ (maxHeight_lt hpos h)

/-- A tree that is not higher than the cut is whole behind it. -/
theorem cut_eq_self {levels : Nat} {e : TypeExpr} (h : e.height < levels) : cut levels e = e := by
  induction levels generalizing e with
  | zero => exact absurd h (Nat.not_lt_zero _)
  | succ levels ih =>
    cases e with
    | array element =>
      rw [height] at h
      rw [cut, ih (by omega)]
    | nullable inner =>
      rw [height] at h
      rw [cut, ih (by omega)]
    | named name arguments =>
      have harguments : arguments.map (cut levels) = arguments := by
        conv_rhs => rw [← List.map_id arguments]
        refine List.map_congr_left fun a ha => ih ?_
        have hheight : a.height < (named name arguments).height := height_lt_of_mem ha
        omega
      rw [cut, harguments]
    | primitive keyword => rfl
    | parameter name => rfl
    | unclassified => rfl

/-- No node of a tree that is cut off lies below the cut. -/
theorem height_cut_le (levels : Nat) (e : TypeExpr) : (cut levels e).height ≤ levels := by
  induction levels generalizing e with
  | zero => exact Nat.le_refl 0
  | succ levels ih =>
    cases e with
    | array element => exact Nat.succ_le_succ (ih element)
    | nullable inner => exact Nat.succ_le_succ (ih inner)
    | named name arguments =>
      rw [cut, ← Nat.lt_succ_iff, height_named_lt_iff, List.forall_mem_map]
      exact fun a _ => Nat.lt_succ_of_le (ih a)
    | _ => exact Nat.zero_le _

/-- Behind the cut a tree is lower than the cut exactly when nothing was cut off. -/
theorem height_cut_lt_iff {levels : Nat} {e : TypeExpr} :
    (cut levels e).height < levels ↔ e.height < levels := by
  induction levels generalizing e with
  | zero => exact iff_of_false (Nat.not_lt_zero _) (Nat.not_lt_zero _)
  | succ levels ih =>
    cases e with
    | array element =>
      rw [cut, height, height, Nat.succ_lt_succ_iff, Nat.succ_lt_succ_iff, ih]
    | nullable inner =>
      rw [cut, height, height, Nat.succ_lt_succ_iff, Nat.succ_lt_succ_iff, ih]
    | named name arguments =>
      rw [cut, height_named_lt_iff, height_named_lt_iff, List.forall_mem_map]
      exact forall₂_congr fun a _ => ih
    | _ => rfl

/-! ## Names -/

theorem mem_names_cut {levels : Nat} {e : TypeExpr} {name : Text}
    (h : name ∈ (cut levels e).names) :
    name = objectName ∨ name ∈ e.names := by
  induction levels generalizing e with
  | zero => exact .inl (List.mem_singleton.mp h)
  | succ levels ih =>
    cases e with
    | array element => exact ih (e := element) h
    | nullable inner => exact ih (e := inner) h
    | named base arguments =>
      rw [cut, names, namesOfAll_eq_flatMap] at h
      rcases List.mem_cons.mp h with rfl | h
      · exact .inr List.mem_cons_self
      · obtain ⟨e, he, h⟩ := List.mem_flatMap.mp h
        obtain ⟨a, ha, rfl⟩ := List.mem_map.mp he
        exact (ih h).imp_right fun h => mem_names_of_mem ha h
    | primitive keyword => exact .inr h
    | parameter name => exact .inr h
    | unclassified => exact .inr h

end TypeExpr
end HaxeBindings
