import HaxeBindings.Text.Basic

/-!
# Sorted lists without repetitions

Sets that show in the output are written in ascending order.  `Sorted.ofList`
builds such a list by insertion, with the order given as a test.

`firstPerKey` is the other way repetitions vanish: of the elements with one key
it keeps the first, in place.
-/

namespace HaxeBindings
namespace Sorted

variable {α κ : Type} [DecidableEq α] [DecidableEq κ]

/-- Puts an element in its place unless it is there already. -/
def insert (le : α → α → Bool) (x : α) : List α → List α
  | [] => [x]
  | y :: ys => if x = y then y :: ys else if le x y then x :: y :: ys else y :: insert le x ys

/-- The elements of a list in ascending order, each once. -/
def ofList (le : α → α → Bool) (xs : List α) : List α := xs.foldr (insert le) []

/-- The first element for each key, in the order of their occurrence. -/
def firstPerKey {β : Type} (key : β → κ) : List β → List β
  | [] => []
  | x :: xs => x :: (firstPerKey key xs).filter fun y => key y ≠ key x

@[simp] theorem mem_insert (le : α → α → Bool) {x y : α} {xs : List α} :
    y ∈ insert le x xs ↔ y = x ∨ y ∈ xs := by
  induction xs with
  | nil => simp [insert]
  | cons z zs ih =>
    unfold insert
    split
    · next h => subst h; simp
    · split
      · simp
      · simp [ih, or_left_comm]

@[simp] theorem mem_ofList (le : α → α → Bool) {y : α} {xs : List α} :
    y ∈ ofList le xs ↔ y ∈ xs := by
  induction xs with
  | nil => simp [ofList]
  | cons x xs ih => simp only [ofList, List.foldr_cons, mem_insert, List.mem_cons] at ih ⊢; rw [ih]

@[simp] theorem firstPerKey_nil {β : Type} (key : β → κ) : firstPerKey key [] = [] := rfl

theorem firstPerKey_cons {β : Type} (key : β → κ) (x : β) (xs : List β) :
    firstPerKey key (x :: xs) = x :: (firstPerKey key xs).filter fun y => key y ≠ key x := rfl

end Sorted
end HaxeBindings
