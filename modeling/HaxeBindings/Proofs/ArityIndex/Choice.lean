import HaxeBindings.Proofs.ArityIndex.Definitions
import Mathlib.Order.Bounds.Basic

/-!
# Which arity an upgrade gives

A base may be recorded with several arities, and an occurrence without arguments says
nothing about which of them is meant.

* `IsChosen` --- the rule: as many arguments as the surrounding method has generic
  parameters, when that is recorded, and otherwise as few as possible;
* `mem_arities`, `mem_arities_ofEntries` --- what an index knows of a base was recorded
  for it;
* `pairwise_arities_ofEntries`, `knows_ofEntries_iff` --- it is in ascending order, and
  there is something for every base that is known;
* `exists_chooseArity?` --- so the rule gives every known base an arity.
-/

namespace HaxeBindings

open Text

namespace ArityIndex

/-- The arity that a base is given inside a method with a number of generic parameters. -/
def IsChosen (index : ArityIndex) (base : Text) (generics : Nat) (arity : Int) : Prop :=
  if 0 < generics ∧ (generics : Int) ∈ index.arities base then arity = generics
  else IsLeast {a | a ∈ index.arities base} arity

variable {index : ArityIndex} {entries : List (Text × List Int)} {base : Text}

/-! ## Recorded arities -/

/-- What is known of a base stands in one of the entries. -/
theorem exists_entry_of_knows (h : index.knows base = true) :
    ∃ e ∈ index.entries, e.1 = base ∧ index.arities base = e.2 := by
  obtain ⟨known, hlookup⟩ := Option.isSome_iff_exists.mp h
  obtain ⟨front, rest, hentries, -⟩ := List.lookup_eq_some_iff.mp hlookup
  refine ⟨(base, known), hentries ▸ List.mem_append_right front List.mem_cons_self, rfl, ?_⟩
  rw [arities, hlookup, Option.getD_some]

theorem knows_of_mem {a : Int} (h : a ∈ index.arities base) : index.knows base = true := by
  rw [knows, Option.isSome_iff_ne_none]
  intro hnone
  rw [arities, hnone] at h
  exact absurd h List.not_mem_nil

theorem mem_arities {a : Int} (h : a ∈ index.arities base) :
    ∃ e ∈ index.entries, e.1 = base ∧ a ∈ e.2 := by
  obtain ⟨e, he, hbase, harities⟩ := exists_entry_of_knows (knows_of_mem h)
  exact ⟨e, he, hbase, harities ▸ h⟩

theorem mem_ofEntries {e : Text × List Int} (h : e ∈ (ofEntries entries).entries) :
    ∃ recorded, (e.1, recorded) ∈ entries ∧ recorded ≠ [] ∧ e.2 = normalize recorded := by
  obtain ⟨⟨base, recorded⟩, hmem, rfl⟩ := List.mem_map.mp h
  obtain ⟨hmem, hne⟩ := List.mem_filter.mp hmem
  exact ⟨recorded, hmem, by simpa using hne, rfl⟩

/-- What an index knows of a base was recorded for it. -/
theorem mem_arities_ofEntries {a : Int} (h : a ∈ (ofEntries entries).arities base) :
    ∃ e ∈ entries, e.1 = base ∧ a ∈ e.2 := by
  obtain ⟨e, he, rfl, ha⟩ := mem_arities h
  obtain ⟨recorded, hmem, -, hrecorded⟩ := mem_ofEntries he
  rw [hrecorded] at ha
  exact ⟨_, hmem, rfl, (Sorted.mem_ofList _).mp ha⟩

/-- The arities of a base are in ascending order. -/
theorem pairwise_arities_ofEntries (entries : List (Text × List Int)) (base : Text) :
    ((ofEntries entries).arities base).Pairwise (· < ·) := by
  by_cases hne : (ofEntries entries).arities base = []
  · rw [hne]
    exact List.Pairwise.nil
  · obtain ⟨a, ha⟩ := List.exists_mem_of_ne_nil _ hne
    obtain ⟨e, he, -, harities⟩ := exists_entry_of_knows (knows_of_mem ha)
    obtain ⟨recorded, -, -, hrecorded⟩ := mem_ofEntries he
    rw [harities, hrecorded]
    refine (Sorted.ofList_pairwise isOrder_le recorded).imp ?_
    rintro a b ⟨hle, hne⟩
    exact lt_of_le_of_ne (of_decide_eq_true hle) hne

/-- A base is known when there is an arity of it. -/
theorem knows_ofEntries_iff :
    (ofEntries entries).knows base = true ↔ (ofEntries entries).arities base ≠ [] := by
  constructor
  · intro h
    obtain ⟨e, he, -, harities⟩ := exists_entry_of_knows h
    obtain ⟨recorded, -, hne, hrecorded⟩ := mem_ofEntries he
    obtain ⟨a, ha⟩ := List.exists_mem_of_ne_nil recorded hne
    rw [harities, hrecorded]
    exact List.ne_nil_of_mem ((Sorted.mem_ofList _).mpr ha)
  · intro h
    obtain ⟨a, ha⟩ := List.exists_mem_of_ne_nil _ h
    exact knows_of_mem ha

/-! ## The choice -/

theorem chooseArity?_eq_none_iff {generics : Int} :
    index.chooseArity? base generics = none ↔ index.arities base = [] := by
  unfold chooseArity?
  simp only
  split
  · next hknown => exact iff_of_false (Option.some_ne_none _) (List.ne_nil_of_mem hknown.2)
  · exact List.head?_eq_none_iff

/-- A base that is not known is given none. -/
theorem chooseArity?_ofEntries_eq_none_iff {generics : Int} :
    (ofEntries entries).chooseArity? base generics = none ↔
      (ofEntries entries).knows base = false := by
  rw [chooseArity?_eq_none_iff, Bool.eq_false_iff, Ne, knows_ofEntries_iff, not_not]

theorem mem_of_chooseArity? {generics arity : Int}
    (h : index.chooseArity? base generics = some arity) :
    arity ∈ index.arities base := by
  unfold chooseArity? at h
  simp only at h
  split at h
  · next hknown => exact Option.some_inj.mp h ▸ hknown.2
  · exact List.mem_of_head? h

theorem isChosen_of_chooseArity? (hsorted : (index.arities base).Pairwise (· < ·)) {generics : Nat}
    {arity : Int} (h : index.chooseArity? base generics = some arity) :
    index.IsChosen base generics arity := by
  have hmem := mem_of_chooseArity? h
  unfold chooseArity? at h
  simp only [Int.natCast_pos] at h
  unfold IsChosen
  split at h
  · next hknown => rw [if_pos hknown, ← Option.some_inj.mp h]
  · next hunknown =>
    rw [if_neg hunknown]
    refine ⟨hmem, fun a ha => ?_⟩
    obtain ⟨others, hothers⟩ := List.head?_eq_some_iff.mp h
    rw [Set.mem_ofPred_eq, hothers] at ha
    rw [hothers] at hsorted
    rcases List.mem_cons.mp ha with rfl | ha
    · exact Int.le_refl a
    · exact Int.le_of_lt (List.rel_of_pairwise_cons hsorted ha)

/-- **Every known base is given an arity**, and by the rule. -/
theorem exists_chooseArity? (hpositive : ∀ e ∈ entries, ∀ a ∈ e.2, 0 < a)
    (h : (ofEntries entries).knows base = true) (generics : Nat) :
    ∃ arity : Nat, 0 < arity ∧ (ofEntries entries).chooseArity? base generics = some (arity : Int) ∧
      (ofEntries entries).IsChosen base generics arity := by
  cases hchoice : (ofEntries entries).chooseArity? base generics with
  | none =>
    rw [chooseArity?_ofEntries_eq_none_iff, h] at hchoice
    exact nomatch hchoice
  | some arity =>
    obtain ⟨e, he, -, hmem⟩ := mem_arities_ofEntries (mem_of_chooseArity? hchoice)
    obtain ⟨n, rfl⟩ := Int.eq_ofNat_of_zero_le (Int.le_of_lt (hpositive e he arity hmem))
    have hchosen := isChosen_of_chooseArity? (pairwise_arities_ofEntries entries base) hchoice
    exact ⟨n, Int.natCast_pos.mp (hpositive e he n hmem), rfl, hchosen⟩

end ArityIndex
end HaxeBindings
