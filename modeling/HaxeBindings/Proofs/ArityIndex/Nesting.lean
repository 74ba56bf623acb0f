import HaxeBindings.Proofs.ArityIndex.Definitions
import HaxeBindings.Proofs.Schema.Arguments
import HaxeBindings.Proofs.Schema.Arity

/-!
# Whose parameters the index records

A definition is recorded under what stands in front of the first mark of its base
name.  For a type that is not nested that is its own name.  The name of a type that
is nested in a generic type goes on behind the first mark, with a dot and the
components of the nested type, and it is recorded under the name of the enclosing
type as well.

* `Descriptor.Defines` --- a definition of a base: its name is the base, alone or with
  a marker behind it;
* `Descriptor.DefinesInside` --- a definition nested in a type with that base;
* `arities_ofTypes_iff` --- the arities of a base are those of the definitions of both
  kinds, so they are those of the first kind exactly when each of the second kind has
  one of the first with as many parameters beside it;
* `arities_ofTypes_nested` --- a nested definition for which there is none.
-/

namespace HaxeBindings

open Text Schema

/-! ## Definitions of a base -/

namespace Descriptor

/-- A generic definition with `n` parameters. -/
def HasArity (d : Descriptor) (n : Int) : Prop :=
  d.genericParameters ≠ [] ∧ (d.genericParameters.length : Int) = n

instance (d : Descriptor) (n : Int) : Decidable (d.HasArity n) :=
  inferInstanceAs (Decidable (_ ∧ _))

/-- A definition of `base` with `n` parameters.  A marker has no dot in it. -/
structure Defines (d : Descriptor) (base : Text) (n : Int) : Prop where
  hasArity : d.HasArity n
  named : d.baseName = base ∨ ∃ marker, '.' ∉ marker ∧ d.baseName = base ++ arityMark :: marker

/-- A definition with `n` parameters that is nested in a generic type with the name `base`. -/
structure DefinesInside (d : Descriptor) (base : Text) (n : Int) : Prop where
  hasArity : d.HasArity n
  nested : ∃ inner, '.' ∈ inner ∧ d.baseName = base ++ arityMark :: inner

variable {d : Descriptor} {base : Text} {n : Int}

/-- Cutting at the first mark leaves a base for the definitions of both kinds. -/
theorem before_mark_eq_iff (hmark : arityMark ∉ base) :
    d.HasArity n ∧ before arityMark d.baseName = base ↔
      d.Defines base n ∨ d.DefinesInside base n := by
  rw [before_eq_iff hmark]
  constructor
  · rintro ⟨harity, hname | ⟨rest, hname⟩⟩
    · exact .inl ⟨harity, .inl hname⟩
    · by_cases hdot : '.' ∈ rest
      · exact .inr ⟨harity, rest, hdot, hname⟩
      · exact .inl ⟨harity, .inr ⟨rest, hdot, hname⟩⟩
  · rintro (⟨harity, hname | ⟨marker, -, hname⟩⟩ | ⟨harity, inner, -, hname⟩)
    · exact ⟨harity, .inl hname⟩
    · exact ⟨harity, .inr ⟨marker, hname⟩⟩
    · exact ⟨harity, .inr ⟨inner, hname⟩⟩

end Descriptor

/-! ## What is recorded -/

namespace ArityIndex

variable {types : List Descriptor} {index : ArityIndex} {base : Text} {n : Int}

/-- What a descriptor contributes once its marker can be read. -/
theorem contributed_eq_some_iff {d : Descriptor} (h : definition? d = .ok (contributed d)) :
    contributed d = some (base, n) ↔
      base ≠ [] ∧ d.HasArity n ∧ before arityMark d.baseName = base := by
  unfold definition? at h
  split at h
  · next hgeneric =>
    obtain ⟨⟨front, marker⟩, hsplit, hread⟩ := bind_eq_ok h
    have hne : d.genericParameters ≠ [] := by
      simpa [Descriptor.isGenericDefinition] using hgeneric
    obtain rfl := splitArity_eq_ok hsplit
    rw [← Except.ok.inj hread, Descriptor.HasArity]
    by_cases hfront : before arityMark d.baseName = []
    · rw [hfront]
      refine iff_of_false (fun hnone => nomatch hnone) ?_
      rintro ⟨hbase, -, hnil⟩
      exact hbase hnil.symm
    · rw [if_neg (by simpa using hfront), Option.some_inj, Prod.mk.injEq]
      constructor
      · rintro ⟨rfl, hn⟩
        exact ⟨hfront, ⟨hne, hn⟩, rfl⟩
      · rintro ⟨-, ⟨-, hn⟩, hbase⟩
        exact ⟨hbase, hn⟩
  · next hplain =>
    rw [← Except.ok.inj h]
    refine iff_of_false (fun hnone => nomatch hnone) ?_
    rintro ⟨-, ⟨hne, -⟩, -⟩
    exact hplain (by simpa [Descriptor.isGenericDefinition] using hne)

theorem mem_aritiesAmong {definitions : List (Text × Int)} :
    n ∈ aritiesAmong base definitions ↔ (base, n) ∈ definitions := by
  simp [aritiesAmong]

/-- The arities of a base are those of the definitions, nested or not, whose names go in front of
the first mark by that base. -/
theorem mem_arities_ofTypes (h : ofTypes types = .ok index) (hbase : base ≠ [])
    (hmark : arityMark ∉ base) :
    n ∈ index.arities base ↔ ∃ d ∈ types, d.Defines base n ∨ d.DefinesInside base n := by
  rw [arities_ofTypes h, normalize, Sorted.mem_ofList, mem_aritiesAmong, List.mem_filterMap]
  refine exists_congr fun d => and_congr_right fun hd => ?_
  rw [contributed_eq_some_iff (definition?_of_ofTypes h d hd), ← Descriptor.before_mark_eq_iff hmark,
    and_iff_right hbase]

/-- **What the arities of a base are.**  They are those of the definitions of that base and of the
definitions nested in a type with that base.  So they are those of the former alone, for every base,
exactly when every nested definition has beside it one of the enclosing base with as many
parameters. -/
theorem arities_ofTypes_iff (h : ofTypes types = .ok index) :
    (∀ base, base ≠ [] → arityMark ∉ base → ∀ n,
      n ∈ index.arities base ↔ ∃ d ∈ types, d.Defines base n ∨ d.DefinesInside base n) ∧
    ((∀ base, base ≠ [] → arityMark ∉ base → ∀ n,
        n ∈ index.arities base ↔ ∃ d ∈ types, d.Defines base n) ↔
      ∀ base, base ≠ [] → arityMark ∉ base → ∀ n, ∀ d ∈ types, d.DefinesInside base n →
        ∃ e ∈ types, e.Defines base n) := by
  refine ⟨fun base hbase hmark n => mem_arities_ofTypes h hbase hmark, ?_⟩
  refine forall_congr' fun base => forall₂_congr fun hbase hmark => forall_congr' fun n => ?_
  rw [mem_arities_ofTypes h hbase hmark]
  constructor
  · exact fun hdefined d hd hinside => hdefined.mp ⟨d, hd, .inr hinside⟩
  · intro hbeside
    constructor
    · rintro ⟨d, hd, hdefines | hinside⟩
      · exact ⟨d, hd, hdefines⟩
      · exact hbeside d hd hinside
    · rintro ⟨d, hd, hdefines⟩
      exact ⟨d, hd, .inl hdefines⟩

/-- A nested type that repeats the parameter of the type around it brings in no arity. -/
theorem arities_ofTypes_iff_pool :
    let pool : Descriptor :=
      { fullName := "Sandbox.Pool".toList ++ [arityMark, '1'] ++ "<T>".toList
        genericParameters := [['T']] }
    let entry : Descriptor :=
      { fullName := "Sandbox.Pool".toList ++ arityMark :: "1.Entry".toList ++ "<T>".toList
        genericParameters := [['T']] }
    let types := [pool, entry]
    let base := "Sandbox.Pool".toList
    ∃ index, ofTypes types = .ok index ∧ entry.DefinesInside base 1 ∧ index.arities base = [1] ∧
      ∀ n, n ∈ index.arities base ↔ ∃ d ∈ types, d.Defines base n := by
  intro pool entry types base
  have hpool : pool.baseName = base ++ arityMark :: ['1'] := by decide +kernel
  have hentry : entry.baseName = base ++ arityMark :: "1.Entry".toList := by decide +kernel
  have hdefines : pool.Defines base 1 := ⟨by decide, .inr ⟨['1'], by decide, hpool⟩⟩
  have hinside : entry.DefinesInside base 1 := ⟨by decide, _, by decide, hentry⟩
  obtain ⟨index, h, harities⟩ : ∃ index, ofTypes types = .ok index ∧ index.arities base = [1] :=
    ⟨⟨[(base, [1])]⟩, by decide +kernel, by decide⟩
  refine ⟨index, h, hinside, harities,
    (arities_ofTypes_iff h).2.mpr ?_ base (by decide) (by decide)⟩
  intro other hother hmark n d hd hnested
  obtain ⟨harity, hbefore⟩ := (Descriptor.before_mark_eq_iff hmark).mpr (.inr hnested)
  rcases List.mem_cons.mp hd with rfl | hd
  · -- the name of a type that is not nested ends with its marker
    obtain ⟨inner, hdot, hname⟩ := hnested.nested
    rw [hpool, before_append_cons (by decide)] at hbefore
    rw [hpool, ← hbefore] at hname
    rw [← (List.cons.inj (List.append_cancel_left hname)).2] at hdot
    exact absurd hdot (by decide)
  · obtain rfl := List.mem_singleton.mp hd
    rw [hentry, before_append_cons (by decide)] at hbefore
    rw [← hbefore, ← harity.2]
    exact ⟨pool, List.mem_cons_self, hdefines⟩

/-- **The parameters of a nested type can be recorded as an arity of the type around it.** -/
theorem arities_ofTypes_nested :
    let pool : Descriptor :=
      { fullName := "Sandbox.Pool".toList ++ [arityMark, '1'] ++ "<T>".toList
        genericParameters := [['T']] }
    let entry : Descriptor :=
      { fullName := "Sandbox.Pool".toList ++ arityMark :: "1.Entry".toList ++ [arityMark, '1'] ++
          "<T,U>".toList
        genericParameters := [['T'], ['U']] }
    let types := [pool, entry]
    let base := "Sandbox.Pool".toList
    ∃ index, ofTypes types = .ok index ∧ entry.DefinesInside base 2 ∧ 2 ∈ index.arities base ∧
      ¬∃ d ∈ types, d.Defines base 2 := by
  intro pool entry types base
  have hname : entry.baseName = base ++ arityMark :: ("1.Entry".toList ++ [arityMark, '1']) := by
    decide +kernel
  refine ⟨⟨[(base, [1, 2])]⟩, by decide +kernel, ⟨by decide, _, by decide, hname⟩, by decide, ?_⟩
  rintro ⟨d, hd, hdefines⟩
  rcases List.mem_cons.mp hd with rfl | hd
  · exact absurd hdefines.hasArity (by decide)
  · obtain rfl := List.mem_singleton.mp hd
    rcases hdefines.named with hbare | ⟨marker, hdot, hmarked⟩
    · exact absurd hbare (by decide +kernel)
    · have hmarker := List.append_cancel_left (hname.symm.trans hmarked)
      rw [← (List.cons.inj hmarker).2] at hdot
      exact hdot (by decide)

end ArityIndex
end HaxeBindings
