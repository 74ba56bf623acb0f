import HaxeBindings.Schema.Name
import HaxeBindings.Proofs.Schema.Arguments
import HaxeBindings.Proofs.Traversal
import Mathlib.Data.List.TakeWhile

/-!
# Which arity markers can be read

The text behind the first mark of a name is not read unless all of it is digits,
and a run of digits is read by the values of its digits.  So reading fails for
two kinds of names only: with a digit that has no positional value, and with more
digits than are read as a number.

* `HasReadableArity` --- the text behind the mark is none of the two;
* `splitArity_isOk_iff` --- these are the names whose marker can be read;
* `splitArity_ofNat` --- a number that was written as a marker is read back, if it is
  read at all.
-/

namespace HaxeBindings
namespace Schema

open Text

/-- If the text behind the mark is a run of digits, then all of them are decimal and there are not
too many. -/
def HasReadableArity (name : Text) : Prop :=
  (∀ c ∈ afterFirst arityMark name, isDigit c = true) →
    (∀ c ∈ afterFirst arityMark name, (decimalValue? c).isSome = true) ∧
      (afterFirst arityMark name).length ≤ maxDigits

-- decided on the digits themselves, since there are finitely many characters to quantify over
instance (name : Text) : Decidable (HasReadableArity name) :=
  decidable_of_iff ((afterFirst arityMark name).all isDigit = true →
      (afterFirst arityMark name).all (fun c => (decimalValue? c).isSome) = true ∧
        (afterFirst arityMark name).length ≤ maxDigits)
    (by rw [List.all_eq_true, List.all_eq_true, HasReadableArity])

/-- Whatever the marker is, the name in front of it is what stands in front of the first mark. -/
theorem splitArity_eq_ok {name front : Text} {marker : Option Nat}
    (h : splitArity name = .ok (front, marker)) : before arityMark name = front := by
  unfold splitArity at h
  simp only at h
  split at h
  · exact (Prod.mk.inj (Except.ok.inj h)).1
  · cases hdigits : readDigits (afterFirst arityMark name) with
    | error e =>
      rw [hdigits] at h
      exact nomatch h
    | ok arity =>
      rw [hdigits] at h
      exact (Prod.mk.inj (Except.ok.inj h)).1

theorem readDigits_isOk_iff (digits : Text) :
    (∃ n, readDigits digits = .ok n) ↔
      (∀ c ∈ digits, (decimalValue? c).isSome = true) ∧ digits.length ≤ maxDigits := by
  have hall : ((digits.takeWhile fun c => (decimalValue? c).isSome).length = digits.length) ↔
      ∀ c ∈ digits, (decimalValue? c).isSome = true := by
    rw [← List.takeWhile_eq_self_iff]
    constructor
    · exact fun h => (List.takeWhile_prefix _).eq_of_length h
    · exact fun h => congrArg List.length h
  have hle : (digits.takeWhile fun c => (decimalValue? c).isSome).length ≤ digits.length :=
    (List.takeWhile_prefix _).length_le
  rw [← hall]
  unfold readDigits
  simp only
  split
  · next hlong => exact iff_of_false not_exists_ok (by omega)
  · split
    · next hshort => exact iff_of_false not_exists_ok (by omega)
    · exact iff_of_true ⟨_, rfl⟩ (by omega)

/-- **The names whose arity marker can be read.** -/
theorem splitArity_isOk_iff (name : Text) :
    (∃ r, splitArity name = .ok r) ↔ HasReadableArity name := by
  unfold HasReadableArity splitArity
  simp only
  split
  · next hplain =>
    refine iff_of_true ⟨_, rfl⟩ fun hdigits => ?_
    rw [List.all_eq_true.mpr hdigits, Bool.not_true, Bool.or_false, List.isEmpty_iff] at hplain
    rw [hplain]
    exact ⟨fun c hc => absurd hc List.not_mem_nil, Nat.zero_le _⟩
  · next hdigits =>
    rw [Bool.or_eq_true, not_or, Bool.not_eq_true', Bool.not_eq_false, List.all_eq_true] at hdigits
    rw [forall_prop_of_true hdigits.2, ← readDigits_isOk_iff]
    cases readDigits (afterFirst arityMark name) with
    | error e => exact iff_of_false not_exists_ok not_exists_ok
    | ok n => exact iff_of_true ⟨_, rfl⟩ ⟨n, rfl⟩

/-! ## Markers that were written -/

theorem decimalValue?_of_isDigit {c : Char} (h : c.isDigit = true) :
    decimalValue? c = some (c.toNat - '0'.toNat) := by
  have hcode : 48 ≤ c.toNat ∧ c.toNat ≤ 57 := by
    obtain ⟨hfirst, hlast⟩ := Bool.and_eq_true_iff.mp h
    exact ⟨of_decide_eq_true hfirst, of_decide_eq_true hlast⟩
  have hrow : (decide (48 ≤ c.toNat) && decide (c.toNat < 48 + 10)) = true := by
    rw [Bool.and_eq_true, decide_eq_true_eq, decide_eq_true_eq]
    omega
  obtain ⟨others, hzeros⟩ : ∃ others, decimalZeros = 48 :: others := ⟨_, rfl⟩
  unfold decimalValue?
  simp only [hzeros, List.find?_cons, hrow]
  rfl

/-- The value of digits, carried on from the left. -/
theorem foldl_filterMap_decimalValue? {t : Text} (h : ∀ c ∈ t, c.isDigit = true) (start : Nat) :
    (t.filterMap decimalValue?).foldl (fun n d => 10 * n + d) start =
      Nat.ofDigitChars 10 t start := by
  induction t generalizing start with
  | nil => rfl
  | cons c t ih =>
    obtain ⟨hc, ht⟩ := List.forall_mem_cons.mp h
    rw [List.filterMap_cons_some (decimalValue?_of_isDigit hc), List.foldl_cons, ih ht]
    rfl

/-- **A number that is written in digits is read back**, if it is read at all. -/
theorem readDigits_ofNat {n k : Nat} (h : readDigits (ofNat n) = .ok k) : k = n := by
  have hdigits : ∀ c ∈ ofNat n, c.isDigit = true := fun c hc =>
    Nat.isDigit_of_mem_toDigits (by decide) (by decide) hc
  have hvalue : positionalValue ((ofNat n).filterMap decimalValue?) = n := by
    rw [positionalValue, foldl_filterMap_decimalValue? hdigits]
    exact Nat.ofDigitChars_ten_toDigits
  unfold readDigits at h
  simp only at h
  split at h
  · exact nomatch h
  · split at h
    · exact nomatch h
    · rw [← Except.ok.inj h, hvalue]

/-- **A marker that was written from a number** is read as that number. -/
theorem splitArity_ofNat {base : Text} {n : Nat} {r : Text × Option Nat} (h : arityMark ∉ base)
    (hread : splitArity (base ++ arityMark :: ofNat n) = .ok r) : r = (base, some n) := by
  have hdigits : ∀ c ∈ ofNat n, isDigit c = true := fun c hc => by
    rw [isDigit, decimalValue?_of_isDigit (Nat.isDigit_of_mem_toDigits (by decide) (by decide) hc)]
    rfl
  have hne : ofNat n ≠ [] := Nat.toDigits_ne_nil
  unfold splitArity at hread
  rw [afterFirst_append_cons h, before_append_cons h] at hread
  simp only at hread
  rw [if_neg (by simpa using ⟨hne, hdigits⟩)] at hread
  cases hk : readDigits (ofNat n) with
  | error e =>
    rw [hk] at hread
    exact nomatch hread
  | ok k =>
    rw [hk, readDigits_ofNat hk] at hread
    exact (Except.ok.inj hread).symm

end Schema
end HaxeBindings
