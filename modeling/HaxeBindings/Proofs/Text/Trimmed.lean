import HaxeBindings.Text.Blank
import Mathlib.Data.List.Basic
import Mathlib.Data.List.TakeWhile
import Mathlib.Tactic.ByContra

/-!
# Texts that stripping leaves alone

Schema strings are stripped at every level of reading, so a printed string has to
survive it.  A text does exactly when it neither starts nor ends with a blank
(`strip_eq_self_iff`), and that passes to texts that are put together from such
texts (`strip_append`).  What any other text loses are blanks at its two ends
(`exists_blanks_around`).
-/

namespace HaxeBindings
namespace Text

theorem stripEnd_eq_self {t : Text} (h : ∀ c, t.getLast? = some c → isBlank c = false) :
    stripEnd t = t := by
  have hr : stripStart t.reverse = t.reverse := by
    refine stripStart_eq_self fun c hc => h c ?_
    rw [List.head?_reverse] at hc
    exact hc
  show (stripStart t.reverse).reverse = t
  rw [hr, List.reverse_reverse]

/-- A blank at the start would make the stripped text shorter. -/
theorem head_not_blank {t : Text} (h : strip t = t) {c : Char} (hc : t.head? = some c) :
    isBlank c = false := by
  by_contra hb
  obtain ⟨rest, rfl⟩ : ∃ rest, t = c :: rest := by
    cases t with
    | nil => simp at hc
    | cons d rest => exact ⟨rest, by simpa using hc⟩
  have hs : stripStart (c :: rest) = stripStart rest := by
    simp only [Bool.not_eq_false] at hb
    rw [stripStart, List.dropWhile_cons_of_pos hb, stripStart]
  have hlen := congrArg List.length h
  rw [strip, hs, List.length_cons] at hlen
  have h₁ := length_stripEnd_le (stripStart rest)
  have h₂ := length_stripStart_le rest
  omega

theorem last_not_blank {t : Text} (h : strip t = t) {c : Char} (hc : t.getLast? = some c) :
    isBlank c = false := by
  by_contra hb
  obtain ⟨front, rfl⟩ := List.getLast?_eq_some_iff.mp hc
  have hs : stripEnd (front ++ [c]) = stripEnd front := by
    simp only [Bool.not_eq_false] at hb
    rw [stripEnd, List.reverse_append, List.reverse_singleton, List.singleton_append,
      List.dropWhile_cons_of_pos hb, stripEnd]
  have hfix : stripEnd (front ++ [c]) = front ++ [c] := by
    conv_lhs => rw [← h, strip, stripEnd_stripEnd]
    exact h
  have hlen := congrArg List.length (hs.symm.trans hfix)
  rw [List.length_append, List.length_singleton] at hlen
  have := length_stripEnd_le front
  omega

/-- **A text is stripped exactly when there is no blank at either end of it.** -/
theorem strip_eq_self_iff {t : Text} :
    strip t = t ↔ (∀ c, t.head? = some c → isBlank c = false) ∧
      ∀ c, t.getLast? = some c → isBlank c = false := by
  constructor
  · intro h
    exact ⟨fun c => head_not_blank h, fun c => last_not_blank h⟩
  · rintro ⟨hstart, hend⟩
    rw [strip, stripStart_eq_self hstart, stripEnd_eq_self hend]

theorem strip_eq_self_of_not_blank {t : Text} (h : ∀ c ∈ t, isBlank c = false) : strip t = t :=
  strip_eq_self_iff.mpr ⟨fun c hc => h c (List.mem_of_head? hc),
    fun c hc => h c (List.mem_of_getLast? hc)⟩

theorem strip_append {s t : Text} (hs : strip s = s) (ht : strip t = t) (hs₀ : s ≠ [])
    (ht₀ : t ≠ []) : strip (s ++ t) = s ++ t := by
  refine strip_eq_self_iff.mpr ⟨fun c hc => ?_, fun c hc => ?_⟩
  · rw [List.head?_append_of_ne_nil _ hs₀] at hc
    exact head_not_blank hs hc
  · rw [List.getLast?_append_of_ne_nil _ ht₀] at hc
    exact last_not_blank ht hc

/-- In front of a stripped text only the blanks at the start are lost. -/
theorem strip_append_right {s t : Text} (ht : strip t = t) (ht₀ : t ≠ []) :
    strip (s ++ t) = stripStart s ++ t := by
  have hself : stripStart t = t := stripStart_eq_self fun c hc => head_not_blank ht hc
  have hstart : stripStart (s ++ t) = stripStart s ++ t := by
    unfold stripStart at hself ⊢
    rw [List.dropWhile_append]
    split
    · next hblank => rw [hself, List.isEmpty_iff.mp hblank, List.nil_append]
    · rfl
  rw [strip, hstart]
  refine stripEnd_eq_self fun c hc => ?_
  rw [List.getLast?_append_of_ne_nil _ ht₀] at hc
  exact last_not_blank ht hc

@[simp] theorem strip_stripStart (t : Text) : strip (stripStart t) = strip t := by
  have hself : stripStart (stripStart t) = stripStart t :=
    stripStart_eq_self fun _ => head?_stripStart
  rw [strip, hself, strip]

theorem mem_of_mem_strip {c : Char} {t : Text} (h : c ∈ strip t) : c ∈ t := by
  have hstart : c ∈ stripStart t := List.IsPrefix.subset ( stripEnd_prefix _) h
  exact (List.dropWhile_suffix _).subset hstart

/-- Stripping takes nothing but blanks away. -/
theorem mem_strip_of_mem {c : Char} {t : Text} (h : c ∈ t) (hc : isBlank c = false) :
    c ∈ strip t := by
  have hkept : ∀ {u : Text}, c ∈ u → c ∈ u.dropWhile isBlank := by
    intro u hu
    rw [← List.takeWhile_append_dropWhile (p := isBlank) (l := u), List.mem_append] at hu
    refine hu.resolve_left fun hblank => ?_
    exact Bool.false_ne_true (hc.symm.trans (List.mem_takeWhile_imp hblank))
  rw [strip, stripEnd, List.mem_reverse]
  exact hkept (List.mem_reverse.mpr (hkept h))

/-- **What stripping takes away are blanks at the two ends.** -/
theorem exists_blanks_around (t : Text) :
    ∃ front behind, t = front ++ strip t ++ behind ∧ ∀ c ∈ front ++ behind, isBlank c = true := by
  refine ⟨t.takeWhile isBlank, ((stripStart t).reverse.takeWhile isBlank).reverse, ?_, ?_⟩
  · have hend : strip t ++ ((stripStart t).reverse.takeWhile isBlank).reverse = stripStart t := by
      rw [strip, stripEnd, ← List.reverse_append, List.takeWhile_append_dropWhile,
        List.reverse_reverse]
    rw [List.append_assoc, hend, stripStart, List.takeWhile_append_dropWhile]
  · intro c hc
    rcases List.mem_append.mp hc with hc | hc
    · exact List.mem_takeWhile_imp hc
    · exact List.mem_takeWhile_imp (List.mem_reverse.mp hc)

end Text
end HaxeBindings
