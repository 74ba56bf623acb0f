import HaxeBindings.Proofs.Text.Characters
import Mathlib.Data.List.Basic

/-!
# Texts up to the case of letters

Whether a capital sigma is lowered to the one small sigma or to the other hangs on the text around
it, so the lower-case form of a text need not start with that of the texts it starts with.  Without
the difference between the two small letters, lowering goes letter by letter (`folded_eq_flatMap`),
and texts are the same up to case when they are folded to the same text.

* `folded` --- what a text is up to the case of its letters;
* `folded_prefix_of_lower` --- a text whose lower-case form starts with that of another one starts
  with it up to case;
* `lower_prefix_of_folded`, `exists_folded_eq_of_sigma` --- the converse holds for the texts without
  a sigma, and for no others.
-/

namespace HaxeBindings
namespace Text

/-- The small sigma that stands inside a word. -/
def smallSigma : Char := Char.ofNat 0x3C3

/-- The small sigma that stands at the end of a word. -/
def finalSigma : Char := Char.ofNat 0x3C2

/-- What a text is up to the case of its letters: its lower-case form, with one small sigma. -/
def folded (t : Text) : Text := replaceChar finalSigma smallSigma (lower t)

/-- One letter up to case. -/
def foldChar (c : Char) : Text := replaceChar finalSigma smallSigma (lowerIn [] c [])

/-! ## Letter by letter -/

/-- The text around a letter plays no part for any letter but the capital sigma. -/
theorem lowerIn_of_ne_capitalSigma {c : Char} (h : c ≠ capitalSigma) (front behind : Text) :
    lowerIn front c behind = lowerIn [] c [] := by
  rw [lowerIn, lowerIn, if_neg h, if_neg h]

theorem lowerIn_capitalSigma (front behind : Text) :
    lowerIn front capitalSigma behind = [smallSigma] ∨
      lowerIn front capitalSigma behind = [finalSigma] := by
  rw [lowerIn, if_pos rfl]
  split
  · exact .inr rfl
  · exact .inl rfl

theorem replaceChar_lowerIn (front : Text) (c : Char) (behind : Text) :
    replaceChar finalSigma smallSigma (lowerIn front c behind) = foldChar c := by
  by_cases hc : c = capitalSigma
  · have hboth : ∀ u, u = [smallSigma] ∨ u = [finalSigma] →
        replaceChar finalSigma smallSigma u = [smallSigma] := by
      rintro u (rfl | rfl)
      · decide
      · decide
    rw [hc, foldChar, hboth _ (lowerIn_capitalSigma front behind),
      hboth _ (lowerIn_capitalSigma [] [])]
  · rw [lowerIn_of_ne_capitalSigma hc, foldChar]

/-- **Texts are folded letter by letter.** -/
theorem folded_eq_flatMap (t : Text) : folded t = t.flatMap foldChar := by
  have hfrom : ∀ t front : Text,
      replaceChar finalSigma smallSigma (lowerFrom front t) = t.flatMap foldChar := by
    intro t
    induction t with
    | nil => exact fun _ => rfl
    | cons c rest ih =>
      intro front
      rw [lowerFrom, replaceChar, List.map_append, List.flatMap_cons, ← ih (c :: front)]
      exact congrArg (· ++ _) (replaceChar_lowerIn front c rest)
  exact hfrom t []

/-- Without a capital sigma a text is lowered as it is lowered alone, whatever stands behind it. -/
theorem lowerFrom_append {s : Text} (h : capitalSigma ∉ s) (front t : Text) :
    lowerFrom front (s ++ t) = lowerFrom front s ++ lowerFrom (s.reverse ++ front) t := by
  induction s generalizing front with
  | nil => rfl
  | cons c s ih =>
    obtain ⟨hc, hs⟩ := not_or.mp (mt List.mem_cons.mpr h)
    have hne : c ≠ capitalSigma := fun heq => hc heq.symm
    rw [List.cons_append, lowerFrom, lowerFrom, lowerIn_of_ne_capitalSigma hne front (s ++ t),
      lowerIn_of_ne_capitalSigma hne front s, ih hs, List.append_assoc, List.reverse_cons,
      List.append_assoc, List.singleton_append]

/-! ## The letters that are folded to a sigma -/

/-- A letter that is folded to the small sigma is lowered to one of the two. -/
theorem lowerIn_of_mem_foldChar {c : Char} (h : smallSigma ∈ foldChar c) (front behind : Text) :
    lowerIn front c behind = [smallSigma] ∨ lowerIn front c behind = [finalSigma] := by
  by_cases hc : c = capitalSigma
  · rw [hc]
    exact lowerIn_capitalSigma front behind
  · rw [lowerIn_of_ne_capitalSigma hc]
    by_cases hdotted : c = dottedCapitalI
    · rw [hdotted] at h
      exact absurd h (by decide)
    · have hlower : lowerIn [] c [] = [lowerChar c] := by
        rw [lowerIn, if_neg hc, if_neg hdotted]
      rw [foldChar, hlower, replaceChar, List.map_singleton, List.mem_singleton] at h
      rw [hlower]
      split at h
      · next hfinal => exact .inr (congrArg (fun d => [d]) hfinal)
      · exact .inl (congrArg (fun d => [d]) h.symm)

theorem foldChar_of_mem {c : Char} (h : smallSigma ∈ foldChar c) : foldChar c = [smallSigma] := by
  rw [foldChar]
  rcases lowerIn_of_mem_foldChar h [] [] with hsmall | hfinal
  · rw [hsmall]
    decide
  · rw [hfinal]
    decide

theorem lowerIn_smallSigma (front behind : Text) :
    lowerIn front smallSigma behind = [smallSigma] := by
  rw [lowerIn_of_ne_capitalSigma (by decide)]
  decide +kernel

theorem lowerIn_finalSigma (front behind : Text) :
    lowerIn front finalSigma behind = [finalSigma] := by
  rw [lowerIn_of_ne_capitalSigma (by decide)]
  decide +kernel

/-! ## Starting with a text -/

/-- **What a text starts with in lower case it starts with up to case.** -/
theorem folded_prefix_of_lower {front t : Text} (h : lower front <+: lower t) :
    folded front <+: folded t := h.map _

/-- Without a sigma the two mean the same. -/
theorem lower_prefix_of_folded {front t : Text} (hsigma : smallSigma ∉ folded front)
    (h : folded front <+: folded t) : lower front <+: lower t := by
  have hself : ∀ {u : Text}, smallSigma ∉ replaceChar finalSigma smallSigma u →
      replaceChar finalSigma smallSigma u = u := by
    intro u hu
    conv_rhs => rw [← List.map_id u]
    refine List.map_congr_left fun c hc => if_neg fun hfinal => hu ?_
    exact List.mem_map.mpr ⟨c, hc, if_pos hfinal⟩
  have htake : replaceChar finalSigma smallSigma ((lower t).take (folded front).length) =
      folded front := by
    rw [replaceChar, List.map_take]
    exact (List.prefix_iff_eq_take.mp h).symm
  have hfront : folded front = lower front := hself hsigma
  have hstart := hself (htake.symm ▸ hsigma)
  rw [← hfront, ← htake, hstart]
  exact List.take_prefix _ _

/-- In front of the first letter that is folded to a sigma there is no capital sigma. -/
theorem exists_first_sigma {t : Text} (h : smallSigma ∈ folded t) :
    ∃ u s v, t = u ++ s :: v ∧ smallSigma ∈ foldChar s ∧ capitalSigma ∉ u := by
  rw [folded_eq_flatMap] at h
  obtain ⟨c, hc, hfold⟩ := List.mem_flatMap.mp h
  have hfound : (t.find? fun c => smallSigma ∈ foldChar c).isSome = true :=
    List.find?_isSome.mpr ⟨c, hc, decide_eq_true hfold⟩
  obtain ⟨s, hs⟩ := Option.isSome_iff_exists.mp hfound
  obtain ⟨hfold, u, v, ht, hbefore⟩ := List.find?_eq_some_iff_append.mp hs
  refine ⟨u, s, v, ht, of_decide_eq_true hfold, fun hmem => ?_⟩
  exact absurd (hbefore capitalSigma hmem) (by decide)

/-- A text with a sigma has a twin that differs in the kind of one small sigma only, and the
lower-case form tells the two apart. -/
theorem exists_folded_eq_of_sigma {front : Text} (h : smallSigma ∈ folded front) :
    ∃ t, folded t = folded front ∧ ¬lower front <+: lower t := by
  -- the first sigma is taken, so that what is in front of it is lowered alone
  obtain ⟨u, s, v, rfl, hs, hu⟩ := exists_first_sigma h
  have hlower (s : Char) : lower (u ++ s :: v) =
      lowerFrom [] u ++ (lowerIn (u.reverse ++ []) s v ++ lowerFrom (s :: (u.reverse ++ [])) v) :=
    lowerFrom_append hu [] (s :: v)
  have hfolded {s' : Char} (hs' : smallSigma ∈ foldChar s') :
      folded (u ++ s' :: v) = folded (u ++ s :: v) := by
    rw [folded_eq_flatMap, folded_eq_flatMap, List.flatMap_append, List.flatMap_append,
      List.flatMap_cons, List.flatMap_cons, foldChar_of_mem hs, foldChar_of_mem hs']
  have happart {x y : Char} {rest rest' : Text} (hne : x ≠ y) :
      ¬lowerFrom [] u ++ ([x] ++ rest) <+: lowerFrom [] u ++ ([y] ++ rest') := by
    rw [List.prefix_append_right_inj]
    exact fun hprefix => hne (List.cons_prefix_cons.mp hprefix).1
  rcases lowerIn_of_mem_foldChar hs (u.reverse ++ []) v with hsmall | hfinal
  · refine ⟨u ++ finalSigma :: v, hfolded (by decide +kernel), ?_⟩
    rw [hlower, hlower, hsmall, lowerIn_finalSigma]
    exact happart (by decide)
  · refine ⟨u ++ smallSigma :: v, hfolded (by decide +kernel), ?_⟩
    rw [hlower, hlower, hfinal, lowerIn_smallSigma]
    exact happart (by decide)

end Text
end HaxeBindings
