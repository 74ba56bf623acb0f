import HaxeBindings.Schema.Split
import Mathlib.Data.List.Basic

/-!
# Brackets, commas and joined text

`segments` cuts text at the commas outside all brackets, and keeps count of the
brackets while it reads.  This file reads the count off the text in front of a
position instead: `depth` is the number of opening brackets minus the number of
closing ones, and it is additive.

* `Unsplit d t` --- no comma of `t` stands at depth zero when `t` starts at depth
  `d`; such a text goes into one segment (`segments_append`).
* `IsCut d t ts` --- the pieces of `t` between its commas at depth zero, as a relation; the
  segments are these pieces (`isCut_segments`).
* `Balanced t` --- the brackets of `t` match.  Balanced texts are closed under
  concatenation, bracketing and joining, and commas between brackets around a
  balanced text split nothing (`unsplit_bracketed`).
* `segments_join` --- cutting undoes joining.
-/

namespace HaxeBindings
namespace Schema

open Text

/-! ## Depth -/

/-- The number of opening brackets in a text minus the number of closing ones. -/
def depth (t : Text) : Int := t.count '<' - t.count '>'

@[simp] theorem depth_nil : depth [] = 0 := rfl

theorem depth_cons (c : Char) (t : Text) : depth (c :: t) = depthBehind 0 c + depth t := by
  rw [depth, depth, depthBehind, List.count_cons, List.count_cons]
  by_cases hopen : c = '<'
  · subst hopen
    simp
    omega
  · by_cases hclose : c = '>'
    · subst hclose
      simp
      omega
    · simp [hopen, hclose]

theorem depth_append (s t : Text) : depth (s ++ t) = depth s + depth t := by
  rw [depth, depth, depth, List.count_append, List.count_append]
  omega

theorem depthBehind_eq (d : Int) (c : Char) : depthBehind d c = d + depthBehind 0 c := by
  unfold depthBehind
  split
  · omega
  · split <;> omega

/-! ## Commas at depth zero -/

/-- No comma in the text stands at depth zero, when the text starts at depth `d`. -/
def Unsplit (d : Int) (t : Text) : Prop := ∀ p, p ++ [','] <+: t → d + depth p ≠ 0

theorem unsplit_of_no_comma {d : Int} {t : Text} (h : ',' ∉ t) : Unsplit d t := by
  intro p hp
  exact absurd (hp.subset (List.mem_append_right p List.mem_cons_self)) h

theorem Unsplit.head {d : Int} {c : Char} {t : Text} (h : Unsplit d (c :: t)) :
    ¬(c = ',' ∧ d = 0) := by
  rintro ⟨rfl, rfl⟩
  exact h [] (by simp) rfl

theorem Unsplit.tail {d : Int} {c : Char} {t : Text} (h : Unsplit d (c :: t)) :
    Unsplit (depthBehind d c) t := by
  intro p hp
  have hc := h (c :: p) (List.cons_prefix_cons.mpr ⟨rfl, hp⟩)
  rw [depth_cons] at hc
  rw [depthBehind_eq]
  omega

theorem unsplit_nil (d : Int) : Unsplit d [] := unsplit_of_no_comma List.not_mem_nil

theorem Unsplit.cons {d : Int} {c : Char} {t : Text} (hc : ¬(c = ',' ∧ d = 0))
    (h : Unsplit (depthBehind d c) t) : Unsplit d (c :: t) := by
  intro p hp
  cases p with
  | nil =>
    obtain ⟨rfl, -⟩ := List.cons_prefix_cons.mp hp
    rw [depth_nil, Int.add_zero]
    exact fun hd => hc ⟨rfl, hd⟩
  | cons b q =>
    obtain ⟨rfl, hq⟩ := List.cons_prefix_cons.mp hp
    have := h q hq
    rw [depthBehind_eq] at this
    rw [depth_cons]
    omega

/-- The text, which starts at depth `d`, is cut into the given pieces at its commas at depth zero and
nowhere else. -/
inductive IsCut : Int → Text → List Text → Prop
  | last {d : Int} {t : Text} : Unsplit d t → IsCut d t [t]
  | comma {d : Int} {s t : Text} {ts : List Text} : Unsplit d s → d + depth s = 0 →
      IsCut 0 t ts → IsCut d (s ++ ',' :: t) (s :: ts)

/-- **The segments of a text are what it is cut into at its commas at depth zero.** -/
theorem isCut_segments (d : Int) (t : Text) : IsCut d t (segments d t) := by
  induction t generalizing d with
  | nil => exact .last (unsplit_nil d)
  | cons c rest ih =>
    unfold segments
    split
    · next hcut =>
      obtain ⟨rfl, rfl⟩ := hcut
      exact .comma (unsplit_nil 0) rfl (ih 0)
    · next hkeep =>
      have hrest := ih (depthBehind d c)
      cases hsegments : segments (depthBehind d c) rest with
      | nil => exact absurd hsegments (segments_ne_nil _ _)
      | cons first others =>
        rw [hsegments] at hrest
        rw [consFirst]
        cases hrest with
        | last h => exact .last (h.cons hkeep)
        | comma h hdepth hothers =>
          refine .comma (h.cons hkeep) ?_ hothers
          rw [depthBehind_eq] at hdepth
          rw [depth_cons]
          omega

/-- Text without a comma at depth zero goes into the first segment as a whole. -/
theorem segments_append {d : Int} {s : Text} (h : Unsplit d s) (t : Text) :
    segments d (s ++ t) = s.foldr consFirst (segments (d + depth s) t) := by
  induction s generalizing d with
  | nil => simp
  | cons c s ih =>
    rw [List.cons_append, segments, if_neg h.head, ih h.tail, List.foldr_cons, depth_cons,
      depthBehind_eq d c, Int.add_assoc]

theorem foldr_consFirst (s t : Text) (ts : List Text) :
    s.foldr consFirst (t :: ts) = (s ++ t) :: ts := by
  induction s with
  | nil => rfl
  | cons c s ih => rw [List.foldr_cons, ih, consFirst, List.cons_append]

theorem segments_eq_singleton {d : Int} {t : Text} (h : Unsplit d t) : segments d t = [t] := by
  have := segments_append h []
  rwa [List.append_nil, segments_nil, foldr_consFirst, List.append_nil] at this

/-! ## Balanced text -/

/-- Every closing bracket has an opening one in front of it, and every opening one is closed. -/
structure Balanced (t : Text) : Prop where
  /-- Nothing is closed that is not open. -/
  nonneg : ∀ p, p <+: t → 0 ≤ depth p
  /-- At the end nothing is open. -/
  closed : depth t = 0

/-- A prefix of a concatenation ends in one of its two parts. -/
theorem prefix_of_append {p s t : Text} (h : p <+: s ++ t) :
    p <+: s ∨ ∃ q, q <+: t ∧ p = s ++ q := by
  obtain ⟨r, hr⟩ := h
  rcases List.append_eq_append_iff.mp hr with ⟨u, hs, _⟩ | ⟨u, hp, ht⟩
  · exact .inl ⟨u, hs.symm⟩
  · exact .inr ⟨u, ⟨r, ht.symm⟩, hp⟩

theorem depth_eq_zero {t : Text} (hopen : '<' ∉ t) (hclose : '>' ∉ t) : depth t = 0 := by
  rw [depth, List.count_eq_zero_of_not_mem hopen, List.count_eq_zero_of_not_mem hclose]
  rfl

theorem balanced_of_no_bracket {t : Text} (hopen : '<' ∉ t) (hclose : '>' ∉ t) : Balanced t where
  nonneg p hp := by
    have hp₀ : depth p = 0 :=
      depth_eq_zero (fun h => hopen (hp.subset h)) fun h => hclose (hp.subset h)
    omega
  closed := depth_eq_zero hopen hclose

theorem Balanced.append {s t : Text} (hs : Balanced s) (ht : Balanced t) : Balanced (s ++ t) where
  nonneg p hp := by
    rcases prefix_of_append hp with h | ⟨q, h, rfl⟩
    · exact hs.nonneg p h
    · rw [depth_append, hs.closed]
      have := ht.nonneg q h
      omega
  closed := by
    rw [depth_append, hs.closed, ht.closed]
    rfl

theorem depth_bracketed (t : Text) : depth ('<' :: t ++ ['>']) = depth t := by
  rw [depth_append, depth_cons]
  have hopen : depthBehind 0 '<' = 1 := rfl
  have hclose : depth ['>'] = -1 := rfl
  omega

/-- A prefix of a bracketed text that is neither empty nor everything ends inside the brackets. -/
theorem prefix_bracketed {p t : Text} (h : p <+: '<' :: t ++ ['>']) :
    p = [] ∨ (∃ q, q <+: t ∧ p = '<' :: q) ∨ p = '<' :: t ++ ['>'] := by
  rcases prefix_of_append h with hp | ⟨q, hq, rfl⟩
  · rcases List.prefix_cons_iff.mp hp with rfl | ⟨q, rfl, hq⟩
    · exact .inl rfl
    · exact .inr (.inl ⟨q, hq, rfl⟩)
  · rcases List.prefix_cons_iff.mp hq with rfl | ⟨r, rfl, hr⟩
    · rw [List.append_nil]
      exact .inr (.inl ⟨t, List.prefix_refl t, rfl⟩)
    · rw [List.prefix_nil.mp hr]
      exact .inr (.inr rfl)

theorem Balanced.bracketed {t : Text} (h : Balanced t) : Balanced ('<' :: t ++ ['>']) where
  nonneg p hp := by
    rcases prefix_bracketed hp with rfl | ⟨q, hq, rfl⟩ | rfl
    · exact Int.le_refl 0
    · rw [depth_cons]
      have hopen : depthBehind 0 '<' = 1 := rfl
      have := h.nonneg q hq
      omega
    · have hclosed : depth ('<' :: t ++ ['>']) = 0 := by rw [depth_bracketed, h.closed]
      exact Int.le_of_eq hclosed.symm
  closed := by rw [depth_bracketed, h.closed]

/-- Commas between brackets are not at depth zero. -/
theorem unsplit_bracketed {t : Text} (h : Balanced t) : Unsplit 0 ('<' :: t ++ ['>']) := by
  intro p hp
  have hlt : p.length < ('<' :: t ++ ['>']).length := by
    have := hp.length_le
    rw [List.length_append, List.length_singleton] at this
    omega
  rcases prefix_bracketed ((List.prefix_append p [',']).trans hp) with rfl | ⟨q, hq, rfl⟩ | rfl
  · simp at hp
  · rw [depth_cons]
    have hopen : depthBehind 0 '<' = 1 := rfl
    have := h.nonneg q hq
    omega
  · exact absurd hlt (Nat.lt_irrefl _)

theorem Unsplit.append {d : Int} {s t : Text} (hs : Unsplit d s) (ht : Unsplit (d + depth s) t) :
    Unsplit d (s ++ t) := by
  intro p hp
  rcases prefix_of_append hp with h | ⟨q, h, hq⟩
  · exact hs p h
  · rcases List.eq_nil_or_concat' q with rfl | ⟨r, c, rfl⟩
    · rw [List.append_nil] at hq
      exact hs p (hq ▸ List.prefix_refl s)
    · rw [← List.append_assoc] at hq
      obtain ⟨rfl, hc⟩ := List.append_inj' hq rfl
      rw [← hc] at h
      have := ht r h
      rw [depth_append]
      omega

/-! ## Joining and cutting -/

theorem balanced_join {ts : List Text} (h : ∀ t ∈ ts, Balanced t) : Balanced (join [','] ts) := by
  induction ts with
  | nil => exact balanced_of_no_bracket List.not_mem_nil List.not_mem_nil
  | cons t ts ih =>
    have ht := h t List.mem_cons_self
    have hrest := ih fun u hu => h u (List.mem_cons_of_mem t hu)
    cases ts with
    | nil => rwa [join, List.intercalate_singleton]
    | cons u ts =>
      rw [join, List.intercalate_cons_cons]
      exact (ht.append (balanced_of_no_bracket (by simp) (by simp))).append hrest

/-- A comma at depth zero ends a segment. -/
theorem segments_append_comma {s : Text} (hsplit : Unsplit 0 s) (hdepth : depth s = 0) (t : Text) :
    segments 0 (s ++ ',' :: t) = s :: segments 0 t := by
  rw [segments_append hsplit, hdepth, Int.add_zero, segments, if_pos ⟨rfl, rfl⟩, foldr_consFirst,
    List.append_nil]

/-- **Cutting undoes joining**, for texts that are closed and not split themselves. -/
theorem segments_join {ts : List Text} (hts : ts ≠ []) (hsplit : ∀ t ∈ ts, Unsplit 0 t)
    (hdepth : ∀ t ∈ ts, depth t = 0) : segments 0 (join [','] ts) = ts := by
  induction ts with
  | nil => exact absurd rfl hts
  | cons t ts ih =>
    have ht := hsplit t List.mem_cons_self
    cases ts with
    | nil =>
      rw [join, List.intercalate_singleton]
      exact segments_eq_singleton ht
    | cons u ts =>
      have hrest := ih (List.cons_ne_nil u ts) (fun v hv => hsplit v (List.mem_cons_of_mem t hv))
        fun v hv => hdepth v (List.mem_cons_of_mem t hv)
      rw [join, List.intercalate_cons_cons, List.append_assoc, List.singleton_append,
        segments_append_comma ht (hdepth t List.mem_cons_self)]
      exact congrArg (t :: ·) hrest

end Schema
end HaxeBindings
