import HaxeBindings.Proofs.Member.Identifiers
import HaxeBindings.Proofs.Text.Characters
import Mathlib.Data.List.Nodup
import Mathlib.Data.List.Perm.Subperm
import Mathlib.Data.Nat.Find

/-!
# The names of parameters

The parameters of one signature get different names, and what name a parameter gets can be
said without the counters that are kept between requests.

* `leastFree` --- the name that a request gets when the counters are left out: the base, or its
  variant with the least number from two on that is free;
* `handOut` --- the names of a signature when each is chosen like this;
* `Attempts` --- the attempts of one request, one by one; they come to an end at the name that is
  handed out (`attempts_allocate`);
* `allocateAll_exact` --- with counters the names are those of `handOut`, they are pairwise
  different and no keywords, and the parameters of a signature have them in order.

## The argument

A counter is a shortcut past numbers that were tried before, and it is sound as long as their
variants are still taken (`IsCounted`).  A request moves the counter of its own base past numbers
whose variants it has seen to be taken; the names in use only grow, so what was taken stays taken,
whichever base it was taken for.  A search that starts at the counter therefore stops where one
that starts at two does.
-/

namespace HaxeBindings

open Text Name

namespace ParameterNames

/-! ## Free numbers -/

theorem numbered_injective (base : Text) : Function.Injective (numbered base) := by
  intro a b h
  have hdigits : Nat.toDigits 10 a = Nat.toDigits 10 b := List.append_cancel_left h
  rw [← Nat.ofDigitChars_ten_toDigits (n := a), hdigits, Nat.ofDigitChars_ten_toDigits]

/-- There are not more variants in use than names. -/
theorem le_length_of_taken {used : List Text} {base : Text} {n k : Nat}
    (h : ∀ j, n ≤ j → j < n + k → numbered base j ∈ used) : k ≤ used.length := by
  have hrange : (List.range' n k).Nodup := List.nodup_range'
  have hnodup : ((List.range' n k).map (numbered base)).Nodup :=
    hrange.map (numbered_injective base)
  have hsub : (List.range' n k).map (numbered base) ⊆ used := by
    intro name hname
    obtain ⟨j, hj, rfl⟩ := List.mem_map.mp hname
    obtain ⟨hle, hlt⟩ := List.mem_range'_1.mp hj
    exact h j hle hlt
  have hlength := (List.subperm_of_subset hnodup hsub).length_le
  rwa [List.length_map, List.length_range'] at hlength

/-- However many names are in use, there is a free number. -/
theorem exists_free (used : List Text) (base : Text) :
    ∃ n, 2 ≤ n ∧ numbered base n ∉ used := by
  by_contra hnone
  have htaken : ∀ j, 2 ≤ j → j < 2 + (used.length + 1) → numbered base j ∈ used := by
    intro j hj _
    by_contra hfree
    exact hnone ⟨j, hj, hfree⟩
  have := le_length_of_taken htaken
  omega

/-- The numbers that a search passes over are taken, and it is through within its attempts or has
used them all. -/
theorem nextFree_search (used : List Text) (base : Text) (attempts n : Nat) :
    let k := nextFree used base attempts n
    n ≤ k ∧ (∀ j, n ≤ j → j < k → numbered base j ∈ used) ∧
      (numbered base k ∉ used ∨ k = n + attempts) := by
  induction attempts generalizing n with
  | zero => exact ⟨Nat.le_refl n, fun j hj hlt => absurd hlt (Nat.not_lt.mpr hj), .inr rfl⟩
  | succ attempts ih =>
    rw [nextFree]
    split
    · next htaken =>
      obtain ⟨hle, hpassed, hend⟩ := ih (n + 1)
      refine ⟨by omega, fun j hj hlt => ?_, hend.imp_right fun h => by omega⟩
      rcases Nat.eq_or_lt_of_le hj with rfl | hj
      · exact htaken
      · exact hpassed j hj hlt
    · next hfree =>
      exact ⟨Nat.le_refl n, fun j hj hlt => absurd hlt (Nat.not_lt.mpr hj), .inl hfree⟩

/-- **As many attempts as there are names, and one more, meet a free number.** -/
theorem nextFree_not_mem (used : List Text) (base : Text) (n : Nat) :
    numbered base (nextFree used base (used.length + 1) n) ∉ used := by
  obtain ⟨-, hpassed, hfree | hall⟩ := nextFree_search used base (used.length + 1) n
  · exact hfree
  · rw [hall] at hpassed
    have := le_length_of_taken hpassed
    omega

/-! ## Without counters -/

/-- The name for a base when the given names are in use: the base itself, or its variant with the
least number from two on that is free. -/
def leastFree (used : List Text) (base : Text) : Text :=
  if base ∈ used then numbered base (Nat.find (exists_free used base)) else base

/-- The names for a list of requests, each chosen for the names before it. -/
def handOut (used : List Text) : List (Text × Int) → List Text
  | [] => []
  | (raw, index) :: rest =>
    leastFree used (requested raw index) ::
      handOut (leastFree used (requested raw index) :: used) rest

theorem leastFree_not_mem (used : List Text) (base : Text) : leastFree used base ∉ used := by
  unfold leastFree
  split
  · exact (Nat.find_spec (exists_free used base)).2
  · next hfree => exact hfree

/-- The least free number is the one behind which a search from two on has nothing to look for. -/
theorem leastFree_eq_numbered {used : List Text} {base : Text} {n : Nat} (hbase : base ∈ used)
    (hn : 2 ≤ n) (hfree : numbered base n ∉ used)
    (hpassed : ∀ j, 2 ≤ j → j < n → numbered base j ∈ used) :
    leastFree used base = numbered base n := by
  have hfind : Nat.find (exists_free used base) = n :=
    (Nat.find_eq_iff _).mpr ⟨⟨hn, hfree⟩, fun j hj h => h.2 (hpassed j h.1 hj)⟩
  rw [leastFree, if_pos hbase, hfind]

theorem not_mem_handOut {used : List Text} {requests : List (Text × Int)} {name : Text}
    (h : name ∈ used) : name ∉ handOut used requests := by
  induction requests generalizing used with
  | nil => exact List.not_mem_nil
  | cons request rest ih =>
    rw [handOut, List.mem_cons, not_or]
    refine ⟨?_, ih (List.mem_cons_of_mem _ h)⟩
    rintro rfl
    exact leastFree_not_mem _ _ h

theorem nodup_handOut (used : List Text) (requests : List (Text × Int)) :
    (handOut used requests).Nodup := by
  induction requests generalizing used with
  | nil => exact List.nodup_nil
  | cons request rest ih =>
    rw [handOut, List.nodup_cons]
    exact ⟨not_mem_handOut List.mem_cons_self, ih _⟩

/-! ## Keywords -/

theorem requested_not_keyword (raw : Text) (index : Int) : requested raw index ∉ keywords := by
  simp only [requested]
  generalize (if (strip raw).isEmpty then "arg".toList ++ ofInt index else strip raw) = name
  unfold memberIdentifier
  split
  · next hkeyword => exact underscore_not_keyword name hkeyword
  · next hname => exact hname

/-- Keywords hold no digits, so a variant is never one. -/
theorem numbered_not_keyword (base : Text) (n : Nat) : numbered base n ∉ keywords := by
  have hletters : ∀ k ∈ keywords, k.all (fun c => !c.isDigit) = true := by decide
  intro hkeyword
  obtain ⟨c, hc⟩ := List.exists_mem_of_ne_nil _ (Nat.toDigits_ne_nil (n := n) (b := 10))
  have hdigit : c.isDigit = true := Nat.isDigit_of_mem_toDigits (by decide) (by decide) hc
  have hletter := List.all_eq_true.mp (hletters _ hkeyword) c (List.mem_append_right base hc)
  rw [hdigit] at hletter
  exact Bool.false_ne_true hletter

theorem not_keyword_of_mem_handOut {used : List Text} {requests : List (Text × Int)} {name : Text}
    (h : name ∈ handOut used requests) : name ∉ keywords := by
  induction requests generalizing used with
  | nil => exact absurd h List.not_mem_nil
  | cons request rest ih =>
    rw [handOut, List.mem_cons] at h
    rcases h with rfl | h
    · unfold leastFree
      split
      · exact numbered_not_keyword _ _
      · exact requested_not_keyword _ _
    · exact ih h

/-! ## With counters -/

/-- The attempts of one request: a candidate is handed out when it is free, and otherwise the
variant with the next number is tried.  The last two arguments are the name in the end and the
number that would be tried next. -/
inductive Attempts (used : List Text) (base : Text) : Text → Nat → Text → Nat → Prop
  | free {candidate : Text} {n : Nat} : candidate ∉ used → Attempts used base candidate n candidate n
  | taken {candidate name : Text} {n next : Nat} : candidate ∈ used →
      Attempts used base (numbered base n) (n + 1) name next →
      Attempts used base candidate n name next

/-- Taken numbers are tried one after the other, up to the first free one. -/
theorem attempts_numbered {used : List Text} {base : Text} {n k : Nat} (hle : n ≤ k)
    (hpassed : ∀ j, n ≤ j → j < k → numbered base j ∈ used) (hfree : numbered base k ∉ used) :
    Attempts used base (numbered base n) (n + 1) (numbered base k) (k + 1) := by
  obtain ⟨d, rfl⟩ := Nat.exists_eq_add_of_le hle
  induction d generalizing n with
  | zero => exact .free hfree
  | succ d ih =>
    have hshift : n + (d + 1) = n + 1 + d := by omega
    rw [hshift] at hpassed hfree ⊢
    refine .taken (hpassed n (Nat.le_refl n) (by omega)) ?_
    exact ih (by omega) (fun j hj hlt => hpassed j (by omega) hlt) hfree

/-- The variants of a base with the numbers below its counter are taken. -/
structure IsCounted (s : ParameterNames) : Prop where
  two_le : ∀ base, 2 ≤ s.counter base
  taken : ∀ base j, 2 ≤ j → j < s.counter base → numbered base j ∈ s.used

theorem isCounted_empty : IsCounted {} where
  two_le _ := Nat.le_refl 2
  taken _ _ hj hlt := absurd hlt (Nat.not_lt.mpr hj)

section

variable {s : ParameterNames}

@[simp] theorem used_record (s : ParameterNames) (base name : Text) (next : Nat) :
    (s.record base name next).used = name :: s.used := rfl

theorem counter_record (s : ParameterNames) (base name other : Text) (next : Nat) :
    (s.record base name next).counter other = if other = base then next else s.counter other := by
  unfold record counter
  rw [List.lookup_cons]
  split
  · next heq => rw [if_pos (eq_of_beq heq), Option.getD_some]
  · next hne => rw [if_neg fun heq => by simp [heq] at hne]

/-- A counter may be moved up to a number below which all variants are taken. -/
theorem IsCounted.record (h : s.IsCounted) {base name : Text} {next : Nat} (hnext : 2 ≤ next)
    (htaken : ∀ j, 2 ≤ j → j < next → numbered base j ∈ name :: s.used) :
    (s.record base name next).IsCounted where
  two_le other := by
    rw [counter_record]
    split
    · exact hnext
    · exact h.two_le other
  taken other j hj hlt := by
    rw [counter_record] at hlt
    rw [used_record]
    split at hlt
    · next heq => exact heq ▸ htaken j hj hlt
    · exact List.mem_cons_of_mem name (h.taken other j hj hlt)

/-- What a request can come to: its base when that is free, and otherwise the variant with the first
free number from the counter on. -/
theorem allocate_cases (s : ParameterNames) (raw : Text) (index : Int) :
    let base := requested raw index
    (base ∉ s.used ∧ s.allocate raw index = (base, s.record base base (s.counter base))) ∨
      base ∈ s.used ∧ ∃ n, s.counter base ≤ n ∧
        (∀ j, s.counter base ≤ j → j < n → numbered base j ∈ s.used) ∧
        numbered base n ∉ s.used ∧
        s.allocate raw index = (numbered base n, s.record base (numbered base n) (n + 1)) := by
  intro base
  by_cases hbase : base ∈ s.used
  · obtain ⟨hle, hpassed, -⟩ := nextFree_search s.used base (s.used.length + 1) (s.counter base)
    exact .inr ⟨hbase, _, hle, hpassed, nextFree_not_mem s.used base _, if_pos hbase⟩
  · exact .inl ⟨hbase, if_neg hbase⟩

/-- **The attempts of a request come to an end**, at the name that is handed out. -/
theorem attempts_allocate (s : ParameterNames) (raw : Text) (index : Int) :
    let base := requested raw index
    Attempts s.used base base (s.counter base) (s.allocate raw index).1
      ((s.allocate raw index).2.counter base) := by
  intro base
  obtain ⟨hbase, heq⟩ | ⟨hbase, n, hle, hpassed, hfree, heq⟩ := s.allocate_cases raw index
  · rw [heq, counter_record, if_pos rfl]
    exact .free hbase
  · rw [heq, counter_record, if_pos rfl]
    exact .taken hbase (attempts_numbered hle hpassed hfree)

/-- **One request** is answered as without counters, its answer is in use from then on, and the
counters stay sound. -/
theorem IsCounted.allocate (h : s.IsCounted) (raw : Text) (index : Int) :
    (s.allocate raw index).1 = leastFree s.used (requested raw index) ∧
      (s.allocate raw index).2.used = (s.allocate raw index).1 :: s.used ∧
      (s.allocate raw index).2.IsCounted := by
  have htwo := h.two_le (requested raw index)
  obtain ⟨hbase, heq⟩ | ⟨hbase, n, hle, hpassed, hfree, heq⟩ := s.allocate_cases raw index
  · rw [heq]
    refine ⟨by rw [leastFree, if_neg hbase], rfl, h.record htwo fun j hj hlt => ?_⟩
    exact List.mem_cons_of_mem _ (h.taken _ j hj hlt)
  · -- what is below the counter was taken before, and what is from there on was passed just now
    have htaken : ∀ j, 2 ≤ j → j < n → numbered (requested raw index) j ∈ s.used := by
      intro j hj hlt
      by_cases hcounter : j < s.counter (requested raw index)
      · exact h.taken _ j hj hcounter
      · exact hpassed j (Nat.not_lt.mp hcounter) hlt
    rw [heq]
    refine ⟨(leastFree_eq_numbered hbase (Nat.le_trans htwo hle) hfree htaken).symm, rfl, ?_⟩
    refine h.record (by omega) fun j hj hlt => ?_
    rcases Nat.lt_succ_iff_lt_or_eq.mp hlt with hlt | rfl
    · exact List.mem_cons_of_mem _ (htaken j hj hlt)
    · exact List.mem_cons_self

/-- **A list of requests** is answered as without counters. -/
theorem IsCounted.allocateAll_eq (h : s.IsCounted) (requests : List (Text × Int)) :
    s.allocateAll requests = handOut s.used requests := by
  induction requests generalizing s with
  | nil => rfl
  | cons request rest ih =>
    obtain ⟨hname, hused, hcounted⟩ := h.allocate request.1 request.2
    rw [allocateAll, handOut, ih hcounted, hused, hname]

end

end ParameterNames

/-! ## Signatures -/

open ParameterNames

/-- The requests of a parameter list: each parameter asks for its name at its position. -/
def nameRequests (parameters : List Parameter) : List (Text × Int) :=
  parameters.zipIdx.map fun (p, i) => (p.name, (i : Int))

/-- **Each parameter of a signature gets a name of its own**, and the least one that is left to it.
Every request comes to an end. -/
theorem ParameterNames.allocateAll_exact :
    (∀ (s : ParameterNames) (raw : Text) (index : Int),
      let base := requested raw index
      Attempts s.used base base (s.counter base) (s.allocate raw index).1
        ((s.allocate raw index).2.counter base)) ∧
    (∀ requests : List (Text × Int),
      let names := allocateAll {} requests
      names = handOut [] requests ∧ names.Nodup ∧ ∀ name ∈ names, name ∉ keywords) ∧
    ∀ (m : Mapping) (parameters : List Parameter),
      let names := handOut [] (nameRequests parameters)
      names.Nodup ∧ names.length = parameters.length ∧
        formatParameters m.map parameters =
          (parameters.mapM fun p => m.map p.type).map fun types =>
            join ", ".toList (List.zipWith (fun name type => name ++ ':' :: type) names types) := by
  have hall (requests : List (Text × Int)) : allocateAll {} requests = handOut [] requests :=
    isCounted_empty.allocateAll_eq requests
  refine ⟨attempts_allocate, fun requests => ?_, fun m parameters => ?_⟩
  · intro names
    have hnames : names = handOut [] requests := hall requests
    rw [hnames]
    exact ⟨rfl, nodup_handOut [] requests, fun name hname => not_keyword_of_mem_handOut hname⟩
  · have hnames : parameterNames parameters = handOut [] (nameRequests parameters) := hall _
    intro names
    have hlength : names.length = parameters.length := by
      show (handOut [] (nameRequests parameters)).length = parameters.length
      rw [← hall, length_allocateAll, nameRequests, List.length_map, List.length_zipIdx]
    refine ⟨nodup_handOut [] _, hlength, ?_⟩
    rw [formatParameters, parameterTypes, hnames]
    cases parameters.mapM fun p => m.map p.type with
    | error e => rfl
    | ok types => rfl

/-- Two variants of one base are asked for by name, one of them before the base is asked for again,
and a parameter without a name comes behind one that has taken the name it would get. -/
example : allocateAll {} [("value".toList, 0), ("value3".toList, 1), ("value".toList, 2),
      ("value".toList, 3), ("value2".toList, 4), ("arg6".toList, 5), ([], 6), ("class".toList, 7)] =
    ["value", "value3", "value2", "value4", "value22", "arg6", "arg62", "_class"].map
      String.toList := by
  decide +kernel

end HaxeBindings
