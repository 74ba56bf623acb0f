import HaxeBindings.Proofs.Sorted.Selection

/-!
# When a selection does not depend on the order

A selection keeps the first element for every key, so which element that is hangs
on the order of the list it is taken from.  Sorting hides this only as far as the
elements with one key cannot be told apart in what is made of them.  Let `f` be
what is made of an element.

* `Interchangeable` --- elements with one key give one `f`, and where the order puts
  elements with another key between two of them, those give the same `f` too;
* `map_select_perm_iff` --- this is exactly when no permutation of a list changes
  what its selection gives;
* `ofList_eq_of_perm`, `findSome?_perm_iff` --- the same question for ascending lists,
  where the answer is always, and for the first answer in a list.

## The argument

Two elements `p` and `q` with one key are inserted in two places of one sorted list
(`List.mergeSort_cons`).  The lists of their `f` agree exactly when nothing between
the places makes a difference, `map_mergeSort_cons_eq_iff`.  Necessity takes a
permutation that starts with the two, and sufficiency exchanges neighbours.
-/

namespace HaxeBindings
namespace Sorted

variable {α β κ : Type} {key : α → κ} {le : α → α → Bool}

/-! ## One place or another -/

/-- A list can be moved past an element exactly when all of it is that element. -/
theorem cons_eq_append_singleton_iff {a b : β} {l : List β} :
    a :: l = l ++ [b] ↔ a = b ∧ ∀ x ∈ l, x = a := by
  induction l generalizing a with
  | nil => simp
  | cons x l ih =>
    rw [List.cons_append, List.cons.injEq, ih, List.forall_mem_cons]
    constructor
    · rintro ⟨rfl, hb, hl⟩
      exact ⟨hb, rfl, hl⟩
    · rintro ⟨hb, rfl, hl⟩
      exact ⟨rfl, hb, hl⟩

/-- Sorting does not see the order of elements that it tells apart. -/
theorem mergeSort_eq_of_perm (hle : IsOrder key le) {xs ys : List α} (h : xs.Perm ys)
    (honce : (xs.map key).Nodup) : xs.mergeSort le = ys.mergeSort le := by
  have hinj : ∀ a ∈ xs, ∀ b ∈ xs, key a = key b → a = b := by
    intro a ha b hb
    exact List.inj_on_of_nodup_map honce ha hb
  have hperm : (xs.mergeSort le).Perm (ys.mergeSort le) :=
    (List.mergeSort_perm xs le).trans (h.trans (List.mergeSort_perm ys le).symm)
  refine hperm.eq_of_pairwise ?_ (List.pairwise_mergeSort hle.trans hle.total xs)
    (List.pairwise_mergeSort hle.trans hle.total ys)
  intro a b ha hb hab hba
  have hbxs : b ∈ xs := h.mem_iff.mpr (List.mem_mergeSort.mp hb)
  exact hinj a (List.mem_mergeSort.mp ha) b hbxs (hle.antisymm a b hab hba)

/-- What lies between two elements in an order, in one direction or the other. -/
def Between (le : α → α → Bool) (p q r : α) : Prop :=
  (le p r = true ∧ le r q = true) ∨ (le q r = true ∧ le r p = true)

theorem Between.symm {p q r : α} (h : Between le p q r) : Between le q p r := Or.symm h

/-- Sorting after putting `p` or `q` in front, where `p` comes to stand before `q`. -/
theorem map_insertion_eq_iff (hle : IsOrder key le) (f : α → β) {p q : α} {xs as bs cs : List α}
    (hkey : key p = key q) (hne : ∀ r ∈ xs, key r ≠ key p)
    (hsorted : xs.mergeSort le = as ++ bs ++ cs)
    (hp : (p :: xs).mergeSort le = as ++ p :: (bs ++ cs))
    (hq : (q :: xs).mergeSort le = as ++ bs ++ q :: cs)
    (has : ∀ r ∈ as, le p r = false) (hbs : ∀ r ∈ as ++ bs, le q r = false) :
    ((p :: xs).mergeSort le).map f = ((q :: xs).mergeSort le).map f ↔
      f p = f q ∧ ∀ r ∈ xs, Between le p q r → f r = f p := by
  have hpsorted : (as ++ p :: (bs ++ cs)).Pairwise fun a b => le a b = true :=
    hp ▸ List.pairwise_mergeSort hle.trans hle.total (p :: xs)
  have hqsorted : (as ++ bs ++ q :: cs).Pairwise fun a b => le a b = true :=
    hq ▸ List.pairwise_mergeSort hle.trans hle.total (q :: xs)
  have hbehind : ∀ r ∈ bs ++ cs, le p r = true :=
    (List.pairwise_cons.mp (List.pairwise_append.mp hpsorted).2.1).1
  have hlast : ∀ r ∈ cs, le q r = true :=
    (List.pairwise_cons.mp (List.pairwise_append.mp hqsorted).2.1).1
  have hmem {r : α} : r ∈ xs ↔ r ∈ as ∨ r ∈ bs ∨ r ∈ cs := by
    have hmerged : r ∈ xs.mergeSort le ↔ r ∈ xs := List.mem_mergeSort
    rw [← hmerged, hsorted, List.mem_append, List.mem_append, or_assoc]
  have hdiff {r : α} (hr : r ∈ xs) (h₁ : le p r = true) (h₂ : le r p = true) : False :=
    hne r hr (hle.antisymm p r h₁ h₂).symm
  have hdiff' {r : α} (hr : r ∈ xs) (h₁ : le q r = true) (h₂ : le r q = true) : False :=
    hne r hr ((hle.antisymm q r h₁ h₂).symm.trans hkey.symm)
  -- what stands in the middle is what lies between
  have hmiddle : (∀ x ∈ bs.map f, x = f p) ↔ ∀ r ∈ xs, Between le p q r → f r = f p := by
    rw [List.forall_mem_map]
    constructor
    · intro h r hr hbetween
      rcases hmem.mp hr with hr' | hr' | hr'
      · rcases hbetween with ⟨h₁, -⟩ | ⟨h₁, -⟩
        · exact absurd (has r hr') (by simp [h₁])
        · exact absurd (hbs r (List.mem_append_left bs hr')) (by simp [h₁])
      · exact h r hr'
      · rcases hbetween with ⟨-, h₂⟩ | ⟨-, h₂⟩
        · exact (hdiff' hr (hlast r hr') h₂).elim
        · exact (hdiff hr (hbehind r (List.mem_append_right bs hr')) h₂).elim
    · intro h r hr
      have htotal := hle.total q r
      rw [hbs r (List.mem_append_right as hr), Bool.false_or] at htotal
      exact h r (hmem.mpr (.inr (.inl hr)))
        (.inl ⟨hbehind r (List.mem_append_left cs hr), htotal⟩)
  rw [hp, hq, ← hmiddle]
  simp only [List.map_append, List.map_cons, List.append_assoc]
  rw [List.append_cancel_left_eq, ← List.cons_append, ← List.singleton_append (l := cs.map f),
    ← List.append_assoc (bs.map f), List.append_cancel_right_eq]
  exact cons_eq_append_singleton_iff

/-- **One element in place of another with its key.**  Nothing changes exactly when both give the
same and so does everything that lies between them. -/
theorem map_mergeSort_cons_eq_iff (hle : IsOrder key le) (f : α → β) {p q : α} {xs : List α}
    (hkey : key p = key q) (hne : ∀ r ∈ xs, key r ≠ key p) :
    ((p :: xs).mergeSort le).map f = ((q :: xs).mergeSort le).map f ↔
      f p = f q ∧ ∀ r ∈ xs, Between le p q r → f r = f p := by
  obtain ⟨as, bs, hp, hsp, has⟩ := List.mergeSort_cons hle.trans hle.total p xs
  obtain ⟨cs, ds, hq, hsq, hcs⟩ := List.mergeSort_cons hle.trans hle.total q xs
  have has' : ∀ r ∈ as, le p r = false := by
    intro r hr
    simpa using has r hr
  have hcs' : ∀ r ∈ cs, le q r = false := by
    intro r hr
    simpa using hcs r hr
  rcases List.append_eq_append_iff.mp (hsp.symm.trans hsq) with ⟨es, rfl, rfl⟩ | ⟨es, rfl, rfl⟩
  · exact map_insertion_eq_iff hle f hkey hne hsq hp hq has' hcs'
  · have hne' : ∀ r ∈ xs, key r ≠ key q := by
      intro r hr
      rw [← hkey]
      exact hne r hr
    have h := map_insertion_eq_iff hle f hkey.symm hne' hsp hq hp hcs' has'
    rw [eq_comm, h, eq_comm (a := f q)]
    refine and_congr_right fun hf => forall₂_congr fun r _ => ?_
    rw [hf]
    exact imp_congr_left ⟨Between.symm, Between.symm⟩

/-- The same with the two in the middle of a list, where no key occurs twice. -/
theorem map_mergeSort_middle_eq (hle : IsOrder key le) {f : α → β} {p q : α} {as bs : List α}
    (hkey : key p = key q) (honce : ((as ++ p :: bs).map key).Nodup) (hf : f p = f q)
    (hbetween : ∀ r ∈ as ++ bs, key r ≠ key p → Between le p q r → f r = f p) :
    ((as ++ p :: bs).mergeSort le).map f = ((as ++ q :: bs).mergeSort le).map f := by
  have honce' : ((as ++ q :: bs).map key).Nodup := by
    rwa [List.map_append, List.map_cons, ← hkey, ← List.map_cons, ← List.map_append]
  have hnodup : ((p :: (as ++ bs)).map key).Nodup :=
    (List.perm_middle.map key).nodup_iff.mp honce
  have hne : ∀ r ∈ as ++ bs, key r ≠ key p := by
    intro r hr heq
    exact (List.nodup_cons.mp hnodup).1 (heq ▸ List.mem_map_of_mem hr)
  rw [mergeSort_eq_of_perm hle List.perm_middle honce,
    mergeSort_eq_of_perm hle List.perm_middle honce', map_mergeSort_cons_eq_iff hle f hkey hne]
  refine ⟨hf, ?_⟩
  intro r hr
  exact hbetween r hr (hne r hr)

/-! ## Every order -/

/-- Elements of `xs` with one key give one `f`, and so does what lies between two of them. -/
def Interchangeable (key : α → κ) (le : α → α → Bool) (f : α → β) (xs : List α) : Prop :=
  ∀ p ∈ xs, ∀ q ∈ xs, key p = key q →
    f p = f q ∧ ∀ r ∈ xs, key r ≠ key p → Between le p q r → f r = f p

theorem Interchangeable.of_perm {f : α → β} {xs ys : List α}
    (h : Interchangeable key le f xs) (hperm : xs.Perm ys) : Interchangeable key le f ys := by
  intro p hp q hq hkey
  obtain ⟨hf, hbetween⟩ := h p (hperm.mem_iff.mpr hp) q (hperm.mem_iff.mpr hq) hkey
  refine ⟨hf, ?_⟩
  intro r hr
  exact hbetween r (hperm.mem_iff.mpr hr)

theorem exists_perm_cons {x : α} {xs : List α} (h : x ∈ xs) : ∃ ys, (x :: ys).Perm xs := by
  obtain ⟨as, bs, rfl⟩ := List.append_of_mem h
  exact ⟨as ++ bs, List.perm_middle.symm⟩

section

variable [DecidableEq κ]

theorem firstPerKey_append (key : α → κ) (as bs : List α) :
    firstPerKey key (as ++ bs) =
      firstPerKey key as ++ (firstPerKey key bs).filter fun b => key b ∉ as.map key := by
  induction as with
  | nil => simp
  | cons a as ih =>
    rw [List.cons_append, firstPerKey_cons, firstPerKey_cons, ih, List.filter_append,
      List.filter_filter, List.cons_append]
    congr 3
    funext b
    simp

/-- An element behind a list is kept when it is not in the list. -/
theorem firstPerKey_id_concat [DecidableEq α] (xs : List α) (x : α) :
    firstPerKey id (xs ++ [x]) = firstPerKey id xs ++ if x ∈ xs then [] else [x] := by
  have hone : firstPerKey id [x] = [x] := rfl
  rw [firstPerKey_append, List.map_id, hone]
  by_cases hx : x ∈ xs
  · rw [if_pos hx, List.filter_cons_of_neg (by simpa using hx), List.filter_nil]
  · rw [if_neg hx, List.filter_cons_of_pos (by simpa using hx), List.filter_nil]

/-- Of two neighbours with one key the first is kept. -/
theorem firstPerKey_cons_cons {p q : α} (hkey : key p = key q) (xs : List α) :
    firstPerKey key (p :: q :: xs) =
      p :: (firstPerKey key xs).filter fun y => key y ≠ key p := by
  rw [firstPerKey_cons, firstPerKey_cons, List.filter_cons_of_neg (by simp [hkey]),
    List.filter_filter, ← hkey]
  congr 2
  funext y
  exact Bool.and_self _

/-- Neighbours with different keys are kept in either order. -/
theorem firstPerKey_swap {p q : α} (hkey : key p ≠ key q) (xs : List α) :
    (firstPerKey key (p :: q :: xs)).Perm (firstPerKey key (q :: p :: xs)) := by
  rw [firstPerKey_cons, firstPerKey_cons, firstPerKey_cons, firstPerKey_cons,
    List.filter_cons_of_pos (by simpa using fun h => hkey h.symm),
    List.filter_cons_of_pos (by simpa using hkey), List.filter_comm]
  exact List.Perm.swap q p _

theorem map_select_swap (hle : IsOrder key le) {f : α → β} {as bs : List α} {x y : α}
    (h : Interchangeable key le f (as ++ x :: y :: bs)) :
    (select key le (as ++ x :: y :: bs)).map f = (select key le (as ++ y :: x :: bs)).map f := by
  have honce := nodup_map_firstPerKey key (as ++ x :: y :: bs)
  have hkept : ∀ r ∈ firstPerKey key (as ++ x :: y :: bs), r ∈ as ++ x :: y :: bs :=
    fun r => mem_of_mem_firstPerKey
  rw [firstPerKey_append] at honce hkept
  rw [select, select, firstPerKey_append, firstPerKey_append]
  by_cases hkey : key x = key y
  · have hfirst := firstPerKey_cons_cons hkey bs
    have hfirst' := firstPerKey_cons_cons hkey.symm bs
    rw [hfirst] at honce hkept ⊢
    rw [hfirst', ← hkey]
    by_cases hmem : key x ∈ as.map key
    · -- both are dropped
      rw [List.filter_cons_of_neg (by simpa using hmem),
        List.filter_cons_of_neg (by simpa [← hkey] using hmem)]
    · rw [List.filter_cons_of_pos (by simpa using hmem)] at honce hkept ⊢
      rw [List.filter_cons_of_pos (by simpa [← hkey] using hmem)]
      obtain ⟨hf, hbetween⟩ := h x (by simp) y (by simp) hkey
      refine map_mergeSort_middle_eq hle hkey honce hf ?_
      intro r hr
      have hrkept := List.perm_middle.mem_iff.mpr (List.mem_cons_of_mem x hr)
      exact hbetween r (hkept r hrkept)
  · have hperm := ((firstPerKey_swap hkey bs).filter fun b => key b ∉ as.map key).append_left
      (firstPerKey key as)
    rw [mergeSort_eq_of_perm hle hperm honce]

/-- Every permutation is made of exchanges of neighbours behind a common front. -/
theorem map_select_eq_of_perm (hle : IsOrder key le) {f : α → β} {xs ys : List α}
    (hperm : xs.Perm ys) :
    ∀ as : List α, Interchangeable key le f (as ++ xs) →
      (select key le (as ++ xs)).map f = (select key le (as ++ ys)).map f := by
  induction hperm with
  | nil => exact fun _ _ => rfl
  | cons x _ ih =>
    intro as h
    rw [List.append_cons] at h
    rw [List.append_cons, ih (as ++ [x]) h, ← List.append_cons]
  | swap x y l => exact fun as h => map_select_swap hle h
  | trans hxy _ ih₁ ih₂ =>
    intro as h
    rw [ih₁ as h, ih₂ as (h.of_perm (hxy.append_left as))]

/-- What is in common when either of two elements with one key comes first. -/
theorem eq_of_map_select_eq (hle : IsOrder key le) {f : α → β} {p q : α} {xs : List α}
    (hkey : key p = key q)
    (h : (select key le (p :: q :: xs)).map f = (select key le (q :: p :: xs)).map f) :
    f p = f q ∧ ∀ r ∈ firstPerKey key xs, key r ≠ key p → Between le p q r → f r = f p := by
  rw [select, select, firstPerKey_cons_cons hkey, firstPerKey_cons_cons hkey.symm, ← hkey] at h
  have hne : ∀ r ∈ (firstPerKey key xs).filter fun y => key y ≠ key p, key r ≠ key p := by
    intro r hr
    simpa using (List.mem_filter.mp hr).2
  obtain ⟨hf, hbetween⟩ := (map_mergeSort_cons_eq_iff hle f hkey hne).mp h
  exact ⟨hf, fun r hr hrp => hbetween r (List.mem_filter.mpr ⟨hr, by simpa using hrp⟩)⟩

/-- **What a selection gives does not depend on the order exactly when elements with one key are
interchangeable.** -/
theorem map_select_perm_iff (hle : IsOrder key le) (f : α → β) (xs : List α) :
    (∀ ys : List α, ys.Perm xs → (select key le ys).map f = (select key le xs).map f) ↔
      Interchangeable key le f xs := by
  constructor
  · intro h p hp q hq hkey
    by_cases hpq : p = q
    · subst hpq
      refine ⟨rfl, ?_⟩
      intro r _ hr hbetween
      refine absurd ?_ hr
      rcases hbetween with ⟨h₁, h₂⟩ | ⟨h₁, h₂⟩
      · exact hle.antisymm r p h₂ h₁
      · exact hle.antisymm r p h₂ h₁
    · -- a permutation that starts with `p` and `q`, and its copy that starts with `q` and `p`
      have hfront {zs : List α} (hzs : (p :: q :: zs).Perm xs) :=
        eq_of_map_select_eq hle hkey
          ((h _ hzs).trans (h _ ((List.Perm.swap p q zs).trans hzs)).symm)
      obtain ⟨ys, hys⟩ := exists_perm_cons hp
      have hqys : q ∈ ys := (List.mem_cons.mp (hys.mem_iff.mpr hq)).resolve_left (Ne.symm hpq)
      obtain ⟨zs, hzs⟩ := exists_perm_cons hqys
      have hperm : (p :: q :: zs).Perm xs := (hzs.cons p).trans hys
      refine ⟨(hfront hperm).1, ?_⟩
      intro r hr hrp hbetween
      have hrzs : r ∈ zs := by
        rcases List.mem_cons.mp (hperm.mem_iff.mpr hr) with rfl | hr
        · exact absurd rfl hrp
        · rcases List.mem_cons.mp hr with rfl | hr
          · exact absurd hkey.symm hrp
          · exact hr
      -- with `r` behind the two it is kept
      obtain ⟨ws, hws⟩ := exists_perm_cons hrzs
      have hkept : r ∈ firstPerKey key (r :: ws) := by
        rw [firstPerKey_cons]
        exact List.mem_cons_self
      exact (hfront (((hws.cons q).cons p).trans hperm)).2 r hkept hrp hbetween
  · intro h ys hperm
    exact map_select_eq_of_perm hle hperm [] (h.of_perm hperm.symm)

theorem length_select_of_perm {xs ys : List α} (h : xs.Perm ys) :
    (select key le xs).length = (select key le ys).length := by
  have hkeys (zs : List α) (k : κ) : k ∈ (select key le zs).map key ↔ k ∈ zs.map key := by
    rw [List.mem_map, List.mem_map]
    constructor
    · rintro ⟨x, hx, rfl⟩
      exact ⟨x, mem_of_mem_select hx, rfl⟩
    · rintro ⟨y, hy, rfl⟩
      exact exists_mem_select key le hy
  have hperm : ((select key le xs).map key).Perm ((select key le ys).map key) := by
    refine (List.perm_ext_iff_of_nodup (nodup_map_select key le xs)
      (nodup_map_select key le ys)).mpr ?_
    intro k
    rw [hkeys, hkeys]
    exact (h.map key).mem_iff
  simpa using hperm.length_eq

end

/-! ## Names and first answers -/

/-- An ascending list depends on its members only. -/
theorem ofList_eq_of_perm [DecidableEq α] (hle : IsOrder id le) {xs ys : List α}
    (h : xs.Perm ys) : ofList le xs = ofList le ys := by
  have hxs := ofList_pairwise hle xs
  have hys := ofList_pairwise hle ys
  have hperm : (ofList le xs).Perm (ofList le ys) := by
    refine (List.perm_ext_iff_of_nodup (hxs.imp And.right) (hys.imp And.right)).mpr ?_
    intro x
    rw [mem_ofList, mem_ofList]
    exact h.mem_iff
  exact hperm.eq_of_pairwise (fun a b _ _ hab hba => hle.antisymm a b hab hba)
    (hxs.imp And.left) (hys.imp And.left)

/-- The first answer of a list does not depend on its order exactly when there is only one. -/
theorem findSome?_perm_iff (g : α → Option β) (xs : List α) :
    (∀ ys : List α, ys.Perm xs → ys.findSome? g = xs.findSome? g) ↔
      ∀ p ∈ xs, ∀ q ∈ xs, ∀ s t, g p = some s → g q = some t → s = t := by
  constructor
  · intro h p hp q hq s t hs ht
    have hfirst {x : α} (hx : x ∈ xs) {u : β} (hu : g x = some u) : xs.findSome? g = some u := by
      obtain ⟨ys, hys⟩ := exists_perm_cons hx
      rw [← h _ hys, List.findSome?_cons_of_isSome (by rw [hu]; rfl), hu]
    exact Option.some_inj.mp ((hfirst hp hs).symm.trans (hfirst hq ht))
  · intro h ys hperm
    cases hxs : xs.findSome? g with
    | none =>
      rw [List.findSome?_eq_none_iff] at hxs ⊢
      intro y hy
      exact hxs y (hperm.mem_iff.mp hy)
    | some s =>
      obtain ⟨p, hp, hs⟩ := List.exists_of_findSome?_eq_some hxs
      have hsome : (ys.findSome? g).isSome = true :=
        List.findSome?_isSome_iff.mpr ⟨p, hperm.mem_iff.mpr hp, by rw [hs]; rfl⟩
      obtain ⟨t, ht⟩ := Option.isSome_iff_exists.mp hsome
      obtain ⟨q, hq, hqt⟩ := List.exists_of_findSome?_eq_some ht
      rw [ht, h q (hperm.mem_iff.mp hq) p hp t s hqt hs]

end Sorted
end HaxeBindings
