import HaxeBindings.ArityIndex
import HaxeBindings.Proofs.Sorted.Exchange
import HaxeBindings.Proofs.Traversal

/-!
# The definitions behind an index

The index is built by going through the descriptors of a catalog and recording each
definition under its base.  What is known of a base afterwards is read off the list
of definitions directly: `arities_ofTypes` says that it is the arities of all
definitions with that base, in ascending order and each once.

Ascending lists do not remember an order, so the index of a permuted catalog knows
the same of every base (`arities_ofTypes_of_perm`), though it may list its bases
differently.
-/

namespace HaxeBindings

theorem lookup_cons_eq {κ α : Type} [BEq κ] [LawfulBEq κ] [DecidableEq κ] (b c : κ) (v : α)
    (rest : List (κ × α)) :
    ((c, v) :: rest).lookup b = if b = c then some v else rest.lookup b := by
  rw [List.lookup_cons]
  by_cases h : b = c
  · simp [h]
  · rw [beq_false_of_ne h, if_neg h]

namespace ArityIndex

/-- The definition a descriptor contributes; `none` when its arity marker cannot be read. -/
def contributed (d : Descriptor) : Option (Text × Int) := (definition? d).toOption.getD none

/-- The arities that a list of definitions gives a base. -/
def aritiesAmong (base : Text) (definitions : List (Text × Int)) : List Int :=
  (definitions.filter fun d => d.1 = base).map Prod.snd

/-- The entries of the index of a list of definitions. -/
def record (entries : List (Text × List Int)) (definitions : List (Text × Int)) :
    List (Text × List Int) :=
  definitions.foldl (fun es d => add d.1 d.2 es) entries

/-! ## One definition after the other -/

theorem lookup_map_normalize (entries : List (Text × List Int)) (base : Text) :
    (entries.map fun e => (e.1, normalize e.2)).lookup base =
      (entries.lookup base).map normalize := by
  induction entries with
  | nil => rfl
  | cons e rest ih =>
    rw [List.map_cons, lookup_cons_eq, lookup_cons_eq, ih]
    split
    · rfl
    · rfl

theorem lookup_add (base b : Text) (arity : Int) (entries : List (Text × List Int)) :
    ((add base arity entries).lookup b).getD [] =
      (entries.lookup b).getD [] ++ if b = base then [arity] else [] := by
  induction entries with
  | nil =>
    rw [add, lookup_cons_eq]
    split
    · rfl
    · rfl
  | cons e rest ih =>
    obtain ⟨c, arities⟩ := e
    unfold add
    by_cases hc : c = base
    · subst hc
      rw [if_pos rfl, lookup_cons_eq, lookup_cons_eq]
      by_cases hb : b = c
      · rw [if_pos hb, if_pos hb, if_pos hb]
        rfl
      · rw [if_neg hb, if_neg hb, if_neg hb, List.append_nil]
    · rw [if_neg hc, lookup_cons_eq, lookup_cons_eq]
      by_cases hb : b = c
      · have hbase : b ≠ base := fun h => hc (hb.symm.trans h)
        rw [if_pos hb, if_pos hb, if_neg hbase, List.append_nil]
      · rw [if_neg hb, if_neg hb, ih]

/-- What is recorded of a base is what its definitions give it, behind what was recorded before. -/
theorem lookup_record (b : Text) (definitions : List (Text × Int))
    (entries : List (Text × List Int)) :
    ((record entries definitions).lookup b).getD [] =
      (entries.lookup b).getD [] ++ aritiesAmong b definitions := by
  induction definitions generalizing entries with
  | nil => simp [record, aritiesAmong]
  | cons d rest ih =>
    have htail := ih (add d.1 d.2 entries)
    rw [lookup_add] at htail
    rw [record, List.foldl_cons, ← record, htail, List.append_assoc]
    congr 1
    by_cases hd : d.1 = b
    · simp [aritiesAmong, hd]
    · simp [aritiesAmong, hd, Ne.symm hd]

theorem mem_add {base : Text} {arity : Int} {entries : List (Text × List Int)}
    (h : ∀ e ∈ entries, e.2 ≠ []) : ∀ e ∈ add base arity entries, e.2 ≠ [] := by
  induction entries with
  | nil => simp [add]
  | cons e rest ih =>
    obtain ⟨c, arities⟩ := e
    have hrest := ih fun e he => h e (List.mem_cons_of_mem _ he)
    unfold add
    split
    · rw [List.forall_mem_cons]
      exact ⟨by simp, fun e he => h e (List.mem_cons_of_mem _ he)⟩
    · rw [List.forall_mem_cons]
      exact ⟨h _ List.mem_cons_self, hrest⟩

/-- No base is recorded without an arity. -/
theorem mem_record {definitions : List (Text × Int)} {entries : List (Text × List Int)}
    (h : ∀ e ∈ entries, e.2 ≠ []) : ∀ e ∈ record entries definitions, e.2 ≠ [] := by
  induction definitions generalizing entries with
  | nil => exact h
  | cons d rest ih =>
    rw [record, List.foldl_cons]
    exact ih (mem_add h)

/-! ## The index -/

theorem arities_ofEntries {entries : List (Text × List Int)} (h : ∀ e ∈ entries, e.2 ≠ [])
    (base : Text) :
    (ofEntries entries).arities base = normalize ((entries.lookup base).getD []) := by
  have hkept : entries.filter (fun e => !e.2.isEmpty) = entries := by
    refine List.filter_eq_self.mpr fun e he => ?_
    simpa using h e he
  rw [ofEntries, hkept, arities, lookup_map_normalize]
  cases entries.lookup base with
  | none => rfl
  | some arities => rfl

theorem definition?_eq_ok {d : Descriptor} (h : ∃ r, definition? d = .ok r) :
    definition? d = .ok (contributed d) := by
  obtain ⟨r, hr⟩ := h
  rw [contributed, hr]
  rfl

/-- Where there is an index, the marker of every definition can be read. -/
theorem definition?_of_ofTypes {types : List Descriptor} {index : ArityIndex}
    (h : ofTypes types = .ok index) : ∀ d ∈ types, definition? d = .ok (contributed d) := by
  obtain ⟨definitions, hdefinitions, -⟩ := bind_eq_ok h
  exact fun d hd => definition?_eq_ok (mapM_isOk_iff.mp ⟨definitions, hdefinitions⟩ d hd)

/-- **What an index knows of a base**: the arities of the definitions with that base. -/
theorem arities_ofTypes {types : List Descriptor} {index : ArityIndex}
    (h : ofTypes types = .ok index) (base : Text) :
    index.arities base = normalize (aritiesAmong base (types.filterMap contributed)) := by
  have hdefinitions : types.mapM definition? = .ok (types.map contributed) :=
    mapM_eq_ok (definition?_of_ofTypes h)
  have hindex : index = ofEntries (record [] (types.filterMap contributed)) := by
    unfold ofTypes at h
    rw [hdefinitions] at h
    have heq := (Except.ok.inj h).symm
    rwa [List.filterMap_map, Function.id_comp] at heq
  rw [hindex, arities_ofEntries (mem_record (by simp)), lookup_record]
  rfl

/-! ## Order -/

theorem isOrder_le : Sorted.IsOrder id fun a b : Int => decide (a ≤ b) where
  total a b := by
    rw [Bool.or_eq_true, decide_eq_true_eq, decide_eq_true_eq]
    exact Int.le_total a b
  trans a b c := by
    rw [decide_eq_true_eq, decide_eq_true_eq, decide_eq_true_eq]
    exact Int.le_trans
  antisymm a b := by
    rw [decide_eq_true_eq, decide_eq_true_eq]
    exact Int.le_antisymm

/-- **The order of the catalog does not show in what its index knows.** -/
theorem arities_ofTypes_of_perm {types others : List Descriptor} {index index' : ArityIndex}
    (hperm : others.Perm types) (h : ofTypes types = .ok index) (h' : ofTypes others = .ok index')
    (base : Text) : index'.arities base = index.arities base := by
  have harities : (aritiesAmong base (others.filterMap contributed)).Perm
      (aritiesAmong base (types.filterMap contributed)) :=
    ((hperm.filterMap contributed).filter _).map Prod.snd
  rw [arities_ofTypes h, arities_ofTypes h']
  exact Sorted.ofList_eq_of_perm isOrder_le harities

end ArityIndex
end HaxeBindings
