import HaxeBindings.Proofs.ArityIndex.Nesting
import HaxeBindings.Proofs.Generation.Independence
import HaxeBindings.Proofs.Mapping.Instantiation
import HaxeBindings.Proofs.Member.Needs

/-!
# One more definition

The arity index is built from the whole catalog, so a definition that is added can change
the externs of other types.  It is recorded under one base, the name in front of its first
mark, and this file says that it changes nothing for a type in which that base does not
stand at a leaf.

* `arities_ofTypes_added` --- of any other base the index knows what it knew;
* `Descriptor.KeepsClear` --- the types that do not mention a base: their members, and the
  generic parameters of their methods, which upgrades bring into the types of the members;
* `render_added` --- such a type is rendered as before.

## The argument

The leaves of a member's type are asked for by the mapping, and for a method twice: by the
upgrade, and by the mapping in the upgraded text.  What stands at a leaf there was at a leaf
of the text or of a generic parameter, or is the marked name, and has the same base then
(`forall_leafNames_upgradeText`).  So all answers are the same, and with the same answers
the same is emitted (`memberGroups_congr_of_askedTypes`).
-/

namespace HaxeBindings

open Text Schema

/-! ## The index -/

namespace ArityIndex

variable {types others : List Descriptor} {added : Descriptor} {index index' : ArityIndex}

/-- **What a definition adds is known of its own base only.** -/
theorem arities_ofTypes_added (h : ofTypes types = .ok index) (h' : ofTypes others = .ok index')
    (hperm : others.Perm (added :: types)) {base : Text}
    (hbase : base ≠ before arityMark added.baseName) :
    index'.arities base = index.arities base := by
  have hmem : added ∈ others := hperm.mem_iff.mpr List.mem_cons_self
  have hsame : aritiesAmong base ((added :: types).filterMap contributed) =
      aritiesAmong base (types.filterMap contributed) := by
    cases hadded : contributed added with
    | none => rw [List.filterMap_cons_none hadded]
    | some definition =>
      obtain ⟨front, n⟩ := definition
      obtain ⟨-, -, rfl⟩ :=
        (contributed_eq_some_iff (definition?_of_ofTypes h' added hmem)).mp hadded
      rw [List.filterMap_cons_some hadded, aritiesAmong,
        List.filter_cons_of_neg (by simpa using hbase.symm), ← aritiesAmong]
  have harities : (aritiesAmong base (others.filterMap contributed)).Perm
      (aritiesAmong base (types.filterMap contributed)) :=
    hsame ▸ ((hperm.filterMap contributed).filter _).map Prod.snd
  rw [arities_ofTypes h, arities_ofTypes h']
  exact Sorted.ofList_eq_of_perm isOrder_le harities

/-- A definition that is recorded has a parameter. -/
theorem pos_of_mem_arities_ofTypes (h : ofTypes types = .ok index) {base : Text} {n : Int}
    (hn : n ∈ index.arities base) : 0 < n := by
  rw [arities_ofTypes h, normalize, Sorted.mem_ofList, mem_aritiesAmong, List.mem_filterMap] at hn
  obtain ⟨d, hd, hn⟩ := hn
  obtain ⟨-, ⟨hne, rfl⟩, -⟩ := (contributed_eq_some_iff (definition?_of_ofTypes h d hd)).mp hn
  exact Int.natCast_pos.mpr (List.length_pos_iff.mpr hne)

end ArityIndex

/-! ## Types that do not mention a base -/

/-- No name at a leaf of a text has the given base. -/
def TypeExpr.KeepsClear (base text : Text) : Prop :=
  ∀ name ∈ (TypeExpr.parse [] text).leafNames, before arityMark name ≠ base

instance (base text : Text) : Decidable (TypeExpr.KeepsClear base text) :=
  inferInstanceAs (Decidable (∀ name ∈ _, _))

/-- A base stands at no leaf of the types of the members, nor of the generic parameters of the
methods. -/
structure Descriptor.KeepsClear (d : Descriptor) (base : Text) : Prop where
  constructors : ∀ c ∈ d.constructors, ∀ t ∈ c.types, TypeExpr.KeepsClear base t
  properties : ∀ p ∈ d.properties, TypeExpr.KeepsClear base p.type
  methods : ∀ method ∈ d.methods, ∀ t ∈ method.types, TypeExpr.KeepsClear base t
  generics : ∀ method ∈ d.methods, ∀ g ∈ method.genericParameters, TypeExpr.KeepsClear base g

theorem Method.mem_types_upgraded {m : Mapping} {method : Method} {u : Text}
    (h : u ∈ (method.upgraded m).types) :
    ∃ t, (t = voidName ∨ t ∈ method.types) ∧
      u = TypeExpr.upgradeText m.index method.genericParameters m.options.dynamicType t := by
  rcases List.mem_cons.mp h with rfl | h
  · refine ⟨if method.returnType.isEmpty then voidName else method.returnType, ?_, rfl⟩
    split
    · exact .inl rfl
    · exact .inr List.mem_cons_self
  · obtain ⟨p, hp, rfl⟩ := List.mem_map.mp h
    obtain ⟨q, hq, rfl⟩ := List.mem_map.mp hp
    exact ⟨q.type, .inr (List.mem_cons_of_mem _ (List.mem_map_of_mem hq)), rfl⟩

section

variable {i j : ArityIndex} {p : Text}

/-- A base of a user type is not the name of a type of the host itself. -/
theorem before_mark_ne {name : Text} (hhome : Package.IsHome {} (namespaceOf p))
    (hmark : arityMark ∉ name) (hsystem : namespaceOf name = "System".toList) :
    before arityMark name ≠ p := by
  rw [before_eq_self hmark]
  rintro rfl
  exact hhome.ne_system hsystem

theorem before_mark_objectName_ne (hhome : Package.IsHome {} (namespaceOf p)) :
    before arityMark objectName ≠ p := before_mark_ne hhome (by decide) (by decide)

/-- A name of the host itself keeps clear of the bases of user types. -/
theorem TypeExpr.keepsClear_system (hhome : Package.IsHome {} (namespaceOf p)) {name : Text}
    (hname : IsName name) (hparameter : ¬NamesParameter name) (hmark : arityMark ∉ name)
    (hsystem : namespaceOf name = "System".toList) : TypeExpr.KeepsClear p name := by
  rw [KeepsClear, parse, parseWithin_succ, shape_bare hname hparameter List.not_mem_nil]
  exact List.forall_mem_singleton.mpr (before_mark_ne hhome hmark hsystem)

/-- What keeps clear of a base does so whatever words the reader knows. -/
theorem TypeExpr.KeepsClear.before_ne {text : Text} (h : TypeExpr.KeepsClear p text)
    (hhome : Package.IsHome {} (namespaceOf p)) {words : List Text} {name : Text}
    (hname : name ∈ (TypeExpr.parse words text).leafNames) : before arityMark name ≠ p := by
  rcases List.mem_cons.mp
    (leafNames_parseWithin_subset (List.nil_subset words) (Nat.le_refl _) text hname) with
    rfl | hname
  · exact before_mark_objectName_ne hhome
  · exact h name hname

variable (hagree : ∀ base, base ≠ p → i.arities base = j.arities base)
  (hhome : Package.IsHome {} (namespaceOf p))

include hagree hhome

/-! ## Answers -/

theorem map_congr_of_keepsClear {text : Text} (h : TypeExpr.KeepsClear p text) :
    (⟨i, {}⟩ : Mapping).map text = (⟨j, {}⟩ : Mapping).map text :=
  mapExpr_congr {} _ fun _ hname => hagree _ (h.before_ne hhome hname)

theorem upgradeText_congr_of_keepsClear (hp : arityMark ∉ p) {text : Text}
    (h : TypeExpr.KeepsClear p text) (generics : List Text) :
    TypeExpr.upgradeText j generics ({} : Options).dynamicType text =
      TypeExpr.upgradeText i generics ({} : Options).dynamicType text := by
  refine upgradeText_congr generics _ fun name hname => (hagree name ?_).symm
  rintro rfl
  exact h.before_ne hhome hname (before_eq_self hp)

/-- **An upgraded text is mapped alike**, since nothing is at its leaves that was not at a leaf of
the text or of a generic parameter. -/
theorem map_upgradeText_congr (hknown : ∀ base, i.knows base = true → '<' ∉ base)
    (hpositive : ∀ base, ∀ a ∈ i.arities base, 0 < a) {text : Text}
    (h : TypeExpr.KeepsClear p text) {generics : List Text}
    (hplain : ∀ g ∈ generics, '<' ∉ g ∧ '>' ∉ g ∧ ',' ∉ g)
    (hgenerics : ∀ g ∈ generics, TypeExpr.KeepsClear p g) :
    (⟨i, {}⟩ : Mapping).map (TypeExpr.upgradeText i generics ({} : Options).dynamicType text) =
      (⟨j, {}⟩ : Mapping).map
        (TypeExpr.upgradeText i generics ({} : Options).dynamicType text) := by
  have hmarked (base : Text) (arity : Int) (hbase : before arityMark base ≠ p) :
      before arityMark (markArity base arity) ≠ p := by
    rwa [before_markArity]
  refine mapExpr_congr {} _ fun name hname => hagree _ ?_
  exact TypeExpr.forall_leafNames_upgradeText (P := fun name => before arityMark name ≠ p)
    isVocabulary_default.names (by decide) isVocabulary_default.object List.mem_cons_self hknown
    hpositive hplain (before_mark_objectName_ne hhome) hmarked h hgenerics name hname

/-- A type that keeps clear of a base emits the same whatever is known of the base. -/
theorem memberGroups_congr_of_keepsClear (hp : arityMark ∉ p)
    (hknown : ∀ base, i.knows base = true → '<' ∉ base)
    (hpositive : ∀ base, ∀ a ∈ i.arities base, 0 < a) {d : Descriptor} (hd : d.KeepsClear p)
    (hplain : ∀ method ∈ d.methods, ∀ g ∈ method.genericParameters,
      '<' ∉ g ∧ '>' ∉ g ∧ ',' ∉ g) :
    memberGroups (⟨i, {}⟩ : Mapping).map ⟨i, {}⟩ d =
      memberGroups (⟨j, {}⟩ : Mapping).map ⟨j, {}⟩ d := by
  have hobject : TypeExpr.KeepsClear p objectName :=
    TypeExpr.keepsClear_system hhome (by decide) (by decide) (by decide) (by decide)
  have hclear (method : Method) (hmethod : method ∈ d.methods) (t : Text)
      (ht : t = voidName ∨ t ∈ method.types) : TypeExpr.KeepsClear p t := by
    rcases ht with rfl | ht
    · exact TypeExpr.keepsClear_system hhome (by decide) (by decide) (by decide) (by decide)
    · exact hd.methods method hmethod t ht
  refine memberGroups_congr_of_askedTypes ?_ fun method hmethod => ?_
  · rw [Mapping.askedTypes, List.forall_mem_append, List.forall_mem_append]
    refine ⟨fun t ht => ?_, fun t ht => ?_, fun t ht => ?_⟩
    · obtain ⟨c, hc, ht⟩ := List.mem_flatMap.mp ht
      exact map_congr_of_keepsClear hagree hhome
        (hd.constructors c (List.mem_of_mem_filter hc) t ht)
    · obtain ⟨q, hq, ht⟩ := List.mem_flatMap.mp ht
      unfold Property.askedTypes at ht
      split at ht
      · exact absurd ht List.not_mem_nil
      · rw [List.mem_singleton.mp ht]
        split
        · exact map_congr_of_keepsClear hagree hhome hobject
        · exact map_congr_of_keepsClear hagree hhome (hd.properties q hq)
    · obtain ⟨method, hmethod, ht⟩ := List.mem_flatMap.mp ht
      have hmethod := List.mem_of_mem_filter hmethod
      obtain ⟨text, htext, hu⟩ := Method.mem_types_upgraded ht
      rw [hu]
      exact map_upgradeText_congr hagree hhome hknown hpositive
        (hclear method hmethod text htext) (hplain method hmethod) (hd.generics method hmethod)
  · refine (upgraded_congr_of_types fun t ht => ?_).symm
    exact (upgradeText_congr_of_keepsClear hagree hhome hp (hclear method hmethod t ht) _).symm

end

/-! ## Rendering -/

/-- **Adding a definition affects the types that mention its base only.**  With the default options,
a definition whose marker can be read may be added to a catalog that has an index, at any place.
There is an index again, and every type that keeps clear of the base of the definition is rendered
as before, whatever was asked of the two contexts in the meantime. -/
theorem render_added {types others : List Descriptor} {added : Descriptor} {m : Mapping}
    (hm : Mapping.ofTypes {} types = .ok m) (hindex : ∀ e ∈ m.index.entries, '<' ∉ e.1)
    (hreadable : HasReadableArity added.baseName)
    (hhome : '.' ∉ before arityMark added.baseName ∨
      "Sandbox.".toList <+: before arityMark added.baseName)
    (hperm : others.Perm (added :: types)) :
    ∃ m', Mapping.ofTypes {} others = .ok m' ∧
      ∀ d : Descriptor, d.KeepsClear (before arityMark added.baseName) →
        (∀ method ∈ d.methods, ∀ g ∈ method.genericParameters, '<' ∉ g ∧ '>' ∉ g ∧ ',' ∉ g) →
          m'.render d = m.render d ∧ ∀ history history',
            (Memo.render m' d (Memo.after m' history')).1 =
              (Memo.render m d (Memo.after m history)).1 := by
  obtain ⟨m', hm'⟩ : ∃ m', Mapping.ofTypes {} others = .ok m' := by
    refine (ofTypes_isOk_iff {} others).mpr fun d hd => ?_
    rcases List.mem_cons.mp (hperm.mem_iff.mp hd) with rfl | hd
    · exact fun _ => hreadable
    · exact (ofTypes_isOk_iff {} types).mp ⟨m, hm⟩ d hd
  refine ⟨m', hm', fun d hd hplain => ?_⟩
  have htypes := (ofTypes_eq_ok hm).1
  have hothers := (ofTypes_eq_ok hm').1
  obtain ⟨i, o₁⟩ := m
  obtain ⟨j, o₂⟩ := m'
  obtain rfl : o₁ = {} := options_of_ofTypes hm
  obtain rfl : o₂ = {} := options_of_ofTypes hm'
  have hagree (base : Text) (hbase : base ≠ before arityMark added.baseName) :
      i.arities base = j.arities base :=
    (ArityIndex.arities_ofTypes_added htypes hothers hperm hbase).symm
  have hknown (base : Text) (hbase : i.knows base = true) : '<' ∉ base := by
    obtain ⟨e, he, rfl, -⟩ := ArityIndex.exists_entry_of_knows hbase
    exact hindex e he
  have hgroups := memberGroups_congr_of_keepsClear hagree (Mapping.isHome_namespaceOf hhome)
    (not_mem_before _ _) hknown (fun _ _ => ArityIndex.pos_of_mem_arities_ofTypes htypes) hd hplain
  have hrender : (⟨j, {}⟩ : Mapping).render d = (⟨i, {}⟩ : Mapping).render d := by
    unfold Mapping.render
    rw [hgroups]
  refine ⟨hrender, fun history history' => ?_⟩
  rw [(Memo.render_eq (Memo.faithful_after _ history') d).1,
    (Memo.render_eq (Memo.faithful_after _ history) d).1, hrender]

/-- A second generic type beside a pool, and a type that mentions the pool alone: in a property, and
in the method of a generic parameter. -/
theorem render_added_cell :
    let pool : Descriptor :=
      { fullName := "Sandbox.Pool".toList ++ [arityMark, '1'] ++ "<T>".toList
        genericParameters := [['T']] }
    let cell : Descriptor :=
      { fullName := "Sandbox.Cell".toList ++ [arityMark, '2'] ++ "<K,V>".toList
        genericParameters := [['K'], ['V']] }
    let user : Descriptor :=
      { fullName := "Sandbox.User".toList
        properties := [{ name := ['p'], type := "Sandbox.Pool[]".toList }]
        methods := [{ name := "Fill".toList, genericParameters := ["TItem".toList]
                      parameters := [{ name := ['q'], type := "Sandbox.Pool".toList }] }] }
    let types := [pool, user]
    let others := [pool, cell, user]
    ∃ m m', Mapping.ofTypes {} types = .ok m ∧ Mapping.ofTypes {} others = .ok m' ∧
      (∀ e ∈ m.index.entries, '<' ∉ e.1) ∧ HasReadableArity cell.baseName ∧
      others.Perm (cell :: types) ∧ user.KeepsClear "Sandbox.Cell".toList ∧
      m.index.arities "Sandbox.Cell".toList = [] ∧ m'.index.arities "Sandbox.Cell".toList = [2] ∧
      m'.render user = m.render user := by
  intro pool cell user types others
  have hm : Mapping.ofTypes {} types = .ok ⟨⟨[("Sandbox.Pool".toList, [1])]⟩, {}⟩ := by
    decide +kernel
  have hothers : Mapping.ofTypes {} others =
      .ok ⟨⟨[("Sandbox.Pool".toList, [1]), ("Sandbox.Cell".toList, [2])]⟩, {}⟩ := by
    decide +kernel
  have hbase : before arityMark cell.baseName = "Sandbox.Cell".toList := by decide +kernel
  have hindex : ∀ e ∈ (⟨[("Sandbox.Pool".toList, [1])]⟩ : ArityIndex).entries, '<' ∉ e.1 := by
    decide +kernel
  have hreadable : HasReadableArity cell.baseName := by decide +kernel
  have hhome : '.' ∉ before arityMark cell.baseName ∨
      "Sandbox.".toList <+: before arityMark cell.baseName := by
    rw [hbase]
    exact .inr (by decide)
  have hperm : others.Perm (cell :: types) := List.Perm.swap cell pool [user]
  have hclear : user.KeepsClear "Sandbox.Cell".toList :=
    ⟨by decide +kernel, by decide +kernel, by decide +kernel, by decide +kernel⟩
  obtain ⟨m', hm', hrender⟩ := render_added hm hindex hreadable hhome hperm
  have hfound : m' = ⟨⟨[("Sandbox.Pool".toList, [1]), ("Sandbox.Cell".toList, [2])]⟩, {}⟩ :=
    Except.ok.inj (hm'.symm.trans hothers)
  refine ⟨_, m', hm, hm', hindex, hreadable, hperm, hclear, by decide +kernel, ?_,
    (hrender user (hbase ▸ hclear) (by decide +kernel)).1⟩
  rw [hfound]
  decide +kernel

end HaxeBindings
