import HaxeBindings.Mapping
import HaxeBindings.Proofs.Package
import HaxeBindings.Proofs.Traversal
import HaxeBindings.Proofs.TypeExpr.RoundTrip

/-!
# What a mapped type looks like

A mapped type is a name, or a name applied to mapped types (`IsTargetType`), and the
characters of its names are identifier characters, dots, lowered letters and
characters of the names that were mapped.

* `mapExpr_named_eq_ok` --- the three things that a host type can be mapped to: a core
  type, its base alone, and its base applied to arguments, so a mapped type has one of
  five forms (`mapExpr_eq_ok`);
* `userType_eq_ok` --- the base is the dynamic type when the namespace is foreign, and
  a package and an identifier otherwise;
* `isTargetType_mapExpr` --- with the default options, every canonical tree that is
  mapped at all is mapped to a target type;
* `IsTargetType.isClosed`, `IsTargetType.mem` --- a target type is one item of an
  argument list, and holds nothing but its characters, brackets and commas.

A tree keeps its names out of the punctuation by being canonical, so of the class of
characters nothing need be known for `isClosed_mapExpr`.
-/

namespace HaxeBindings

open Text Schema Name

namespace Mapping

variable {m : Mapping}

/-! ## Host types -/

/-- The names that have a core type: host primitives, 64-bit integers and the root object type. -/
theorem coreType?_eq_some {name t : Text} (h : m.coreType? name = some t) :
    (∃ e ∈ primitive?.table, e.1.toList = name ∧ e.2.toList = t) ∨
      (name = int64Name ∧ t = m.options.int64Type) ∨
      (name = objectName ∧ t = m.options.dynamicType) := by
  unfold coreType? at h
  split at h
  · next core hcore =>
    obtain ⟨e, he, rfl⟩ := Option.map_eq_some_iff.mp hcore
    have hname : e.1.toList = name := by simpa using List.find?_some he
    exact .inl ⟨e, List.mem_of_find?_eq_some he, hname, Option.some_inj.mp h⟩
  · split at h
    · next hint64 => exact .inr (.inl ⟨hint64, (Option.some_inj.mp h).symm⟩)
    · split at h
      · next hobject => exact .inr (.inr ⟨hobject, (Option.some_inj.mp h).symm⟩)
      · exact absurd h.symm (Option.some_ne_none t)

/-- Core types are words of the target vocabulary. -/
theorem mem_vocabulary_of_coreType? {name t : Text} (h : m.coreType? name = some t) :
    t ∈ m.options.vocabulary := by
  have htable : ∀ e ∈ primitive?.table, e.2.toList ∈ ["Void".toList, "Int".toList, "UInt".toList,
      "Float".toList, "Bool".toList, "String".toList] := by decide
  rcases coreType?_eq_some h with ⟨e, he, -, rfl⟩ | ⟨-, rfl⟩ | ⟨-, rfl⟩
  · exact List.mem_cons_of_mem _ (List.mem_append_left [m.options.int64Type] (htable e he))
  · simp [Options.vocabulary]
  · exact List.mem_cons_self

/-- Only names in the namespace of the host itself have a core type. -/
theorem namespaceOf_of_coreType? {name t : Text} (h : m.coreType? name = some t) :
    namespaceOf name = "System".toList := by
  have htable : ∀ e ∈ primitive?.table, namespaceOf e.1.toList = "System".toList := by decide
  rcases coreType?_eq_some h with ⟨e, he, rfl, -⟩ | ⟨rfl, -⟩ | ⟨rfl, -⟩
  · exact htable e he
  · decide
  · decide

/-- A user type is erased when its namespace is foreign, and goes to its package otherwise. -/
theorem userType_eq_ok {name u : Text} (h : m.userType name = .ok u) :
    (Package.nameOfReference m.options (namespaceOf name) = none ∧ u = m.options.dynamicType) ∨
      ∃ package identifier, Package.nameOfReference m.options (namespaceOf name) = some package ∧
        typeIdentifier? m.options.defaultTypeName (simpleName name) = some identifier ∧
        u = package ++ '.' :: identifier := by
  unfold userType at h
  split at h
  · exact nomatch h
  · split at h
    · next hforeign => exact .inl ⟨hforeign, (Except.ok.inj h).symm⟩
    · next package hpackage =>
      split at h
      · exact nomatch h
      · next identifier hidentifier =>
        exact .inr ⟨package, identifier, hpackage, hidentifier, (Except.ok.inj h).symm⟩

/-- **A host type is mapped to a core type, to its base, or to its base applied to arguments.**
The arguments are the mapped ones, or dynamic ones that were implied. -/
theorem mapExpr_named_eq_ok {name u : Text} {arguments : List TypeExpr}
    (h : m.mapExpr (.named name arguments) = .ok u) :
    m.coreType? name = some u ∨ m.coreType? name = none ∧ ∃ base, m.userType name = .ok base ∧
      (u = base ∨ base ≠ m.options.dynamicType ∧ ∃ ts, ts ≠ [] ∧ u = applied base ts ∧
        ∀ t ∈ ts, t = m.options.dynamicType ∨ ∃ a ∈ arguments, m.mapExpr a = .ok t) := by
  cases arguments with
  | nil =>
    rw [mapExpr] at h
    obtain ⟨arity, -, h⟩ := bind_eq_ok h
    split at h
    · next core hcore => exact .inl (hcore.trans (congrArg some (Except.ok.inj h)))
    · next hcore =>
      obtain ⟨base, hbase, h⟩ := bind_eq_ok h
      refine .inr ⟨hcore, base, hbase, ?_⟩
      rw [← Except.ok.inj h, applyTo]
      split
      · exact .inl rfl
      · next hsome =>
        split
        · exact .inl rfl
        · next hdynamic =>
          refine .inr ⟨hdynamic, _, fun hnil => hsome (List.isEmpty_iff.mpr hnil), rfl, ?_⟩
          exact fun t ht => .inl (List.eq_of_mem_replicate ht)
  | cons first others =>
    rw [mapExpr] at h
    split at h
    · next core hcore => exact .inl (hcore.trans (congrArg some (Except.ok.inj h)))
    · next hcore =>
      obtain ⟨base, hbase, h⟩ := bind_eq_ok h
      refine .inr ⟨hcore, base, hbase, ?_⟩
      split at h
      · exact .inl (Except.ok.inj h).symm
      · next hdynamic =>
        obtain ⟨t, ht, h⟩ := bind_eq_ok h
        obtain ⟨ts, hts, h⟩ := bind_eq_ok h
        rw [mapExprs_eq_mapM] at hts
        refine .inr ⟨hdynamic, t :: ts, List.cons_ne_nil t ts, (Except.ok.inj h).symm, ?_⟩
        rw [List.forall_mem_cons]
        refine ⟨.inr ⟨first, List.mem_cons_self, ht⟩, fun v hv => ?_⟩
        obtain ⟨a, ha, hav⟩ := (exists_of_mapM_eq_ok hts).2 v hv
        exact .inr ⟨a, List.mem_cons_of_mem first ha, hav⟩

/-- **The five forms of a mapped type.** -/
theorem mapExpr_eq_ok {e : TypeExpr} {u : Text} (h : m.mapExpr e = .ok u) :
    u ∈ m.options.vocabulary ∨ e = .primitive u ∨
      (∃ name, e = .parameter name ∧ u = TypeExpr.parameterIdentifier name) ∨
      (∃ package identifier, u = package ++ '.' :: identifier) ∨ ∃ base ts, u = applied base ts := by
  cases e with
  | primitive keyword => exact .inr (.inl (congrArg _ (Except.ok.inj h)))
  | array element =>
    rw [mapExpr] at h
    obtain ⟨t, -, h⟩ := bind_eq_ok h
    exact .inr (.inr (.inr (.inr ⟨_, _, (Except.ok.inj h).symm⟩)))
  | nullable inner =>
    rw [mapExpr] at h
    obtain ⟨t, -, h⟩ := bind_eq_ok h
    exact .inr (.inr (.inr (.inr ⟨_, _, (Except.ok.inj h).symm⟩)))
  | named name arguments =>
    rcases mapExpr_named_eq_ok h with hcore | ⟨-, base, hbase, hu⟩
    · exact .inl (mem_vocabulary_of_coreType? hcore)
    · rcases hu with rfl | ⟨-, ts, -, hu, -⟩
      · rcases userType_eq_ok hbase with ⟨-, rfl⟩ | ⟨package, identifier, -, -, hu⟩
        · exact .inl List.mem_cons_self
        · exact .inr (.inr (.inr (.inl ⟨package, identifier, hu⟩)))
      · exact .inr (.inr (.inr (.inr ⟨base, ts, hu⟩)))
  | parameter name => exact .inr (.inr (.inl ⟨name, rfl, (Except.ok.inj h).symm⟩))
  | unclassified => exact .inl (Except.ok.inj h ▸ List.mem_cons_self)

/-! ## Target types -/

/-- A class of characters that holds what names are written with, and no punctuation of type
strings. -/
structure IsNameClass (ok : Char → Prop) : Prop where
  identifier : ∀ c, isIdentifierChar c = true → ok c
  dot : ok '.'
  lowered : ∀ c, IsLowered c → ok c
  no_open : ¬ok '<'
  no_close : ¬ok '>'
  no_comma : ¬ok ','

/-- A name in the characters of a class, or such a name applied to target types. -/
inductive IsTargetType (ok : Char → Prop) : Text → Prop
  | name {t : Text} : t ≠ [] → (∀ c ∈ t, ok c) → IsTargetType ok t
  | applied {base : Text} {ts : List Text} : (∀ c ∈ base, ok c) → ts ≠ [] →
      (∀ t ∈ ts, IsTargetType ok t) → IsTargetType ok (applied base ts)

section

variable {ok : Char → Prop} {t : Text}

/-- A target type is one item of an argument list. -/
theorem IsTargetType.isClosed (hok : IsNameClass ok) (h : IsTargetType ok t) : IsClosed t := by
  have hplain {t : Text} (ht : ∀ c ∈ t, ok c) : '<' ∉ t ∧ '>' ∉ t ∧ ',' ∉ t :=
    ⟨fun hc => hok.no_open (ht _ hc), fun hc => hok.no_close (ht _ hc),
      fun hc => hok.no_comma (ht _ hc)⟩
  induction h with
  | name hne ht =>
    obtain ⟨hopen, hclose, hcomma⟩ := hplain ht
    exact ⟨hne, balanced_of_no_bracket hopen hclose, unsplit_of_no_comma hcomma⟩
  | applied hbase _ _ ih =>
    obtain ⟨hopen, hclose, hcomma⟩ := hplain hbase
    exact isClosed_applied (balanced_of_no_bracket hopen hclose) hcomma
      (balanced_join fun t ht => (ih t ht).balanced)

/-- What a target type holds. -/
theorem IsTargetType.mem (h : IsTargetType ok t) {c : Char} (hc : c ∈ t) :
    ok c ∨ c = '<' ∨ c = '>' ∨ c = ',' := by
  induction h with
  | name _ ht => exact .inl (ht c hc)
  | applied hbase _ _ ih =>
    rw [Mapping.applied, List.mem_append, List.mem_append, List.mem_cons] at hc
    rcases hc with (hc | rfl | hc) | hc
    · exact .inl (hbase c hc)
    · exact .inr (.inl rfl)
    · rcases mem_join hc with hc | ⟨t, ht, hc⟩
      · exact .inr (.inr (.inr (List.mem_singleton.mp hc)))
      · exact ih t ht hc
    · exact .inr (.inr (.inl (List.mem_singleton.mp hc)))

/-- A word of the target language around a target type. -/
theorem IsTargetType.wrapped (hok : IsNameClass ok) {word : Text}
    (hword : ∀ c ∈ word, isIdentifierChar c = true) (h : IsTargetType ok t) :
    IsTargetType ok (Mapping.applied word [t]) := by
  refine .applied (fun c hc => hok.identifier c (hword c hc)) (List.cons_ne_nil t []) ?_
  rw [List.forall_mem_singleton]
  exact h

end

/-! ## Mapping with the default options -/

section

variable {index : ArityIndex} {ok : Char → Prop}

/-- The words of the vocabulary are names. -/
theorem isTargetType_of_mem_vocabulary (hok : IsNameClass ok) {t : Text}
    (h : t ∈ ({} : Options).vocabulary) : IsTargetType ok t := by
  have hwords : ∀ k ∈ ({} : Options).vocabulary, k ≠ [] ∧
      k.all (fun c => decide (isIdentifierChar c = true ∨ c = '.')) = true := by decide
  obtain ⟨hne, hchars⟩ := hwords t h
  refine .name hne fun c hc => ?_
  rcases forall_mem_of_all hchars c hc with hc | rfl
  · exact hok.identifier c hc
  · exact hok.dot

/-- The package of segments in the characters of a class is written in them. -/
theorem ok_of_mem_nameOf (hok : IsNameClass ok) {segments : List Text}
    (hsegments : ∀ s ∈ segments, ∀ c ∈ s, ok c) {c : Char} (hc : c ∈ Package.nameOf {} segments) :
    ok c := by
  have hroot : ∀ c ∈ ({} : Options).rootPackageText, isIdentifierChar c = true :=
    forall_mem_of_all (by decide)
  rcases Package.mem_nameOf hc with hc | rfl | ⟨segment, hsegment, hc⟩ | hc
  · exact hok.identifier c (hroot c hc)
  · exact hok.dot
  · exact hsegments segment hsegment c hc
  · exact hok.lowered c hc

/-- The base that a name is mapped to is a name. -/
theorem userType_name (hok : IsNameClass ok) {name base : Text} (hname : ∀ c ∈ name, ok c)
    (h : (⟨index, {}⟩ : Mapping).userType name = .ok base) : base ≠ [] ∧ ∀ c ∈ base, ok c := by
  rcases userType_eq_ok h with ⟨-, rfl⟩ | ⟨package, identifier, hpackage, hidentifier, rfl⟩
  · have hdynamic : ∀ c ∈ ({} : Options).dynamicType, isIdentifierChar c = true :=
      forall_mem_of_all (by decide)
    exact ⟨List.cons_ne_nil _ _, fun c hc => hok.identifier c (hdynamic c hc)⟩
  · have hdefault : ∀ c ∈ ({} : Options).defaultTypeName, isIdentifierChar c = true :=
      forall_mem_of_all (by decide)
    obtain ⟨-, hchars⟩ := isIdentifierChar_of_typeIdentifier? hdefault hidentifier
    refine ⟨by simp, fun c hc => ?_⟩
    rw [List.mem_append, List.mem_cons] at hc
    rcases hc with hc | rfl | hc
    · obtain ⟨segments, hsegments, rfl⟩ := Package.nameOfReference_eq_some hpackage
      exact ok_of_mem_nameOf hok (fun s hs c hc =>
        hname c (mem_of_mem_namespaceOf (hsegments.mem hs hc))) hc
    · exact hok.dot
    · exact hok.identifier c (hchars c hc)

theorem isTargetType_named (hok : IsNameClass ok) {name u : Text} {arguments : List TypeExpr}
    (hname : ∀ c ∈ name, ok c)
    (harguments : ∀ a ∈ arguments, ∀ t, (⟨index, {}⟩ : Mapping).mapExpr a = .ok t →
      IsTargetType ok t)
    (h : (⟨index, {}⟩ : Mapping).mapExpr (.named name arguments) = .ok u) : IsTargetType ok u := by
  rcases mapExpr_named_eq_ok h with hcore | ⟨-, base, hbase, hu⟩
  · exact isTargetType_of_mem_vocabulary hok (mem_vocabulary_of_coreType? hcore)
  · obtain ⟨hne, hchars⟩ := userType_name hok hname hbase
    rcases hu with rfl | ⟨-, ts, hts, rfl, hmem⟩
    · exact .name hne hchars
    · refine .applied hchars hts fun t ht => ?_
      rcases hmem t ht with rfl | ⟨a, ha, hat⟩
      · exact isTargetType_of_mem_vocabulary hok List.mem_cons_self
      · exact harguments a ha t hat

/-- **A canonical tree is mapped to a target type**, in the characters of any class that its names
are written in. -/
theorem isTargetType_mapExpr (hok : IsNameClass ok) {e : TypeExpr}
    (h : TypeExpr.IsCanonical ({} : Options).vocabulary e)
    (hnames : ∀ name ∈ e.names, ∀ c ∈ name, ok c) {u : Text}
    (hu : (⟨index, {}⟩ : Mapping).mapExpr e = .ok u) : IsTargetType ok u := by
  induction h generalizing u with
  | primitive hkeyword =>
    rw [mapExpr] at hu
    rw [← Except.ok.inj hu]
    exact isTargetType_of_mem_vocabulary hok hkeyword
  | array _ ih =>
    rw [mapExpr] at hu
    obtain ⟨t, ht, hu⟩ := bind_eq_ok hu
    rw [← Except.ok.inj hu]
    exact (ih hnames ht).wrapped hok (forall_mem_of_all (by decide))
  | nullable _ ih =>
    rw [mapExpr] at hu
    obtain ⟨t, ht, hu⟩ := bind_eq_ok hu
    rw [← Except.ok.inj hu]
    exact (ih hnames ht).wrapped hok (forall_mem_of_all (by decide))
  | @bare name _ _ _ =>
    have hname : ∀ c ∈ name, ok c := hnames name List.mem_cons_self
    exact isTargetType_named hok hname (fun a ha => absurd ha List.not_mem_nil) hu
  | @applied name arguments _ _ _ _ _ ih =>
    have hname : ∀ c ∈ name, ok c := hnames name List.mem_cons_self
    refine isTargetType_named hok hname (fun a ha t ht => ?_) hu
    exact ih a ha (fun n hn => hnames n (TypeExpr.mem_names_of_mem ha hn)) ht
  | @parameter name _ _ _ _ _ hparameter =>
    rw [mapExpr] at hu
    have hname : ∀ c ∈ name, ok c := hnames name List.mem_cons_self
    rw [← Except.ok.inj hu, TypeExpr.parameterIdentifier]
    split
    · exact .name (TypeExpr.ne_nil_of_namesParameter hparameter) hname
    · next hnot =>
      have hsimple : isParameterName (simpleName name) = true := hparameter.resolve_left hnot
      refine .name ?_ fun c hc => hname c (mem_of_mem_simpleName hc)
      exact TypeExpr.ne_nil_of_namesParameter (.inl hsimple)

theorem isNameClass_ne_punctuation : IsNameClass fun c => c ≠ '<' ∧ c ≠ '>' ∧ c ≠ ',' where
  identifier c hc := by
    refine ⟨?_, ?_, ?_⟩
    all_goals
      rintro rfl
      exact absurd hc (by decide)
  dot := by decide
  lowered c hc := by
    refine ⟨?_, ?_, ?_⟩
    all_goals
      rintro rfl
      exact absurd hc (by decide)
  no_open h := h.1 rfl
  no_close h := h.2.1 rfl
  no_comma h := h.2.2 rfl

/-- What a canonical tree is mapped to is one item of an argument list. -/
theorem isClosed_mapExpr {e : TypeExpr} (h : TypeExpr.IsCanonical ({} : Options).vocabulary e)
    {u : Text} (hu : (⟨index, {}⟩ : Mapping).mapExpr e = .ok u) : IsClosed u := by
  refine (isTargetType_mapExpr isNameClass_ne_punctuation h (fun name hname c hc => ?_) hu).isClosed
    isNameClass_ne_punctuation
  exact (h.isName_of_mem (by decide) hname).ne_punctuation hc

end

end Mapping
end HaxeBindings
