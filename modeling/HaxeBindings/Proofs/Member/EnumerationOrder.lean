import HaxeBindings.Proofs.Member.Emitted
import HaxeBindings.Proofs.Sorted.Exchange

/-!
# The order of the host's enumeration

Groups are sorted, and the declarations in them are, so what is emitted seems not
to hang on the order in which a host lists its methods.  But of the methods with
one key the first is declared, and the first summary is taken; and a key says
less than a declaration does: it leaves out the names of parameters and the `Null`
around their types.

* `OrderFree` --- methods with one name and one key are declared alike, and those
  with one name do not have two summaries;
* `methodGroups_perm_iff` --- the groups of a list of methods are the same for every
  order of the list exactly when it is `OrderFree`, or when some type that is needed
  is not mapped and there are no groups in any order;
* `methodGroups_swap_ne` --- two methods that differ in the name of a parameter show
  that this can fail.

## Between two places

Where a key does not determine the number of parameters, as it may not when the
host chooses the words of the target vocabulary, two methods with one key can stand
in different places.  Then what lies between them has to be declared like them as
well; see `Sorted.Interchangeable`.
-/

namespace HaxeBindings

open Text Schema Name

/-- Methods whose groups do not hang on their order. -/
structure OrderFree (m : Mapping) (methods : List Method) : Prop where
  declarations : ∀ name, name ≠ [] → Sorted.Interchangeable m.signature m.precedes
    (m.declaration true) (methods.filter fun method => strip method.name = name)
  summaries : ∀ p ∈ methods, ∀ q ∈ methods, strip p.name ≠ [] → strip p.name = strip q.name →
    ∀ s t, cleanSummary p.summary = some s → cleanSummary q.summary = some t → s = t

/-! ## Declarations with one key -/

section

variable (m : Mapping)

/-- The modifiers of a declaration other than the overload mark. -/
def Method.modifiers (method : Method) : Text :=
  (if method.isProtected then "@:protected ".toList else []) ++
    (if method.isStatic then "static ".toList else [])

/-- The declaration of a method behind its modifiers. -/
def Mapping.bareDeclaration (method : Method) : Text :=
  let upgraded := method.upgraded m
  "function ".toList ++ memberIdentifier method.name ++ genericList upgraded.mentionedParameters ++
    '(' :: Id.run (formatParameters m.answer upgraded.parameters) ++ "):".toList ++
    Id.run (m.answer upgraded.returnType) ++ [';']

theorem declaration_eq (overloaded : Bool) (method : Method) :
    m.declaration overloaded method =
      method.modifiers ++ (overloadWord overloaded ++ m.bareDeclaration method) := by
  unfold Mapping.declaration Method.line
  simp only [Id.run_bind, Id.run_pure]
  unfold Method.modifiers Mapping.bareDeclaration
  simp only [List.append_assoc, List.cons_append]
  rfl

variable {m}

theorem modifiers_eq_of_signature_eq {p q : Method} (h : m.signature p = m.signature q) :
    p.modifiers = q.modifiers := by
  have hhead (r : Method) : ∃ rest, m.signature r =
      (if r.isStatic then 'S' else 'I') :: (if r.isProtected then 'P' else 'U') :: rest := ⟨_, rfl⟩
  obtain ⟨ps, hp⟩ := hhead p
  obtain ⟨qs, hq⟩ := hhead q
  rw [hp, hq, List.cons.injEq, List.cons.injEq] at h
  obtain ⟨hfirst, hsecond, -⟩ := h
  have hstatic : p.isStatic = q.isStatic := eq_of_letter_eq (by decide) hfirst
  have hprotected : p.isProtected = q.isProtected := eq_of_letter_eq (by decide) hsecond
  rw [Method.modifiers, hstatic, hprotected, Method.modifiers]

/-- Methods with one key are declared alike whether they are overloaded or not. -/
theorem declaration_eq_iff {p q : Method} (h : m.signature p = m.signature q)
    (overloaded : Bool) :
    m.declaration overloaded p = m.declaration overloaded q ↔
      m.bareDeclaration p = m.bareDeclaration q := by
  rw [declaration_eq, declaration_eq, modifiers_eq_of_signature_eq h,
    List.append_cancel_left_eq, List.append_cancel_left_eq]

/-- A group without overloads has methods with one key only. -/
theorem signature_eq_of_length_le {methods : List Method} {p q : Method}
    (h : (m.selectedMethods methods).length ≤ 1) (hp : p ∈ methods) (hq : q ∈ methods) :
    m.signature p = m.signature q := by
  obtain ⟨x, hx, hxp⟩ := Sorted.exists_mem_select m.signature m.precedes hp
  obtain ⟨y, hy, hyq⟩ := Sorted.exists_mem_select m.signature m.precedes hq
  have hxy : x = y := by
    change x ∈ m.selectedMethods methods at hx
    change y ∈ m.selectedMethods methods at hy
    match hs : m.selectedMethods methods, h with
    | [], _ =>
      rw [hs] at hx
      exact absurd hx List.not_mem_nil
    | [z], _ =>
      rw [hs] at hx hy
      exact (List.mem_singleton.mp hx).trans (List.mem_singleton.mp hy).symm
  rw [← hxp, ← hyq, hxy]

/-- Whether methods are interchangeable can be seen on declarations with the overload mark. -/
theorem interchangeable_declaration_iff {methods : List Method} {overloaded : Bool}
    (h : overloaded = decide (1 < (m.selectedMethods methods).length)) :
    Sorted.Interchangeable m.signature m.precedes (m.declaration overloaded) methods ↔
      Sorted.Interchangeable m.signature m.precedes (m.declaration true) methods := by
  cases overloaded with
  | true => rfl
  | false =>
    have hone : (m.selectedMethods methods).length ≤ 1 := by simpa using h.symm
    refine forall₂_congr fun p hp => forall₂_congr fun q hq => imp_congr_right fun hkey => ?_
    refine and_congr ?_ (forall₂_congr fun r hr => imp_congr_right fun hne => ?_)
    · rw [declaration_eq_iff hkey, declaration_eq_iff hkey]
    · exact absurd (signature_eq_of_length_le hone hr hp) hne

/-! ## One name -/

theorem groupOf_perm_iff (name : Text) (methods : List Method) :
    (∀ others : List Method, others.Perm methods → m.groupOf name others = m.groupOf name methods) ↔
      Sorted.Interchangeable m.signature m.precedes (m.declaration true) methods ∧
      ∀ p ∈ methods, ∀ q ∈ methods, ∀ s t, cleanSummary p.summary = some s →
        cleanSummary q.summary = some t → s = t := by
  have hgroup (others : List Method) (hperm : others.Perm methods) :
      m.groupOf name others = m.groupOf name methods ↔
        (m.selectedMethods others).map
            (m.declaration (decide (1 < (m.selectedMethods methods).length))) =
          (m.selectedMethods methods).map
            (m.declaration (decide (1 < (m.selectedMethods methods).length))) ∧
        (others.findSome? fun method => cleanSummary method.summary) =
          methods.findSome? fun method => cleanSummary method.summary := by
    have hlength : (m.selectedMethods others).length = (m.selectedMethods methods).length :=
      Sorted.length_select_of_perm hperm
    rw [Mapping.groupOf, Mapping.groupOf, hlength]
    simp
  rw [← interchangeable_declaration_iff rfl, ← Sorted.findSome?_perm_iff,
    ← Sorted.map_select_perm_iff m.isOrder_precedes, ← forall_and]
  refine forall_congr' fun others => ?_
  rw [← forall_and]
  exact forall_congr' fun hperm => hgroup others hperm

/-! ## All names -/

theorem groupsOf_eq_iff {others methods : List Method} (hperm : others.Perm methods) :
    m.groupsOf others = m.groupsOf methods ↔ ∀ name ∈ methodNames methods,
      m.groupOf name (methodsNamed name others) = m.groupOf name (methodsNamed name methods) := by
  have hnames : methodNames others = methodNames methods :=
    Sorted.ofList_eq_of_perm Text.isOrder_le ((hperm.map _).filter _)
  rw [Mapping.groupsOf, Mapping.groupsOf, hnames]
  exact List.map_inj_left

/-- The methods with one name can be put in any order without moving the others. -/
theorem exists_perm_methodsNamed {name : Text} {methods named : List Method}
    (h : named.Perm (methodsNamed name methods)) :
    ∃ others : List Method, others.Perm methods ∧ methodsNamed name others = named := by
  have hnamed : ∀ method ∈ named, strip method.name = name := fun method hmethod =>
    (mem_methodsNamed.mp (h.mem_iff.mp hmethod)).2
  refine ⟨named ++ methods.filter fun method => !decide (strip method.name = name), ?_, ?_⟩
  · exact (h.append_right _).trans (List.filter_append_perm _ methods)
  · have hself : methodsNamed name named = named :=
      List.filter_eq_self.mpr fun method hmethod => by simpa using hnamed method hmethod
    rw [methodsNamed, List.filter_append, ← methodsNamed, hself, List.append_right_eq_self,
      List.filter_filter, List.filter_eq_nil_iff]
    intro method _
    simp

/-- The groups do not hang on the order exactly when those of no name do. -/
theorem groupsOf_perm_iff (methods : List Method) :
    (∀ others : List Method, others.Perm methods → m.groupsOf others = m.groupsOf methods) ↔
      ∀ name ∈ methodNames methods, ∀ named : List Method,
        named.Perm (methodsNamed name methods) →
          m.groupOf name named = m.groupOf name (methodsNamed name methods) := by
  constructor
  · intro h name hname named hperm
    obtain ⟨others, hothers, rfl⟩ := exists_perm_methodsNamed hperm
    exact (groupsOf_eq_iff hothers).mp (h others hothers) name hname
  · intro h others hperm
    rw [groupsOf_eq_iff hperm]
    intro name hname
    exact h name hname _ (hperm.filter _)

theorem orderFree_iff (methods : List Method) :
    OrderFree m methods ↔ ∀ others : List Method, others.Perm methods →
      m.groupsOf others = m.groupsOf methods := by
  rw [groupsOf_perm_iff]
  constructor
  · rintro ⟨hdeclarations, hsummaries⟩ name hname
    obtain ⟨hne, -⟩ := mem_methodNames.mp hname
    refine (groupOf_perm_iff name _).mpr ⟨hdeclarations name hne, ?_⟩
    intro p hp q hq
    obtain ⟨hpmem, hpname⟩ := mem_methodsNamed.mp hp
    obtain ⟨hqmem, hqname⟩ := mem_methodsNamed.mp hq
    exact hsummaries p hpmem q hqmem (hpname ▸ hne) (hpname.trans hqname.symm)
  · intro h
    constructor
    · intro name hne p hp
      have hname : name ∈ methodNames methods :=
        mem_methodNames.mpr ⟨hne, p, mem_methodsNamed.mp hp⟩
      exact ((groupOf_perm_iff name _).mp (h name hname)).1 p hp
    · intro p hp q hq hne hpq
      have hname : strip p.name ∈ methodNames methods := mem_methodNames.mpr ⟨hne, p, hp, rfl⟩
      exact ((groupOf_perm_iff _ _).mp (h _ hname)).2 p (mem_methodsNamed.mpr ⟨hp, rfl⟩) q
        (mem_methodsNamed.mpr ⟨hq, hpq.symm⟩)

end

/-! ## What a run returns -/

theorem mem_methodTypes_of_perm (m : Mapping) {others methods : List Method}
    (hperm : others.Perm methods) {t : Text} :
    t ∈ m.methodTypes others ↔ t ∈ m.methodTypes methods :=
  ((hperm.filter _).flatMap_right _).mem_iff

/-- **When the order of the enumeration does not matter.**  Every order of a list of methods gives
the same groups, or none where a type is not mapped, exactly when the methods are free of their
order or a type that is needed is not mapped. -/
theorem methodGroups_perm_iff (m : Mapping) (methods : List Method) :
    (∀ others : List Method, others.Perm methods →
      (methodGroups m.map m others).toOption = (methodGroups m.map m methods).toOption) ↔
    ((∀ t ∈ m.methodTypes methods, m.Maps t) → OrderFree m methods) := by
  by_cases hmaps : ∀ t ∈ m.methodTypes methods, m.Maps t
  · have hreturns {others : List Method} (hperm : others.Perm methods) :
        methodGroups m.map m others = .ok (m.groupsOf others) := by
      refine (asks_methodGroups m others).isOk_iff.mpr ?_
      intro t ht
      exact hmaps t ((mem_methodTypes_of_perm m hperm).mp ht)
    rw [forall_prop_of_true hmaps, orderFree_iff]
    refine forall_congr' fun others => forall_congr' fun hperm => ?_
    rw [hreturns hperm, hreturns (List.Perm.refl methods)]
    exact Option.some_inj
  · have hfails {others : List Method} (hperm : others.Perm methods) :
        (methodGroups m.map m others).toOption = none := by
      have hothers : ¬∀ t ∈ m.methodTypes others, m.Maps t := by
        intro h
        exact hmaps fun t ht => h t ((mem_methodTypes_of_perm m hperm).mpr ht)
      obtain ⟨e, he⟩ := (asks_methodGroups m others).exists_error hothers
      rw [he]
      rfl
    refine iff_of_true (fun others hperm => ?_) fun h => absurd h hmaps
    rw [hfails hperm, hfails (List.Perm.refl methods)]

/-- Two methods that differ in the name of their parameter have one key, and the one that is listed
first is declared. -/
theorem methodGroups_swap_ne :
    let m : Mapping := {}
    let run (parameter : String) : Method :=
      { name := "Run".toList, returnType := "System.Void".toList,
        parameters := [{ name := parameter.toList, type := "System.Int32".toList }] }
    let group (line : String) : MemberGroup := { name := "Run".toList, lines := [line.toList] }
    [run "b", run "a"].Perm [run "a", run "b"] ∧
      (methodGroups m.map m [run "a", run "b"]).toOption =
        some [group "function Run(a:Int):Void;"] ∧
      (methodGroups m.map m [run "b", run "a"]).toOption =
        some [group "function Run(b:Int):Void;"] ∧
      group "function Run(a:Int):Void;" ≠ group "function Run(b:Int):Void;" := by
  intro m run group
  refine ⟨List.Perm.swap (run "a") (run "b") [], ?_, ?_, ?_⟩
  · decide +kernel
  · decide +kernel
  · decide +kernel

end HaxeBindings
