import HaxeBindings.Proofs.Mapping.Characters
import HaxeBindings.Proofs.Member.Declaration
import HaxeBindings.Proofs.Text.Lines

/-!
# Declarations on one line

A descriptor whose names and types have no line break (`Descriptor.IsLined`) has declarations
without one.  Nothing is asked of its summaries, nor of the form of its types.

* `Mapping.isLine_target` --- a type without a line break is mapped to one without;
* `isLine_of_mem_parameterNames` --- and so are parameters named;
* `isDeclared_of_mem_lines` --- the declarations of a descriptor, in whatever group they stand, are
  lines and are not empty.
-/

namespace HaxeBindings

open Text Schema Name

/-! ## Descriptors -/

/-- The name of the parameter and its type have no line break. -/
structure Parameter.IsLined (p : Parameter) : Prop where
  name : IsLine p.name
  type : IsLine p.type

/-- The names and the types of the method have no line break. -/
structure Method.IsLined (method : Method) : Prop where
  name : IsLine method.name
  returnType : IsLine method.returnType
  genericParameters : ∀ g ∈ method.genericParameters, IsLine g
  parameters : ∀ p ∈ method.parameters, p.IsLined

/-- The names and the types of the descriptor and of its members have no line break. -/
structure Descriptor.IsLined (d : Descriptor) : Prop where
  fullName : IsLine d.fullName
  name : IsLine d.name
  constructors : ∀ c ∈ d.constructors, ∀ p ∈ c.parameters, p.IsLined
  properties : ∀ p ∈ d.properties, IsLine p.name ∧ IsLine p.type
  methods : ∀ method ∈ d.methods, method.IsLined

/-! ## Types -/

section

variable {index : ArityIndex}

theorem IsTypeChar.ne_lineBreak : ∀ c, IsTypeChar c → c ≠ '\n' := by
  rintro c h rfl
  exact absurd h (by decide)

/-- **A type on one line is mapped to a type on one line.** -/
theorem Mapping.isLine_target {t : Text} (h : IsLine t) :
    IsLine ((⟨index, {}⟩ : Mapping).target t) := by
  cases hmap : (⟨index, {}⟩ : Mapping).map t with
  | error e =>
    rw [target, answer, hmap]
    exact isLine_nil
  | ok u =>
    have htarget : (⟨index, {}⟩ : Mapping).target t = u := by
      rw [target, answer, hmap]
      rfl
    rw [htarget, isLine_iff_forall]
    exact ok_of_mem_map IsTypeChar.ne_lineBreak (isLine_iff_forall.mp h) hmap

theorem Method.IsLined.upgraded {method : Method} (h : method.IsLined) :
    (method.upgraded ⟨index, {}⟩).IsLined := by
  have hupgrade {t : Text} (ht : IsLine t) :
      IsLine (TypeExpr.upgradeText index method.genericParameters ({} : Options).dynamicType t) := by
    rw [isLine_iff_forall]
    exact TypeExpr.ok_of_mem_upgradeText IsTypeChar.ne_lineBreak (isLine_iff_forall.mp ht)
      (fun g hg => isLine_iff_forall.mp (h.genericParameters g hg)) (forall_mem_of_all (by decide))
  refine ⟨h.name, hupgrade ?_, h.genericParameters, fun p hp => ?_⟩
  · split
    · exact by decide
    · exact h.returnType
  · obtain ⟨q, hq, rfl⟩ := List.mem_map.mp hp
    exact ⟨(h.parameters q hq).name, hupgrade (h.parameters q hq).type⟩

end

/-! ## Names -/

theorem isLine_memberIdentifier {name : Text} (h : IsLine name) :
    IsLine (memberIdentifier name) := by
  unfold memberIdentifier
  split
  · exact isLine_cons.mpr ⟨by decide, h⟩
  · exact h

theorem isLine_strip {t : Text} (h : IsLine t) : IsLine (strip t) :=
  h.of_subset fun _ => mem_of_mem_strip

theorem isLine_ofInt (n : Int) : IsLine (ofInt n) := by
  intro hc
  rcases isDigit_of_mem_ofInt hc with hc | hc
  · exact absurd hc (by decide)
  · exact absurd hc (by decide)

namespace ParameterNames

theorem isLine_requested {raw : Text} (h : IsLine raw) (index : Int) :
    IsLine (requested raw index) := by
  refine isLine_memberIdentifier ?_
  split
  · exact isLine_append.mpr ⟨by decide, isLine_ofInt index⟩
  · exact isLine_strip h

theorem isLine_allocate (s : ParameterNames) {raw : Text} (h : IsLine raw) (index : Int) :
    IsLine (s.allocate raw index).1 := by
  have hbase := isLine_requested h index
  unfold allocate
  simp only
  split
  · exact isLine_append.mpr ⟨hbase, isLine_ofInt (Int.ofNat _)⟩
  · exact hbase

theorem isLine_of_mem_allocateAll (s : ParameterNames) {requests : List (Text × Int)}
    (h : ∀ r ∈ requests, IsLine r.1) : ∀ name ∈ s.allocateAll requests, IsLine name := by
  induction requests generalizing s with
  | nil => exact fun name hname => absurd hname List.not_mem_nil
  | cons r rest ih =>
    obtain ⟨hr, hrest⟩ := List.forall_mem_cons.mp h
    exact List.forall_mem_cons.mpr ⟨s.isLine_allocate hr r.2, ih _ hrest⟩

end ParameterNames

/-- **Parameters on one line are given names on one line.** -/
theorem isLine_of_mem_parameterNames {ps : List Parameter} (h : ∀ p ∈ ps, p.IsLined) :
    ∀ name ∈ parameterNames ps, IsLine name := by
  refine ParameterNames.isLine_of_mem_allocateAll {} fun r hr => ?_
  obtain ⟨x, hx, rfl⟩ := List.mem_map.mp hr
  exact (h x.1 (List.fst_mem_of_mem_zipIdx hx)).name

theorem Method.isLine_of_mem_mentionedParameters {method : Method} :
    ∀ name ∈ method.mentionedParameters, IsLine name := by
  intro name hname hc
  exact absurd ((isAlphanum_of_mem_mentionedParameters hname).2 _ hc) (by decide)

theorem isLine_genericList {generics : List Text} (h : ∀ g ∈ generics, IsLine g) :
    IsLine (genericList generics) := by
  unfold genericList
  split
  · exact isLine_nil
  · rw [isLine_append, isLine_cons]
    exact ⟨⟨by decide, isLine_join (by decide) h⟩, by decide⟩

/-! ## Declarations -/

/-- A declaration: a line that is not empty. -/
structure IsDeclared (t : Text) : Prop where
  ne_nil : t ≠ []
  isLine : IsLine t

section

variable {index : ArityIndex}

theorem isLine_overloadWord (overloaded : Bool) : IsLine (overloadWord overloaded) := by
  cases overloaded with
  | false => decide
  | true => decide

/-- The parameters of a list, each with its name and its type, are on one line. -/
theorem isLine_of_mem_zip {ps : List Parameter} (h : ∀ p ∈ ps, p.IsLined) :
    ∀ p ∈ (parameterNames ps).zip (ps.map fun p => (⟨index, {}⟩ : Mapping).target p.type),
      IsLine p.1 ∧ IsLine p.2 := by
  intro p hp
  obtain ⟨hname, htype⟩ := List.of_mem_zip (a := p.1) (b := p.2) hp
  obtain ⟨q, hq, hqtype⟩ := List.mem_map.mp htype
  rw [← hqtype]
  exact ⟨isLine_of_mem_parameterNames h p.1 hname, Mapping.isLine_target (h q hq).type⟩

theorem isLine_join_parameters {ps : List (Text × Text)}
    (h : ∀ p ∈ ps, IsLine p.1 ∧ IsLine p.2) :
    IsLine (join ", ".toList (ps.map fun p => p.1 ++ ':' :: p.2)) := by
  refine isLine_join (by decide) fun t ht => ?_
  obtain ⟨p, hp, rfl⟩ := List.mem_map.mp ht
  exact isLine_append.mpr ⟨(h p hp).1, isLine_cons.mpr ⟨by decide, (h p hp).2⟩⟩

theorem isDeclared_constructorDeclaration (overloaded : Bool) {c : Constructor}
    (h : ∀ p ∈ c.parameters, p.IsLined) :
    IsDeclared ((⟨index, {}⟩ : Mapping).constructorDeclaration overloaded c) := by
  have hline : (⟨index, {}⟩ : Mapping).constructorDeclaration overloaded c =
      overloadWord overloaded ++ "function new(".toList ++
        Id.run (formatParameters (⟨index, {}⟩ : Mapping).answer c.parameters) ++
        "):Void;".toList := rfl
  rw [hline]
  refine ⟨List.append_ne_nil_of_right_ne_nil _ (by decide), ?_⟩
  rw [Mapping.formatParameters_answer, isLine_append, isLine_append, isLine_append]
  exact ⟨⟨⟨isLine_overloadWord overloaded, by decide⟩,
    isLine_join_parameters (isLine_of_mem_zip h)⟩, by decide⟩

/-- A declaration on one line has all of its parts on it. -/
theorem MethodDeclaration.isDeclared_text {d : MethodDeclaration} (hmodifiers : IsLine d.modifiers)
    (hname : IsLine d.name) (hgenerics : ∀ g ∈ d.generics, IsLine g)
    (hparameters : ∀ p ∈ d.parameters, IsLine p.1 ∧ IsLine p.2) (hresult : IsLine d.result) :
    IsDeclared d.text := by
  have hword : IsLine "function ".toList := by decide
  have hclose : IsLine "):".toList := by decide
  have hopen : IsLine ('(' :: join ", ".toList (d.parameters.map fun p => p.1 ++ ':' :: p.2)) :=
    isLine_cons.mpr ⟨by decide, isLine_join_parameters hparameters⟩
  have hlast : IsLine [';'] := by decide
  refine ⟨List.append_ne_nil_of_right_ne_nil _ (List.cons_ne_nil _ _), ?_⟩
  rw [text, isLine_append, isLine_append, isLine_append, isLine_append, isLine_append,
    isLine_append, isLine_append]
  exact ⟨⟨⟨⟨⟨⟨⟨hmodifiers, hword⟩, hname⟩, isLine_genericList hgenerics⟩, hopen⟩, hclose⟩, hresult⟩,
    hlast⟩

theorem isLine_modifiers (method : Method) : IsLine method.modifiers := by
  have hwords : ∀ isProtected isStatic : Bool,
      IsLine ((if isProtected then "@:protected ".toList else []) ++
        if isStatic then "static ".toList else []) := by decide
  exact hwords _ _

theorem isDeclared_declaration (overloaded : Bool) {method : Method} (h : method.IsLined) :
    IsDeclared ((⟨index, {}⟩ : Mapping).declaration overloaded method) := by
  have hupgraded : (method.upgraded ⟨index, {}⟩).IsLined := h.upgraded
  rw [← Mapping.text_declared]
  refine MethodDeclaration.isDeclared_text ?_ (isLine_memberIdentifier h.name)
    Method.isLine_of_mem_mentionedParameters (isLine_of_mem_zip hupgraded.parameters)
    (Mapping.isLine_target hupgraded.returnType)
  exact isLine_append.mpr ⟨isLine_modifiers method, isLine_overloadWord overloaded⟩

theorem isDeclared_propertyLine {p : Property} (hname : IsLine p.name) (htype : IsLine p.type) :
    IsDeclared (p.line (⟨index, {}⟩ : Mapping).answer (strip p.name)) := by
  have hmode : ∀ hasGetter hasSetter, ∀ mode ∈ accessorMode hasGetter hasSetter, IsLine mode := by
    decide
  obtain ⟨accessors, haccessors, hline⟩ : ∃ accessors, IsLine accessors ∧
      p.line (⟨index, {}⟩ : Mapping).answer (strip p.name) =
        "var ".toList ++ memberIdentifier (strip p.name) ++ accessors ++
          ':' :: (⟨index, {}⟩ : Mapping).target (if p.type.isEmpty then objectName else p.type) ++
            [';'] := by
    refine ⟨_, ?_, rfl⟩
    split
    · next mode hsome =>
      rw [isLine_append, isLine_cons]
      exact ⟨⟨by decide, hmode _ _ mode hsome⟩, by decide⟩
    · exact isLine_nil
  rw [hline]
  refine ⟨List.append_ne_nil_of_right_ne_nil _ (List.cons_ne_nil _ _), ?_⟩
  simp only [isLine_append, isLine_cons]
  refine ⟨⟨⟨⟨by decide, isLine_memberIdentifier (isLine_strip hname)⟩, haccessors⟩, by decide,
    Mapping.isLine_target ?_⟩, by decide⟩
  split
  · decide
  · exact htype

/-- The lines of a property that is declared. -/
theorem lines_of_propertyGroup {m : Mapping} {p : Property} {g : MemberGroup}
    (h : propertyGroup m.answer p = some g) : g.lines = [p.line m.answer (strip p.name)] := by
  unfold propertyGroup at h
  simp only at h
  split at h
  · exact nomatch h
  · exact congrArg MemberGroup.lines (Option.some_inj.mp h).symm

/-- **Where no name and no type has a line break, no declaration has one.** -/
theorem isDeclared_of_mem_lines {d : Descriptor} (h : d.IsLined) {g : MemberGroup}
    (hg : g ∈ (⟨index, {}⟩ : Mapping).allGroupsOf d) : ∀ t ∈ g.lines, IsDeclared t := by
  intro t ht
  rcases List.mem_append.mp hg with hg | hg
  · rcases List.mem_append.mp hg with hg | hg
    · split at hg
      · exact absurd hg List.not_mem_nil
      · rw [List.mem_singleton.mp hg] at ht
        obtain ⟨c, hc, rfl⟩ := List.mem_map.mp ht
        have hmem : c ∈ d.constructors := (List.mem_filter.mp (Sorted.mem_of_mem_select hc)).1
        exact isDeclared_constructorDeclaration _ (h.constructors c hmem)
    · obtain ⟨declared, hdeclared, hsome⟩ := List.mem_filterMap.mp hg
      obtain ⟨p, hp, rfl⟩ := List.mem_map.mp hdeclared
      rw [lines_of_propertyGroup hsome] at ht
      rw [List.mem_singleton.mp ht]
      exact isDeclared_propertyLine (h.properties p hp).1 (h.properties p hp).2
  · obtain ⟨name, -, rfl⟩ := List.mem_map.mp hg
    obtain ⟨method, hmethod, rfl⟩ := List.mem_map.mp ht
    have hmem : method ∈ d.methods := (mem_methodsNamed.mp (Sorted.mem_of_mem_select hmethod)).1
    exact isDeclared_declaration _ (h.methods method hmem)

end

end HaxeBindings
