import HaxeBindings.Proofs.Member.EnumerationOrder
import HaxeBindings.Proofs.Text.Characters
import Mathlib.Data.List.Nodup
import Mathlib.Data.List.TakeWhile

/-!
# The identifiers of an extern

A line declares an identifier: it stands behind the word `var` or `function`, and it ends
where a list of parameters or accessors or a type begins.  The lines of one group declare
one identifier.  That two groups never declare the same is another matter.  Constructors
are one group and methods one for each name, but every property makes a group of its own,
whatever the others are called.  Nothing keeps properties and methods apart, and a keyword
that gains an underscore may meet a name that had one before.

* `MemberGroup.IsApart` --- no line of one group declares what a line of the other does;
* `Descriptor.identifiers` --- what the groups of a type declare, group by group
  (`map_identifier_allGroupsOf`);
* `Descriptor.nodup_identifiers_iff` --- when these are different, for names that end
  where the declaration ends them;
* `memberGroups_apart_iff` --- exactly then all groups are apart.
-/

namespace HaxeBindings

open Text Schema Name

/-! ## Reading an identifier off a line -/

/-- The characters that end the identifier of a declaration. -/
def endsIdentifier (c : Char) : Bool := c == '(' || c == '<' || c == ':'

/-- The text up to the end of the identifier it begins with. -/
def identifierIn (t : Text) : Text := t.takeWhile fun c => !endsIdentifier c

/-- What stands behind the first occurrence of a part; nothing when it does not occur. -/
def behindPart (part : Text) : Text → Text
  | [] => []
  | c :: rest =>
    if part.isPrefixOf (c :: rest) then (c :: rest).drop part.length else behindPart part rest

/-- The identifier that a line declares. -/
def declaredIdentifier (line : Text) : Text :=
  if "var ".toList.isPrefixOf line then identifierIn (line.drop "var ".toList.length)
  else identifierIn (behindPart "function ".toList line)

theorem identifierIn_append_cons {c : Char} (hc : endsIdentifier c = true) (t rest : Text) :
    identifierIn (t ++ c :: rest) = identifierIn t := by
  induction t with
  | nil =>
    rw [List.nil_append, identifierIn, List.takeWhile_cons, hc]
    rfl
  | cons d t ih =>
    rw [identifierIn, identifierIn, List.cons_append, List.takeWhile_cons, List.takeWhile_cons]
    split
    · exact congrArg (d :: ·) ih
    · rfl

theorem identifierIn_eq_self {t : Text} (h : ∀ c ∈ t, endsIdentifier c = false) :
    identifierIn t = t := by
  rw [identifierIn, List.takeWhile_eq_self_iff]
  intro c hc
  rw [h c hc, Bool.not_false]

/-! ## Groups and their identifiers -/

namespace MemberGroup

/-- There are lines in the group, and all of them declare the identifier. -/
structure HasIdentifier (g : MemberGroup) (i : Text) : Prop where
  ne_nil : g.lines ≠ []
  shown : ∀ line ∈ g.lines, declaredIdentifier line = i

/-- No line of the one group declares what a line of the other one does. -/
def IsApart (g h : MemberGroup) : Prop :=
  ∀ k ∈ g.lines, ∀ l ∈ h.lines, declaredIdentifier k ≠ declaredIdentifier l

variable {g h : MemberGroup} {i j : Text}

theorem isApart_iff (hg : g.HasIdentifier i) (hh : h.HasIdentifier j) : g.IsApart h ↔ i ≠ j := by
  constructor
  · intro hapart
    obtain ⟨k, hk⟩ := List.exists_mem_of_ne_nil _ hg.ne_nil
    obtain ⟨l, hl⟩ := List.exists_mem_of_ne_nil _ hh.ne_nil
    rw [← hg.shown k hk, ← hh.shown l hl]
    exact hapart k hk l hl
  · intro hne k hk l hl
    rw [hg.shown k hk, hh.shown l hl]
    exact hne

/-- **Groups are apart exactly when their identifiers are different.** -/
theorem pairwise_isApart_iff {groups : List MemberGroup} {identifiers : List Text}
    (h : List.Forall₂ HasIdentifier groups identifiers) :
    groups.Pairwise IsApart ↔ identifiers.Nodup := by
  have hhead {g : MemberGroup} {i : Text} (hg : g.HasIdentifier i) {gs : List MemberGroup}
      {is : List Text} (h : List.Forall₂ HasIdentifier gs is) :
      (∀ x ∈ gs, g.IsApart x) ↔ i ∉ is := by
    induction h with
    | nil => simp
    | cons hx _ ih => rw [List.forall_mem_cons, ih, isApart_iff hg hx, List.mem_cons, not_or]
  induction h with
  | nil => simp
  | cons hg hrest ih =>
    rw [List.pairwise_cons, List.nodup_cons]
    exact and_congr (hhead hg hrest) ih

end MemberGroup

/-! ## What the groups of a type declare -/

namespace Descriptor

/-- The names of the properties that are declared. -/
def propertyNames (d : Descriptor) : List Text :=
  (d.properties.map fun p => strip p.name).filter fun name => !name.isEmpty

/-- The names that members are declared under, each name of methods once. -/
def memberNames (d : Descriptor) : List Text := d.propertyNames ++ methodNames d.methods

/-- The identifiers that are declared, group by group. -/
def identifiers (d : Descriptor) : List Text :=
  (if d.constructors.any Constructor.isPublic then ["new".toList] else []) ++
    d.memberNames.map fun name => identifierIn (memberIdentifier name)

end Descriptor

section

variable (m : Mapping)

theorem declaredIdentifier_constructorDeclaration (overloaded : Bool) (c : Constructor) :
    declaredIdentifier (m.constructorDeclaration overloaded c) = "new".toList := by
  cases overloaded <;> rfl

/-- Behind the name of a method a list begins. -/
theorem exists_bareDeclaration (method : Method) : ∃ c rest, endsIdentifier c = true ∧
    m.bareDeclaration method =
      "function ".toList ++ (memberIdentifier method.name ++ c :: rest) := by
  unfold Mapping.bareDeclaration
  simp only [genericList, List.append_assoc]
  split
  · exact ⟨'(', _, rfl, rfl⟩
  · exact ⟨'<', _, rfl, rfl⟩

theorem declaredIdentifier_declaration (overloaded : Bool) (method : Method) :
    declaredIdentifier (m.declaration overloaded method) =
      identifierIn (memberIdentifier method.name) := by
  obtain ⟨c, rest, hc, hbare⟩ := exists_bareDeclaration m method
  rw [declaration_eq, hbare, ← identifierIn_append_cons hc _ rest]
  obtain ⟨name, result, isStatic, isProtected, generics, parameters, summary⟩ := method
  -- the modifiers are spelled out, and no earlier place in the line has the word
  cases isStatic <;> cases isProtected <;> cases overloaded <;> rfl

/-- The lines of the methods with one name declare one identifier. -/
theorem hasIdentifier_groupOf {name : Text} {methods : List Method} (hne : methods ≠ [])
    (hnames : ∀ method ∈ methods, method.name = name) :
    (m.groupOf name methods).HasIdentifier (identifierIn (memberIdentifier name)) where
  ne_nil := by
    intro hnil
    exact m.selectedMethods_ne_nil hne (List.map_eq_nil_iff.mp hnil)
  shown line hline := by
    obtain ⟨method, hmethod, rfl⟩ := List.mem_map.mp hline
    rw [declaredIdentifier_declaration, hnames method (Sorted.mem_of_mem_select hmethod)]

theorem forall₂_groupsOf {methods : List Method}
    (hnames : ∀ method ∈ methods, strip method.name = method.name) :
    List.Forall₂ MemberGroup.HasIdentifier (m.groupsOf methods)
      ((methodNames methods).map fun name => identifierIn (memberIdentifier name)) := by
  rw [Mapping.groupsOf, List.forall₂_map_left_iff, List.forall₂_map_right_iff, List.forall₂_same]
  intro name hname
  refine hasIdentifier_groupOf m (methodsNamed_ne_nil hname) fun method hmethod => ?_
  obtain ⟨hmem, hstrip⟩ := mem_methodsNamed.mp hmethod
  exact (hnames method hmem).symm.trans hstrip

theorem declaredIdentifier_propertyLine (name : Text) (p : Property) :
    declaredIdentifier (p.line m.answer name) = identifierIn (memberIdentifier name) := by
  -- behind the name of a property its accessors stand, or its type when it has none
  obtain ⟨c, rest, hc, hline⟩ : ∃ c rest, endsIdentifier c = true ∧
      p.line m.answer name = "var ".toList ++ (memberIdentifier name ++ c :: rest) := by
    unfold Property.line
    simp only [List.append_assoc]
    cases accessorMode p.hasGetter p.hasSetter with
    | none => exact ⟨':', _, rfl, rfl⟩
    | some mode => exact ⟨'(', _, rfl, rfl⟩
  rw [hline, ← identifierIn_append_cons hc _ rest]
  rfl

/-- A property is declared under its stripped name, if there is anything left of it. -/
theorem propertyGroup_answer (p : Property) :
    (strip p.name = [] ∧ propertyGroup m.answer p = none) ∨
      strip p.name ≠ [] ∧ ∃ g, propertyGroup m.answer p = some g ∧
        g.HasIdentifier (identifierIn (memberIdentifier (strip p.name))) := by
  unfold propertyGroup
  simp only
  split
  · next hnil => exact .inl ⟨List.isEmpty_iff.mp hnil, rfl⟩
  · next hne =>
    refine .inr ⟨fun hnil => hne (List.isEmpty_iff.mpr hnil), _, rfl, List.cons_ne_nil _ _, ?_⟩
    intro line hline
    rw [List.mem_singleton.mp hline]
    exact declaredIdentifier_propertyLine m _ p

theorem forall₂_properties (ps : List Property) :
    List.Forall₂ MemberGroup.HasIdentifier ((ps.map (propertyGroup m.answer)).filterMap id)
      (((ps.map fun p => strip p.name).filter fun name => !name.isEmpty).map fun name =>
        identifierIn (memberIdentifier name)) := by
  induction ps with
  | nil => exact .nil
  | cons p ps ih =>
    rw [List.map_cons, List.map_cons]
    rcases propertyGroup_answer m p with ⟨hname, hgroup⟩ | ⟨hname, g, hgroup, hg⟩
    · rw [hgroup, List.filterMap_cons_none rfl, List.filter_cons_of_neg (by simp [hname])]
      exact ih
    · rw [hgroup, List.filterMap_cons_some (f := id) rfl, List.filter_cons_of_pos (by simpa using hname),
        List.map_cons]
      exact .cons hg ih

theorem forall₂_constructorsOf (cs : List Constructor) :
    List.Forall₂ MemberGroup.HasIdentifier
      (if (m.constructorsOf cs).lines.isEmpty then [] else [m.constructorsOf cs])
      (if cs.any Constructor.isPublic then ["new".toList] else []) := by
  have hlines : (m.constructorsOf cs).lines = [] ↔ ¬cs.any Constructor.isPublic = true := by
    rw [Mapping.constructorsOf, List.map_eq_nil_iff, List.any_eq_true, List.eq_nil_iff_forall_not_mem]
    constructor
    · rintro hnone ⟨c, hc, hpublic⟩
      obtain ⟨x, hx, -⟩ := Sorted.exists_mem_select m.constructorSignature
        (fun a b => Text.le (m.constructorSignature a) (m.constructorSignature b))
        (List.mem_filter.mpr ⟨hc, hpublic⟩)
      exact hnone x hx
    · intro hnone c hc
      exact hnone ⟨c, List.mem_filter.mp (Sorted.mem_of_mem_select hc)⟩
  by_cases hpublic : cs.any Constructor.isPublic = true
  · have hne : (m.constructorsOf cs).lines ≠ [] := fun hnil => hlines.mp hnil hpublic
    rw [if_neg (by simpa using hne), if_pos hpublic]
    refine .cons ⟨hne, fun line hline => ?_⟩ .nil
    obtain ⟨c, -, rfl⟩ := List.mem_map.mp hline
    exact declaredIdentifier_constructorDeclaration m _ c
  · rw [if_pos (List.isEmpty_iff.mpr (hlines.mpr hpublic)), if_neg hpublic]
    exact .nil

/-- **What the groups of a type declare**, group by group. -/
theorem forall₂_allGroupsOf {d : Descriptor}
    (hnames : ∀ method ∈ d.methods, strip method.name = method.name) :
    List.Forall₂ MemberGroup.HasIdentifier (m.allGroupsOf d) d.identifiers := by
  have happend := List.rel_append (R := MemberGroup.HasIdentifier)
  rw [Mapping.allGroupsOf, allGroups, Descriptor.identifiers, Descriptor.memberNames,
    List.map_append, ← List.append_assoc]
  exact happend (happend (forall₂_constructorsOf m d.constructors)
    (forall₂_properties m d.properties)) (forall₂_groupsOf m hnames)

end

/-! ## When they are different -/

/-- Two names share an identifier only if one is a keyword and the other has its underscore. -/
theorem Name.eq_or_of_memberIdentifier_eq {s t : Text} (h : memberIdentifier s = memberIdentifier t) :
    s = t ∨ (s ∈ keywords ∧ t = '_' :: s) ∨ t ∈ keywords ∧ s = '_' :: t := by
  unfold memberIdentifier at h
  split at h
  · next hs =>
    split at h
    · exact .inl (List.cons.inj h).2
    · exact .inr (.inl ⟨hs, h.symm⟩)
  · split at h
    · next ht => exact .inr (.inr ⟨ht, h⟩)
    · exact .inl h

/-- No member is declared as a constructor. -/
theorem Name.memberIdentifier_ne_new (name : Text) : memberIdentifier name ≠ "new".toList := by
  unfold memberIdentifier
  split
  · exact fun h => absurd (List.cons.inj h).1 (by decide)
  · next hname =>
    rintro rfl
    exact hname (by decide)

/-- A keyword with its underscore is no keyword. -/
theorem Name.underscore_not_keyword : ∀ k ∈ keywords, '_' :: k ∉ keywords := by decide

/-- **Renaming keeps names apart**, unless one of them is a keyword and another one has its
underscore already. -/
theorem Name.nodup_map_memberIdentifier_iff {names : List Text} :
    (names.map memberIdentifier).Nodup ↔
      names.Nodup ∧ ∀ k ∈ keywords, k ∈ names → '_' :: k ∉ names := by
  constructor
  · refine fun h => ⟨h.of_map memberIdentifier, fun k hk hmem hunderscore => ?_⟩
    have hrenamed : memberIdentifier k = '_' :: k := if_pos hk
    have hkept : memberIdentifier ('_' :: k) = '_' :: k :=
      memberIdentifier_of_not_keyword (underscore_not_keyword k hk)
    have hsame := List.inj_on_of_nodup_map h hmem hunderscore (hrenamed.trans hkept.symm)
    exact absurd (congrArg List.length hsame) (by simp)
  · rintro ⟨hnodup, hapart⟩
    refine hnodup.map_on fun s hs t ht h => ?_
    rcases eq_or_of_memberIdentifier_eq h with heq | ⟨hkeyword, rfl⟩ | ⟨hkeyword, rfl⟩
    · exact heq
    · exact absurd ht (hapart s hkeyword hs)
    · exact absurd hs (hapart t hkeyword ht)

namespace Descriptor

variable {d : Descriptor}

theorem nodup_memberNames_iff :
    d.memberNames.Nodup ↔
      d.propertyNames.Nodup ∧ ∀ name ∈ d.propertyNames, name ∉ methodNames d.methods := by
  have hmethods : (methodNames d.methods).Nodup :=
    (Sorted.ofList_pairwise Text.isOrder_le _).imp fun h => h.2
  rw [memberNames, List.nodup_append', and_iff_right hmethods]
  exact Iff.rfl

/-- **When the identifiers of a type are different**, if its names end where a declaration ends
them: properties have different names, none has the name of a method, and no name is that of a
keyword with its underscore when the keyword is a name as well. -/
theorem nodup_identifiers_iff
    (hplain : ∀ name ∈ d.memberNames, ∀ c ∈ name, endsIdentifier c = false) :
    d.identifiers.Nodup ↔ d.propertyNames.Nodup ∧
      (∀ name ∈ d.propertyNames, name ∉ methodNames d.methods) ∧
      ∀ k ∈ keywords, k ∈ d.memberNames → '_' :: k ∉ d.memberNames := by
  have hidentifiers : (d.memberNames.map fun name => identifierIn (memberIdentifier name)) =
      d.memberNames.map memberIdentifier := by
    refine List.map_congr_left fun name hname => identifierIn_eq_self ?_
    unfold memberIdentifier
    split
    · exact List.forall_mem_cons.mpr ⟨rfl, hplain name hname⟩
    · exact hplain name hname
  have hnew : "new".toList ∉ d.memberNames.map memberIdentifier := by
    rintro hmem
    obtain ⟨name, -, hname⟩ := List.mem_map.mp hmem
    exact memberIdentifier_ne_new name hname
  have hconstructors : d.identifiers.Nodup ↔ (d.memberNames.map memberIdentifier).Nodup := by
    rw [identifiers, hidentifiers]
    split
    · rw [List.singleton_append, List.nodup_cons, and_iff_right hnew]
    · rw [List.nil_append]
  rw [hconstructors, nodup_map_memberIdentifier_iff, nodup_memberNames_iff, and_assoc]

end Descriptor

/-- **When the groups of a type are apart.**  Each group declares one identifier, and the groups are
apart exactly when these are different.  If no name has a character in it that ends an identifier,
that is so exactly when the properties have different names, none of them has the name of a method,
and no member has the name of a keyword with an underscore beside one that has the name of the
keyword. -/
theorem memberGroups_apart_iff {m : Mapping} {d : Descriptor} {groups : List MemberGroup}
    (hnames : ∀ method ∈ d.methods, strip method.name = method.name)
    (h : memberGroups m.map m d = .ok groups) :
    List.Forall₂ MemberGroup.HasIdentifier groups d.identifiers ∧
      (groups.Pairwise MemberGroup.IsApart ↔ d.identifiers.Nodup) ∧
      ((∀ name ∈ d.memberNames, ∀ c ∈ name, endsIdentifier c = false) →
        (groups.Pairwise MemberGroup.IsApart ↔ d.propertyNames.Nodup ∧
          (∀ name ∈ d.propertyNames, name ∉ methodNames d.methods) ∧
          ∀ k ∈ keywords, k ∈ d.memberNames → '_' :: k ∉ d.memberNames)) := by
  obtain rfl : m.allGroupsOf d = groups := (asks_memberGroups m d).eq_of_ok h
  have hidentifiers := forall₂_allGroupsOf m hnames
  have happart := MemberGroup.pairwise_isApart_iff hidentifiers
  exact ⟨hidentifiers, happart, fun hplain => happart.trans (d.nodup_identifiers_iff hplain)⟩

/-- A constructor, two properties, one of them with the name of a keyword, and two methods with one
name. -/
theorem memberGroups_apart_iff_class :
    let m : Mapping := {}
    let property (name : String) : Property :=
      { name := name.toList, type := "System.String".toList }
    let run (type : String) : Method :=
      { name := "Run".toList, returnType := "System.Void".toList
        parameters := [{ name := ['x'], type := type.toList }] }
    let d : Descriptor :=
      { constructors := [{}], properties := [property "Name", property "class"]
        methods := [run "System.String", run "System.Int32"] }
    (∀ method ∈ d.methods, strip method.name = method.name) ∧
      (∀ name ∈ d.memberNames, ∀ c ∈ name, endsIdentifier c = false) ∧
      d.identifiers = ["new", "Name", "_class", "Run"].map String.toList ∧
      ∃ groups, memberGroups m.map m d = .ok groups ∧ groups.Pairwise MemberGroup.IsApart := by
  intro m property run d
  have hnames : ∀ method ∈ d.methods, strip method.name = method.name := by decide
  have hall : d.memberNames.all (·.all fun c => decide (endsIdentifier c = false)) = true := by
    decide +kernel
  have hplain : ∀ name ∈ d.memberNames, ∀ c ∈ name, endsIdentifier c = false :=
    fun name hname => forall_mem_of_all (List.all_eq_true.mp hall name hname)
  have hgroups : memberGroups m.map m d = .ok (m.allGroupsOf d) :=
    (asks_memberGroups m d).isOk_iff.mpr (by decide +kernel)
  obtain ⟨-, -, happart⟩ := memberGroups_apart_iff hnames hgroups
  refine ⟨hnames, hplain, by decide, _, hgroups, (happart hplain).mpr ⟨?_, ?_, ?_⟩⟩
  all_goals decide +kernel

/-- **Two properties with one name are declared twice.**  The host has them for an indexer that takes
arguments of several types. -/
theorem memberGroups_item :
    let m : Mapping := {}
    let item (type : String) : Property := { name := "Item".toList, type := type.toList }
    let d : Descriptor :=
      { fullName := "Sandbox.Table".toList
        properties := [item "System.Int32", item "System.String"] }
    let group (type : String) : MemberGroup :=
      { name := "Item".toList, lines := ["var Item(get,set):".toList ++ type.toList ++ [';']] }
    (∀ p ∈ d.properties, strip p.name = p.name) ∧
      memberGroups m.map m d = .ok [group "Int", group "String"] ∧ group "Int" ≠ group "String" ∧
      ¬(group "Int").IsApart (group "String") := by
  intro m item d group
  refine ⟨by decide, by decide +kernel, by decide, fun hapart => ?_⟩
  exact hapart _ List.mem_cons_self _ List.mem_cons_self (by decide)

end HaxeBindings
