import HaxeBindings.Proofs.Member.Emitted
import HaxeBindings.Proofs.Traversal

/-!
# Grouping is exact

A host lists its methods in any order, with the overloads of a name scattered and
with members that become the same once their types are mapped.  What is emitted
is described here without the way it is computed.

* `IsGrouping` --- one group for every name, in ascending order, and every group
  `Declares` the methods with its name;
* `Declares` --- one line for every key, written from the first member that has it,
  in strictly ascending order, and marked as an overload exactly when there are
  several;
* `methodGroups_exact` --- the groups of the methods are a grouping, and the group of
  the constructors declares the public ones, as soon as the types they need are
  mapped.

Keys and lines are those that the mapping gives, so `Declares` takes both as
computations that may fail, and says that they do not.

## Reading the mark off a line

Whether a line is an overload is read from its text: the word stands behind the
other modifiers and in front of `function` (`bearsOverload`).
-/

namespace HaxeBindings

open Text Schema

/-- Strictly below in the order of code points. -/
def Text.Lt (s t : Text) : Prop := Text.le s t = true ∧ s ≠ t

/-- The modifiers that can stand in front of the overload mark. -/
def leadingModifiers : List Text :=
  [[], "@:protected ".toList, "static ".toList, "@:protected static ".toList]

/-- Whether a declaration is marked as one of several under its name. -/
def bearsOverload (line : Text) : Bool :=
  leadingModifiers.any fun modifiers => (modifiers ++ "overload ".toList).isPrefixOf line

/-- What the group `g` has to be for the members `candidates`: a line for every key, from the first
member that has it, in ascending order, all of them marked or none. -/
structure Declares {α : Type} (key : α → Except MappingError Text)
    (line : Bool → α → Except MappingError Text) (lt : (α → Text) → α → α → Prop)
    (candidates : List α) (g : MemberGroup) : Prop where
  lines : ∃ signature : α → Text, (∀ x ∈ candidates, key x = .ok (signature x)) ∧
    ∃ declared, Sorted.IsSelection signature (lt signature) candidates declared ∧
      declared.mapM (line g.overloaded) = .ok g.lines
  overloaded : g.overloaded = decide (1 < g.lines.length)
  marked : ∀ line ∈ g.lines, bearsOverload line = g.overloaded

namespace Method

variable (m : Mapping)

/-- The key of a method after its upgrade, as the mapping gives it. -/
def upgradedKey (method : Method) : Except MappingError Text :=
  (method.upgraded m).key m.map (method.upgraded m).mentionedParameters

/-- The declaration of a method after its upgrade, as the mapping gives it. -/
def upgradedLine (overloaded : Bool) (method : Method) : Except MappingError Text :=
  (method.upgraded m).line m.map overloaded (method.upgraded m).mentionedParameters

/-- Fewer parameters first, and keys in ascending order among equally many. -/
def Before (signature : Method → Text) (p q : Method) : Prop :=
  p.parameters.length < q.parameters.length ∨
    p.parameters.length = q.parameters.length ∧ Text.Lt (signature p) (signature q)

end Method

/-- What the groups of a list of methods have to be. -/
structure IsGrouping (m : Mapping) (methods : List Method) (groups : List MemberGroup) : Prop where
  ascending : (groups.map MemberGroup.name).Pairwise Text.Lt
  complete : ∀ name, name ∈ groups.map MemberGroup.name ↔
    name ≠ [] ∧ ∃ method ∈ methods, strip method.name = name
  declares : ∀ g ∈ groups, Declares (Method.upgradedKey m) (Method.upgradedLine m) Method.Before
    (methods.filter fun method => strip method.name = g.name) g
  summary : ∀ g ∈ groups, g.summary =
    (((methods.filter fun method => strip method.name = g.name).filterMap Method.summary).map
      strip).find? fun s => s ≠ []

/-! ## Lines -/

theorem bearsOverload_methodLine (m : Mapping) (overloaded : Bool) (method : Method) :
    bearsOverload (m.declaration overloaded method) = overloaded := by
  unfold Mapping.declaration
  obtain ⟨name, result, isStatic, isProtected, generics, parameters, summary⟩ := method
  -- the modifiers are spelled out, and the mark is the next word of the line
  cases isStatic <;> cases isProtected <;> cases overloaded <;> rfl

theorem bearsOverload_constructorLine (m : Mapping) (overloaded : Bool) (c : Constructor) :
    bearsOverload (m.constructorDeclaration overloaded c) = overloaded := by
  cases overloaded <;> rfl

/-- Where every line can be written, one line in order for the first member of every key is what a
group has to declare. -/
theorem declares_select {α : Type} {key : α → Except MappingError Text}
    {line : Bool → α → Except MappingError Text} {lt : (α → Text) → α → α → Prop}
    {signature : α → Text} {text : Bool → α → Text} {le : α → α → Bool} {candidates : List α}
    {g : MemberGroup} (hkey : ∀ x ∈ candidates, key x = .ok (signature x))
    (hline : ∀ x ∈ candidates, ∀ overloaded, line overloaded x = .ok (text overloaded x))
    (hmark : ∀ overloaded x, bearsOverload (text overloaded x) = overloaded)
    (hle : Sorted.IsOrder signature le)
    (hlt : ∀ x y, le x y = true → signature x ≠ signature y → lt signature x y)
    (hlines : g.lines = (Sorted.select signature le candidates).map (text g.overloaded))
    (hoverloaded : g.overloaded = decide (1 < (Sorted.select signature le candidates).length)) :
    Declares key line lt candidates g where
  lines := by
    refine ⟨signature, hkey, Sorted.select signature le candidates,
      Sorted.isSelection_select hle hlt candidates, ?_⟩
    have hall : ∀ x ∈ Sorted.select signature le candidates,
        line g.overloaded x = .ok (text g.overloaded x) := by
      intro x hx
      exact hline x (Sorted.mem_of_mem_select hx) g.overloaded
    rw [hlines]
    exact mapM_eq_ok hall
  overloaded := by rw [hoverloaded, hlines, List.length_map]
  marked := by
    intro l hl
    rw [hlines] at hl
    obtain ⟨x, -, rfl⟩ := List.mem_map.mp hl
    exact hmark g.overloaded x

/-! ## Groups -/

variable (m : Mapping)

theorem upgradedKey_eq_ok {m : Mapping} {method : Method}
    (h : ∀ t ∈ (method.upgraded m).types, m.Maps t) :
    method.upgradedKey m = .ok (m.signature method) :=
  (asks_methodKey m (method.upgraded m) (method.upgraded m).mentionedParameters).isOk_iff.mpr h

theorem upgradedLine_eq_ok {m : Mapping} {method : Method}
    (h : ∀ t ∈ (method.upgraded m).types, m.Maps t) (overloaded : Bool) :
    method.upgradedLine m overloaded = .ok (m.declaration overloaded method) :=
  (asks_methodLine m overloaded (method.upgraded m)
    (method.upgraded m).mentionedParameters).isOk_iff.mpr h

/-- A method that comes no later than another with a different key comes before it. -/
theorem before_of_precedes {p q : Method} (h : m.precedes p q = true)
    (hne : m.signature p ≠ m.signature q) : Method.Before m.signature p q := by
  have hlength (r : Method) : (m.keyed r).method.parameters.length = r.parameters.length :=
    List.length_map _
  have hle := KeyedMethod.le_iff.mp h
  rw [hlength, hlength] at hle
  rcases hle with hle | ⟨hlen, hkeys⟩
  · exact .inl hle
  · exact .inr ⟨hlen, hkeys, hne⟩

theorem declares_groupOf {name : Text} {methods : List Method}
    (h : ∀ method ∈ methods, ∀ t ∈ (method.upgraded m).types, m.Maps t) :
    Declares (Method.upgradedKey m) (Method.upgradedLine m) Method.Before methods
      (m.groupOf name methods) :=
  declares_select (fun p hp => upgradedKey_eq_ok (h p hp))
    (fun p hp => upgradedLine_eq_ok (h p hp)) (bearsOverload_methodLine m) m.isOrder_precedes
    (fun _ _ => before_of_precedes m) rfl rfl

theorem findSome?_cleanSummary (methods : List Method) :
    (methods.findSome? fun method => cleanSummary method.summary) =
      ((methods.filterMap Method.summary).map strip).find? fun s => s ≠ [] := by
  induction methods with
  | nil => rfl
  | cons method methods ih =>
    rw [List.findSome?_cons, ih]
    cases hsummary : method.summary with
    | none =>
      rw [List.filterMap_cons_none hsummary]
      rfl
    | some s =>
      rw [List.filterMap_cons_some hsummary, List.map_cons, List.find?_cons, cleanSummary,
        Option.map_some]
      cases strip s with
      | nil => rfl
      | cons c cs => rfl

theorem name_groupsOf (methods : List Method) :
    (m.groupsOf methods).map MemberGroup.name = methodNames methods := by
  rw [Mapping.groupsOf, List.map_map]
  exact List.map_id _

theorem isGrouping_groupsOf {methods : List Method} (h : ∀ t ∈ m.methodTypes methods, m.Maps t) :
    IsGrouping m methods (m.groupsOf methods) where
  ascending := by
    rw [name_groupsOf]
    exact Sorted.ofList_pairwise Text.isOrder_le _
  complete name := by rw [name_groupsOf, mem_methodNames]
  declares g hg := by
    obtain ⟨name, hname, rfl⟩ := List.mem_map.mp hg
    refine declares_groupOf m fun p hp t ht => h t (mem_methodTypes.mpr ?_)
    exact List.mem_flatMap.mpr ⟨name, hname, List.mem_flatMap.mpr ⟨p, hp, ht⟩⟩
  summary g hg := by
    obtain ⟨name, hname, rfl⟩ := List.mem_map.mp hg
    exact findSome?_cleanSummary _

theorem declares_constructorsOf {cs : List Constructor}
    (h : ∀ c ∈ cs.filter Constructor.isPublic, ∀ t ∈ c.types, m.Maps t) :
    Declares (Constructor.key m.map) (fun overloaded c => c.line m.map overloaded)
      (fun signature c d => Text.Lt (signature c) (signature d)) (cs.filter Constructor.isPublic)
      (m.constructorsOf cs) :=
  declares_select (fun c hc => (asks_constructorKey m c).isOk_iff.mpr (h c hc))
    (fun c hc overloaded => (asks_constructorLine m overloaded c).isOk_iff.mpr (h c hc))
    (bearsOverload_constructorLine m) (Text.isOrder_le.comap m.constructorSignature)
    (fun _ _ hle hne => ⟨hle, hne⟩) rfl rfl

/-- **Grouping is exact.**  Where the types of the named methods are mapped, there are groups and
they are a grouping; and where those of the public constructors are, there is a group of
constructors that declares them in the order of their keys. -/
theorem methodGroups_exact (methods : List Method) (constructors : List Constructor) :
    ((∀ t ∈ m.methodTypes methods, m.Maps t) →
      ∃ groups, methodGroups m.map m methods = .ok groups ∧ IsGrouping m methods groups) ∧
    ((∀ c ∈ constructors.filter Constructor.isPublic, ∀ t ∈ c.types, m.Maps t) →
      ∃ g, constructorGroup m.map constructors = .ok g ∧ g.name = "new".toList ∧
        g.summary = none ∧
        Declares (Constructor.key m.map) (fun overloaded c => c.line m.map overloaded)
          (fun signature c d => Text.Lt (signature c) (signature d))
          (constructors.filter Constructor.isPublic) g) := by
  constructor
  · intro h
    exact ⟨m.groupsOf methods, (asks_methodGroups m methods).isOk_iff.mpr h,
      isGrouping_groupsOf m h⟩
  · intro h
    have hall : ∀ t ∈ (constructors.filter Constructor.isPublic).flatMap Constructor.types,
        m.Maps t := by
      intro t ht
      obtain ⟨c, hc, ht⟩ := List.mem_flatMap.mp ht
      exact h c hc t ht
    exact ⟨m.constructorsOf constructors, (asks_constructorGroup m constructors).isOk_iff.mpr hall,
      rfl, rfl, declares_constructorsOf m h⟩

/-- Three methods with one name, of which two have one key after mapping, a method without a name
that is in no group, and two constructors of which one is not public. -/
theorem methodGroups_exact_run :
    let m : Mapping := {}
    let run (name type : String) (summary : Option Text) : Method :=
      { name := name.toList, returnType := "System.Void".toList, summary,
        parameters := [{ name := ['x'], type := type.toList }] }
    let methods := [run "Run" "System.String" none, run " " "System.String" none,
      run "Run" "System.Int16" (some [' ']), run "Run" "System.Int32" (some " Runs. ".toList)]
    let constructors : List Constructor := [{}, { isPublic := false }]
    (∀ t ∈ m.methodTypes methods, m.Maps t) ∧
      (∀ c ∈ constructors.filter Constructor.isPublic, ∀ t ∈ c.types, m.Maps t) ∧
      (∃ groups, methodGroups m.map m methods = .ok groups ∧ IsGrouping m methods groups) ∧
      ∃ g, constructorGroup m.map constructors = .ok g ∧
        Declares (Constructor.key m.map) (fun overloaded c => c.line m.map overloaded)
          (fun signature c d => Text.Lt (signature c) (signature d))
          (constructors.filter Constructor.isPublic) g := by
  intro m run methods constructors
  have hmethods : ∀ t ∈ m.methodTypes methods, m.Maps t := by decide +kernel
  have hconstructors : ∀ c ∈ constructors.filter Constructor.isPublic, ∀ t ∈ c.types,
      m.Maps t := by decide +kernel
  obtain ⟨hgroups, hgroup⟩ := methodGroups_exact m methods constructors
  obtain ⟨g, hg, -, -, hdeclares⟩ := hgroup hconstructors
  exact ⟨hmethods, hconstructors, hgroups hmethods, g, hg, hdeclares⟩

end HaxeBindings
