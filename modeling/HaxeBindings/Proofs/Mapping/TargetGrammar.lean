import HaxeBindings.Proofs.Mapping.Shape
import HaxeBindings.Proofs.Schema.Arity
import HaxeBindings.Proofs.TypeExpr.Nodes

/-!
# The grammar of mapped types

`IsTargetType` says which characters a mapped type holds.  This file says how it is put
together, and what of it comes from the names of the tree:

    Out  ::=  Word  |  Parameter  |  Array<Out>  |  Null<Out>  |  User  |  User<Out,...,Out>

A word is one of the target vocabulary, and a user type is the package and the identifier
of a name of the tree.

* `IsUserType`, `IsOutput` --- the grammar.  The package is the root package with the
  lowered segments of a namespace below the root, so a foreign name is nowhere in it;
* `isIdentifier_of_typeIdentifier?` --- the identifier of a type starts with a letter or
  an underscore;
* `IsOutput.isTargetType`, `IsOutput.eq_dynamicType` --- what can be read off the grammar:
  its texts are target types, and none is the dynamic type with arguments;
* `isOutput_mapExpr` --- a tree with plain names that is mapped at all is mapped into the
  grammar.

The tree need not be canonical.  Its names are free of blanks and punctuation, and what
stands for a parameter follows the convention (`IsPlain`), but a host type may have the
name of a parameter, of a keyword or of the nullable wrapper.
-/

namespace HaxeBindings

open Text Schema Name

/-! ## Plain trees -/

/-- A name without blanks, brackets and commas. -/
structure Schema.IsPlainName (t : Text) : Prop where
  ne_nil : t ≠ []
  plain : ∀ c ∈ t, isBlank c = false ∧ c ∉ "<>,[]".toList

theorem Schema.IsPlainName.ne_punctuation {t : Text} (h : IsPlainName t) {c : Char} (hc : c ∈ t) :
    c ≠ '<' ∧ c ≠ '>' ∧ c ≠ ',' := by
  have hplain := (h.plain c hc).2
  refine ⟨?_, ?_, ?_⟩
  all_goals
    rintro rfl
    exact hplain (by decide)

/-- A tree with plain names, keywords of a vocabulary, and parameters that follow the convention. -/
inductive TypeExpr.IsPlain (vocabulary : List Text) : TypeExpr → Prop
  | primitive {keyword : Text} : keyword ∈ vocabulary → IsPlain vocabulary (.primitive keyword)
  | array {element : TypeExpr} : IsPlain vocabulary element → IsPlain vocabulary (.array element)
  | nullable {inner : TypeExpr} : IsPlain vocabulary inner → IsPlain vocabulary (.nullable inner)
  | named {name : Text} {arguments : List TypeExpr} : IsPlainName name →
      (∀ a ∈ arguments, IsPlain vocabulary a) → IsPlain vocabulary (.named name arguments)
  | parameter {name : Text} : IsPlainName name → NamesParameter name →
      IsPlain vocabulary (.parameter name)
  | unclassified : IsPlain vocabulary .unclassified

theorem TypeExpr.hostNames_named (name : Text) (arguments : List TypeExpr) :
    (named name arguments).hostNames = name :: arguments.flatMap hostNames := by
  rw [hostNames, nodes, nodesOfAll_eq_flatMap, List.filterMap_cons, List.filterMap_flatMap]
  rfl

theorem TypeExpr.IsPlain.of_mem_hostNames {vocabulary : List Text} {e : TypeExpr}
    (h : e.IsPlain vocabulary) {name : Text} (hname : name ∈ e.hostNames) : IsPlainName name := by
  induction h with
  | primitive _ => exact absurd hname List.not_mem_nil
  | array _ ih => exact ih hname
  | nullable _ ih => exact ih hname
  | named hplain _ ih =>
    rw [hostNames_named] at hname
    rcases List.mem_cons.mp hname with rfl | hname
    · exact hplain
    · obtain ⟨a, ha, hname⟩ := List.mem_flatMap.mp hname
      exact ih a ha hname
  | parameter _ _ => exact absurd hname List.not_mem_nil
  | unclassified => exact absurd hname List.not_mem_nil

/-! ## Identifiers -/

/-- A letter or an underscore, and behind it letters, digits and underscores. -/
def Name.IsIdentifier (t : Text) : Prop :=
  ∃ c rest, t = c :: rest ∧ (c.isAlpha = true ∨ c = '_') ∧ ∀ d ∈ rest, isIdentifierChar d = true

theorem Name.isDigit_eq_false_of_guardDigit {t rest : Text} {c : Char}
    (h : guardDigit t = some (c :: rest)) : isDigit c = false := by
  cases t with
  | nil => exact nomatch h
  | cons d others =>
    have heq := Option.some_inj.mp h
    split at heq
    · rw [← (List.cons.inj heq).1]
      decide
    · next hnot =>
      rw [← (List.cons.inj heq).1]
      exact Bool.eq_false_iff.mpr hnot

/-- The identifier of a type does not start with a digit. -/
theorem Name.isIdentifier_of_typeIdentifier? {default name identifier : Text}
    (hdefault : ∀ c ∈ default, isIdentifierChar c = true)
    (h : typeIdentifier? default name = some identifier) : IsIdentifier identifier := by
  obtain ⟨hne, hchars⟩ := isIdentifierChar_of_typeIdentifier? hdefault h
  obtain ⟨c, rest, rfl⟩ := List.exists_cons_of_ne_nil hne
  rw [List.forall_mem_cons] at hchars
  refine ⟨c, rest, rfl, ?_, hchars.2⟩
  have hdigit : isDigit c = false := isDigit_eq_false_of_guardDigit h
  have hchar : (c.isAlpha || c.isDigit || c == '_') = true := hchars.1
  rw [Bool.or_eq_true, Bool.or_eq_true, beq_iff_eq] at hchar
  rcases hchar with (hletter | hascii) | hunderscore
  · exact .inl hletter
  · have hvalue : isDigit c = true := by
      rw [isDigit, decimalValue?_of_isDigit hascii]
      rfl
    exact absurd (hdigit.symm.trans hvalue) Bool.false_ne_true
  · exact .inr hunderscore

/-! ## The grammar -/

namespace Mapping

/-- A package and an identifier, from one of the given names: the root package with the lowered
segments of its namespace behind it, and what is usable of its simple name. -/
def IsUserType (names : List Text) (t : Text) : Prop :=
  ∃ name ∈ names, ∃ segments identifier, Package.HasSegments {} (namespaceOf name) segments ∧
    typeIdentifier? "Type".toList (simpleName name) = some identifier ∧ IsIdentifier identifier ∧
    t = Package.nameOf {} segments ++ '.' :: identifier

/-- The texts that a tree with the given host names can be mapped to. -/
inductive IsOutput (names : List Text) : Text → Prop
  | word {t : Text} : t ∈ ({} : Options).vocabulary → IsOutput names t
  | parameter {t : Text} : strip t = t → isParameterName t = true → IsOutput names t
  | array {t : Text} : IsOutput names t → IsOutput names (applied "Array".toList [t])
  | nullable {t : Text} : IsOutput names t → IsOutput names (applied "Null".toList [t])
  | user {t : Text} : IsUserType names t → IsOutput names t
  | applied {base : Text} {ts : List Text} : IsUserType names base → ts ≠ [] →
      (∀ t ∈ ts, IsOutput names t) → IsOutput names (applied base ts)

variable {names : List Text} {t : Text}

/-- User types are written in the characters of the names. -/
theorem IsUserType.name {ok : Char → Prop} (hok : IsNameClass ok)
    (hnames : ∀ name ∈ names, ∀ c ∈ name, ok c) (h : IsUserType names t) :
    t ≠ [] ∧ ∀ c ∈ t, ok c := by
  obtain ⟨name, hname, segments, identifier, hsegments, hidentifier, -, rfl⟩ := h
  have hdefault : ∀ c ∈ "Type".toList, isIdentifierChar c = true := forall_mem_of_all (by decide)
  refine ⟨by simp, fun c hc => ?_⟩
  rw [List.mem_append, List.mem_cons] at hc
  rcases hc with hc | rfl | hc
  · exact ok_of_mem_nameOf hok (fun s hs c hc =>
      hnames name hname c (mem_of_mem_namespaceOf (hsegments.mem hs hc))) hc
  · exact hok.dot
  · exact hok.identifier c ((isIdentifierChar_of_typeIdentifier? hdefault hidentifier).2 c hc)

/-- **The texts of the grammar are target types** in the characters of the names. -/
theorem IsOutput.isTargetType {ok : Char → Prop} (hok : IsNameClass ok)
    (hnames : ∀ name ∈ names, ∀ c ∈ name, ok c) (h : IsOutput names t) : IsTargetType ok t := by
  induction h with
  | word hword => exact isTargetType_of_mem_vocabulary hok hword
  | parameter htrim hparameter =>
    refine .name (TypeExpr.ne_nil_of_namesParameter (.inl hparameter)) fun c hc => ?_
    have halnum : c.isAlphanum = true :=
      TypeExpr.isAlphanum_of_isParameterName hparameter (htrim.symm ▸ hc)
    exact hok.identifier c (isIdentifierChar_of_isAlphanum halnum)
  | array _ ih => exact ih.wrapped hok (forall_mem_of_all (by decide))
  | nullable _ ih => exact ih.wrapped hok (forall_mem_of_all (by decide))
  | user huser =>
    obtain ⟨hne, hchars⟩ := huser.name hok hnames
    exact .name hne hchars
  | applied hbase hne _ ih => exact .applied (hbase.name hok hnames).2 hne ih

/-- **In the grammar the dynamic type has no arguments.**  Where it stands in front of a bracket or
of the end, it is everything. -/
theorem IsOutput.eq_dynamicType (h : IsOutput names t)
    (hbase : before '<' t = "Dynamic".toList) : t = "Dynamic".toList := by
  -- a user type starts with the root package, whatever is behind it
  have huser {base rest : Text} (h : IsUserType names base) :
      before '<' (base ++ rest) ≠ "Dynamic".toList := by
    obtain ⟨name, -, segments, identifier, -, -, -, rfl⟩ := h
    intro heq
    exact absurd (congrArg List.head? heq) (by decide : some 's' ≠ some 'D')
  cases h with
  | word hword =>
    have hwords : ∀ word ∈ ({} : Options).vocabulary, before '<' word = word := by decide
    rwa [hwords t hword] at hbase
  | parameter htrim hparameter =>
    have hplain : '<' ∉ t := by
      intro hmem
      rw [← htrim] at hmem
      exact absurd (TypeExpr.isAlphanum_of_isParameterName hparameter hmem) (by decide)
    rwa [before_eq_self hplain] at hbase
  | array _ => exact absurd (congrArg List.head? hbase) (by decide : some 'A' ≠ some 'D')
  | nullable _ => exact absurd (congrArg List.head? hbase) (by decide : some 'N' ≠ some 'D')
  | user h =>
    rw [← List.append_nil t] at hbase
    exact absurd hbase (huser h)
  | applied h =>
    rw [Mapping.applied, List.append_assoc] at hbase
    exact absurd hbase (huser h)

/-! ## Mapping into the grammar -/

section

variable {index : ArityIndex}

theorem isOutput_dynamicType (names : List Text) : IsOutput names ({} : Options).dynamicType :=
  .word List.mem_cons_self

/-- A base that is not erased is a user type. -/
theorem isUserType_of_userType {name base : Text} (hname : name ∈ names)
    (h : (⟨index, {}⟩ : Mapping).userType name = .ok base)
    (hbase : base ≠ ({} : Options).dynamicType) : IsUserType names base := by
  rcases userType_eq_ok h with ⟨-, herased⟩ | ⟨package, identifier, hpackage, hidentifier, rfl⟩
  · exact absurd herased hbase
  · have hdefault : ∀ c ∈ ({} : Options).defaultTypeName, isIdentifierChar c = true :=
      forall_mem_of_all (by decide)
    obtain ⟨segments, hsegments, rfl⟩ := Package.nameOfReference_eq_some hpackage
    exact ⟨name, hname, segments, identifier, hsegments, hidentifier,
      isIdentifier_of_typeIdentifier? hdefault hidentifier, rfl⟩

/-- A host type is mapped into the grammar when its arguments are. -/
theorem isOutput_named {name u : Text} {arguments : List TypeExpr} (hname : name ∈ names)
    (harguments : ∀ a ∈ arguments, ∀ t, (⟨index, {}⟩ : Mapping).mapExpr a = .ok t →
      IsOutput names t)
    (h : (⟨index, {}⟩ : Mapping).mapExpr (.named name arguments) = .ok u) : IsOutput names u := by
  rcases mapExpr_named_eq_ok h with hcore | ⟨-, base, hbase, hu⟩
  · exact .word (mem_vocabulary_of_coreType? hcore)
  · rcases hu with rfl | ⟨hdynamic, ts, hts, rfl, hmem⟩
    · by_cases hdynamic : u = ({} : Options).dynamicType
      · rw [hdynamic]
        exact isOutput_dynamicType names
      · exact .user (isUserType_of_userType hname hbase hdynamic)
    · refine .applied (isUserType_of_userType hname hbase hdynamic) hts fun t ht => ?_
      rcases hmem t ht with rfl | ⟨a, ha, hat⟩
      · exact isOutput_dynamicType names
      · exact harguments a ha t hat

/-- A parameter that follows the convention is mapped to a name that does. -/
theorem isOutput_parameterIdentifier {name : Text} (hplain : IsPlainName name)
    (h : NamesParameter name) : IsOutput names (TypeExpr.parameterIdentifier name) := by
  have htrimmed {part : Text} (hpart : ∀ c ∈ part, c ∈ name) : strip part = part :=
    strip_eq_self_of_not_blank fun c hc => (hplain.plain c (hpart c hc)).1
  rw [TypeExpr.parameterIdentifier]
  split
  · next hwhole => exact .parameter (htrimmed fun _ hc => hc) hwhole
  · next hnot =>
    exact .parameter (htrimmed fun _ hc => mem_of_mem_simpleName hc) (h.resolve_left hnot)

theorem isOutput_of_subset {e : TypeExpr} (h : e.IsPlain ({} : Options).vocabulary)
    (hnames : e.hostNames ⊆ names) {u : Text}
    (hu : (⟨index, {}⟩ : Mapping).mapExpr e = .ok u) : IsOutput names u := by
  induction h generalizing u with
  | primitive hkeyword =>
    rw [mapExpr] at hu
    rw [← Except.ok.inj hu]
    exact .word hkeyword
  | array _ ih =>
    rw [mapExpr] at hu
    obtain ⟨t, ht, hu⟩ := bind_eq_ok hu
    rw [← Except.ok.inj hu]
    exact .array (ih hnames ht)
  | nullable _ ih =>
    rw [mapExpr] at hu
    obtain ⟨t, ht, hu⟩ := bind_eq_ok hu
    rw [← Except.ok.inj hu]
    exact .nullable (ih hnames ht)
  | @named name arguments _ _ ih =>
    rw [TypeExpr.hostNames_named, List.cons_subset] at hnames
    refine isOutput_named hnames.1 (fun a ha t ht => ih a ha (fun n hn => ?_) ht) hu
    exact hnames.2 (List.mem_flatMap.mpr ⟨a, ha, hn⟩)
  | parameter hplain hparameter =>
    rw [mapExpr] at hu
    rw [← Except.ok.inj hu]
    exact isOutput_parameterIdentifier hplain hparameter
  | unclassified =>
    rw [mapExpr] at hu
    rw [← Except.ok.inj hu]
    exact isOutput_dynamicType names

/-- A type that members cannot refer to is erased, with the arguments it has. -/
theorem eq_dynamicType_of_foreign {m : Mapping} {name u : Text} {arguments : List TypeExpr}
    (hcore : m.coreType? name = none)
    (hforeign : Package.nameOfReference m.options (namespaceOf name) = none)
    (h : m.mapExpr (.named name arguments) = .ok u) : u = m.options.dynamicType := by
  rcases mapExpr_named_eq_ok h with hsome | ⟨-, base, hbase, hu⟩
  · exact absurd (hcore.symm.trans hsome) (Option.some_ne_none u).symm
  · rcases userType_eq_ok hbase with ⟨-, rfl⟩ | ⟨package, -, hpackage, -⟩
    · rcases hu with rfl | ⟨hne, -⟩
      · rfl
      · exact absurd rfl hne
    · exact absurd (hforeign.symm.trans hpackage) (Option.some_ne_none package).symm

/-- **A plain tree is mapped into the grammar**, with the user types made from its host names.
What it is mapped to is one item of an argument list: its brackets match, and its commas are between
brackets.  A host type that members cannot refer to is erased, and what it is erased to has no
arguments wherever it stands. -/
theorem isOutput_mapExpr {e : TypeExpr} (h : e.IsPlain ({} : Options).vocabulary) {u : Text}
    (hu : (⟨index, {}⟩ : Mapping).mapExpr e = .ok u) :
    IsOutput e.hostNames u ∧ IsClosed u ∧
      (∀ name arguments v, (⟨index, {}⟩ : Mapping).coreType? name = none →
        Package.nameOfReference {} (namespaceOf name) = none →
        (⟨index, {}⟩ : Mapping).mapExpr (.named name arguments) = .ok v → v = "Dynamic".toList) ∧
      ∀ t, IsOutput e.hostNames t → before '<' t = "Dynamic".toList → t = "Dynamic".toList := by
  have houtput : IsOutput e.hostNames u := isOutput_of_subset h (fun _ hname => hname) hu
  have hnames : ∀ name ∈ e.hostNames, ∀ c ∈ name, c ≠ '<' ∧ c ≠ '>' ∧ c ≠ ',' :=
    fun name hname c hc => (h.of_mem_hostNames hname).ne_punctuation hc
  refine ⟨houtput, ?_, fun name arguments v => eq_dynamicType_of_foreign,
    fun t ht hbase => ht.eq_dynamicType hbase⟩
  exact (houtput.isTargetType isNameClass_ne_punctuation hnames).isClosed isNameClass_ne_punctuation

end

/-- A generic type with an array, a nullable parameter and an instantiation of a foreign type. -/
theorem isOutput_mapExpr_map :
    let name := "Sandbox.UI.Map".toList ++ [arityMark, '3']
    let foreign := "Microsoft.Pool".toList
    let e : TypeExpr := .named name [.array (.named "System.Int32".toList []),
      .nullable (.parameter "Sandbox.TKey".toList), .named foreign [.parameter ['T']]]
    let u := "sbox.ui.Map<Array<Int>,Null<TKey>,Dynamic>".toList
    e.IsPlain ({} : Options).vocabulary ∧ (⟨{}, {}⟩ : Mapping).mapExpr e = .ok u ∧
      IsOutput e.hostNames u ∧ IsClosed u ∧
      (⟨{}, {}⟩ : Mapping).coreType? foreign = none ∧
      Package.nameOfReference {} (namespaceOf foreign) = none := by
  intro name foreign e u
  have hplain {t : Text} (hne : t ≠ [])
      (h : t.all (fun c => decide (isBlank c = false ∧ c ∉ "<>,[]".toList)) = true) :
      IsPlainName t := ⟨hne, forall_mem_of_all h⟩
  have he : e.IsPlain ({} : Options).vocabulary := by
    refine .named (hplain (by decide) (by decide +kernel)) fun a ha => ?_
    simp only [List.mem_cons, List.not_mem_nil, or_false] at ha
    rcases ha with rfl | rfl | rfl
    · exact .array (.named (hplain (by decide) (by decide +kernel))
        fun a ha => absurd ha List.not_mem_nil)
    · exact .nullable (.parameter (hplain (by decide) (by decide +kernel)) (by decide))
    · refine .named (hplain (by decide) (by decide +kernel)) fun a ha => ?_
      rw [List.mem_singleton.mp ha]
      exact .parameter (hplain (by decide) (by decide +kernel)) (by decide)
  have hmap : (⟨{}, {}⟩ : Mapping).mapExpr e = .ok u := by decide +kernel
  obtain ⟨houtput, hclosed, -, -⟩ := isOutput_mapExpr he hmap
  exact ⟨he, hmap, houtput, hclosed, by decide +kernel, by decide +kernel⟩

end Mapping
end HaxeBindings
