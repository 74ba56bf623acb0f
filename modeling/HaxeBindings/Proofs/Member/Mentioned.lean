import HaxeBindings.Member.Signature
import HaxeBindings.Proofs.Member.Grouping
import HaxeBindings.Proofs.Text.Characters
import HaxeBindings.Proofs.TypeExpr.Nodes

/-!
# Declared and mentioned generic parameters

What a method declares is read off the tokens of its types, and what its types show is
read off their trees.  The trees are those of the mapping, read relative to its
vocabulary; the tokens come from trees that are read relative to none, and a token has
lost the namespace and the arity marker of its name.  This file compares the two.

* `identifierOf_eq_parameterIdentifier` --- the token of a generic parameter is the
  identifier it is shown by, so every parameter that is shown is declared
  (`mentionedParameters_declares`);
* `arityMark_mem_simpleName` --- the token of a host type has the form of a parameter
  only when an arity marker was cut off from it;
* `mentionedParameters_exact` --- what is declared is what the types use, together with
  the host types that are mistaken for parameters in this way.
-/

namespace HaxeBindings

open Text Schema

namespace Schema

/-! ## Tokens of parameters and of host types -/

theorem not_mem_of_isParameterName {t : Text} (h : isParameterName t = true) {c : Char}
    (halphanum : c.isAlphanum = false) (hblank : isBlank c = false) : c ∉ t := fun hc =>
  Bool.false_ne_true (halphanum.symm.trans
    (TypeExpr.isAlphanum_of_isParameterName h (mem_strip_of_mem hc hblank)))

theorem isParameterName_parameterIdentifier {name : Text} (h : NamesParameter name) :
    isParameterName (TypeExpr.parameterIdentifier name) = true := by
  unfold TypeExpr.parameterIdentifier
  split
  · next hname => exact hname
  · next hname => exact h.resolve_left hname

/-- **The token of a generic parameter is its identifier.** -/
theorem identifierOf_eq_parameterIdentifier {name : Text} (htrim : strip name = name)
    (h : NamesParameter name) : identifierOf name = TypeExpr.parameterIdentifier name := by
  have hunmarked {t : Text} (ht : isParameterName t = true) : before arityMark t = t :=
    before_eq_self (not_mem_of_isParameterName ht (by decide) (by decide))
  rw [identifierOf, htrim, TypeExpr.parameterIdentifier]
  split
  · next hname =>
    have hdot : '.' ∉ name := not_mem_of_isParameterName hname (by decide) (by decide)
    rw [simpleName_eq_self hdot, hunmarked hname]
  · next hname => exact hunmarked (h.resolve_left hname)

/-- The token of a host type has the form of a parameter only without an arity marker that its
name has. -/
theorem arityMark_mem_simpleName {name : Text} (htrim : strip name = name)
    (h : ¬NamesParameter name) (htoken : isParameterName (identifierOf name) = true) :
    arityMark ∈ simpleName name := by
  by_contra hunmarked
  rw [identifierOf, htrim, before_eq_self hunmarked] at htoken
  exact h (.inr htoken)

end Schema

namespace TypeExpr

/-- **The tokens in the form of a parameter** are the identifiers of the generic parameters, and
among the tokens of host types those of that form. -/
theorem mem_tokens_parse_iff {text token : Text} (htoken : isParameterName token = true) :
    token ∈ (parse [] text).tokens ↔
      (∃ name ∈ (parse [] text).parameterNames, parameterIdentifier name = token) ∨
        ∃ name ∈ (parse [] text).hostNames, identifierOf name = token := by
  rw [tokens_eq_filterMap_nodes, List.mem_filterMap]
  constructor
  · rintro ⟨node, hnode, hword⟩
    have hnamed := isWellNamed_of_mem_nodes_parse hnode
    cases node with
    | primitive keyword => exact absurd hnamed List.not_mem_nil
    | array element => exact nomatch hword
    | nullable inner =>
      rw [← Option.some_inj.mp hword] at htoken
      exact absurd htoken (by decide)
    | named name arguments =>
      exact .inr ⟨name, mem_hostNames.mpr ⟨arguments, hnode⟩, Option.some_inj.mp hword⟩
    | parameter name =>
      refine .inl ⟨name, mem_parameterNames.mpr hnode, ?_⟩
      rw [← identifierOf_eq_parameterIdentifier hnamed.1 hnamed.2]
      exact Option.some_inj.mp hword
    | unclassified => exact nomatch hword
  · rintro (⟨name, hname, rfl⟩ | ⟨name, hname, rfl⟩)
    · have hnode := mem_parameterNames.mp hname
      have hnamed := isWellNamed_of_mem_nodes_parse hnode
      refine ⟨_, hnode, ?_⟩
      rw [token?, identifierOf_eq_parameterIdentifier hnamed.1 hnamed.2]
    · obtain ⟨arguments, hnode⟩ := mem_hostNames.mp hname
      exact ⟨_, hnode, rfl⟩

/-- A blank string is read as the root object type, whose token is no parameter. -/
theorem mem_tokensOfText_iff {text token : Text} (htoken : isParameterName token = true) :
    token ∈ tokensOfText text ↔ token ∈ (parse [] text).tokens := by
  unfold tokensOfText
  split
  · next hblank =>
    rw [← parse_strip, List.isEmpty_iff.mp hblank]
    refine iff_of_false List.not_mem_nil fun hobject => ?_
    rw [List.mem_singleton.mp hobject] at htoken
    exact absurd htoken (by decide)
  · exact Iff.rfl

end TypeExpr

namespace Method

/-! ## What is declared -/

/-- Some type of the method has a generic parameter that is shown as `identifier`. -/
def Uses (method : Method) (identifier : Text) : Prop :=
  ∃ text ∈ method.types, ∃ name ∈ (TypeExpr.parse [] text).parameterNames,
    strip (TypeExpr.parameterIdentifier name) = identifier

/-- Some type of the method has a host type that is taken for the parameter `identifier`: the part
of its simple name in front of an arity mark has the form of a parameter. -/
def Mistakes (method : Method) (identifier : Text) : Prop :=
  ∃ text ∈ method.types, ∃ name ∈ (TypeExpr.parse [] text).hostNames,
    arityMark ∈ simpleName name ∧ isParameterName (before arityMark (simpleName name)) = true ∧
      strip (before arityMark (simpleName name)) = identifier

instance (method : Method) (identifier : Text) : Decidable (method.Uses identifier) :=
  inferInstanceAs (Decidable (∃ text ∈ _, ∃ name ∈ _, _))

instance (method : Method) (identifier : Text) : Decidable (method.Mistakes identifier) :=
  inferInstanceAs (Decidable (∃ text ∈ _, ∃ name ∈ _, _))

variable {method : Method}

/-- A method declares its tokens in the form of a parameter. -/
theorem mem_mentionedParameters {identifier : Text} :
    identifier ∈ method.mentionedParameters ↔ ∃ text ∈ method.types,
      ∃ token ∈ (TypeExpr.parse [] text).tokens, isParameterName token = true ∧
        strip token = identifier := by
  rw [mentionedParameters, parametersAmong, Sorted.mem_ofList, List.mem_map]
  constructor
  · rintro ⟨token, hmem, hstrip⟩
    obtain ⟨hmem, htoken⟩ := List.mem_filter.mp hmem
    obtain ⟨text, htext, hmem⟩ := List.mem_flatMap.mp hmem
    exact ⟨text, htext, token, (TypeExpr.mem_tokensOfText_iff htoken).mp hmem, htoken, hstrip⟩
  · rintro ⟨text, htext, token, hmem, htoken, hstrip⟩
    have hmem := (TypeExpr.mem_tokensOfText_iff htoken).mpr hmem
    exact ⟨token, List.mem_filter.mpr ⟨List.mem_flatMap.mpr ⟨text, htext, hmem⟩, htoken⟩, hstrip⟩

/-- **What is declared is used, or is a host type that is mistaken for a parameter.** -/
theorem mem_mentionedParameters_iff {identifier : Text} :
    identifier ∈ method.mentionedParameters ↔
      method.Uses identifier ∨ method.Mistakes identifier := by
  rw [mem_mentionedParameters]
  constructor
  · rintro ⟨text, htext, token, hmem, htoken, hstrip⟩
    rcases (TypeExpr.mem_tokens_parse_iff htoken).mp hmem with
      ⟨name, hname, rfl⟩ | ⟨name, hname, rfl⟩
    · exact .inl ⟨text, htext, name, hname, hstrip⟩
    · obtain ⟨arguments, hnode⟩ := TypeExpr.mem_hostNames.mp hname
      obtain ⟨htrim, hhost⟩ := TypeExpr.isWellNamed_of_mem_nodes_parse hnode
      have hmark := arityMark_mem_simpleName htrim hhost htoken
      rw [identifierOf, htrim] at htoken hstrip
      exact .inr ⟨text, htext, name, hname, hmark, htoken, hstrip⟩
  · rintro (⟨text, htext, name, hname, hstrip⟩ | ⟨text, htext, name, hname, -, htoken, hstrip⟩)
    · have hnode := TypeExpr.mem_parameterNames.mp hname
      have htoken := isParameterName_parameterIdentifier
        (TypeExpr.isWellNamed_of_mem_nodes_parse hnode).2
      exact ⟨text, htext, _, (TypeExpr.mem_tokens_parse_iff htoken).mpr (.inl ⟨name, hname, rfl⟩),
        htoken, hstrip⟩
    · obtain ⟨arguments, hnode⟩ := TypeExpr.mem_hostNames.mp hname
      have htrim := (TypeExpr.isWellNamed_of_mem_nodes_parse hnode).1
      have hidentifier : identifierOf name = before arityMark (simpleName name) := by
        rw [identifierOf, htrim]
      refine ⟨text, htext, identifierOf name, ?_, hidentifier ▸ htoken, hidentifier ▸ hstrip⟩
      exact (TypeExpr.mem_tokens_parse_iff (hidentifier ▸ htoken)).mpr (.inr ⟨name, hname, rfl⟩)

/-- **Every generic parameter that is shown is declared.**  A parameter in a type that the mapping
reads is shown by its identifier, and that identifier is declared; so it is with the types read
relative to any vocabulary.  Nothing is declared twice, and the declarations stand in ascending
order. -/
theorem mentionedParameters_declares (m : Mapping) (method : Method) :
    (∀ text ∈ method.types, ∀ name ∈ (m.parse text).parameterNames,
      ∃ shown, m.mapExpr (.parameter name) = .ok shown ∧
        shown = TypeExpr.parameterIdentifier name ∧
        strip shown ∈ method.mentionedParameters) ∧
    (∀ vocabulary, ∀ text ∈ method.types,
      ∀ name ∈ (TypeExpr.parse vocabulary text).parameterNames,
        strip (TypeExpr.parameterIdentifier name) ∈ method.mentionedParameters) ∧
    method.mentionedParameters.Pairwise Text.Lt := by
  have hdeclared : ∀ vocabulary, ∀ text ∈ method.types,
      ∀ name ∈ (TypeExpr.parse vocabulary text).parameterNames,
        strip (TypeExpr.parameterIdentifier name) ∈ method.mentionedParameters := by
    intro vocabulary text htext name hname
    have hname := TypeExpr.parameterNames_parse_subset (List.nil_subset vocabulary) text hname
    exact mem_mentionedParameters_iff.mpr (.inl ⟨text, htext, name, hname, rfl⟩)
  refine ⟨fun text htext name hname => ?_, hdeclared, Sorted.ofList_pairwise Text.isOrder_le _⟩
  exact ⟨_, rfl, rfl, hdeclared _ text htext name hname⟩

/-- A qualified parameter with a blank behind the dot, inside a nullable array, beside a word that
has the form of a parameter but belongs to the vocabulary of the mapping: the word is no parameter
for the mapping, and is declared all the same. -/
theorem mentionedParameters_declares_qualified :
    let m : Mapping := ⟨{}, { dynamicType := "TItem".toList }⟩
    let text := nullableName ++ "< Foo. TKey []>".toList
    let method : Method := { returnType := text, parameters := [{ type := "TItem[]".toList }] }
    text ∈ method.types ∧ "Foo. TKey".toList ∈ (m.parse text).parameterNames ∧
      (m.parse "TItem[]".toList).parameterNames = [] ∧
      method.mentionedParameters = ["TItem".toList, "TKey".toList] ∧
      m.mapExpr (.parameter "Foo. TKey".toList) = .ok " TKey".toList ∧
      strip " TKey".toList ∈ method.mentionedParameters := by
  intro m text method
  have hname : "Foo. TKey".toList ∈ (m.parse text).parameterNames := by decide +kernel
  obtain ⟨shown, hshown, hidentifier, hmem⟩ :=
    (mentionedParameters_declares m method).1 text List.mem_cons_self _ hname
  have hspaced : shown = " TKey".toList := by
    rw [hidentifier]
    decide +kernel
  rw [hspaced] at hshown hmem
  exact ⟨List.mem_cons_self, hname, by decide +kernel, by decide +kernel, hshown, hmem⟩

/-- **Which concrete types are declared as parameters.**  All that a method declares is used by its
types as long as no host type in them is mistaken for a parameter that they do not use, and those
that are mistaken are declared. -/
theorem mentionedParameters_exact (method : Method) :
    ((∀ identifier ∈ method.mentionedParameters, method.Uses identifier) ↔
      ∀ identifier, method.Mistakes identifier → method.Uses identifier) ∧
    ∀ identifier, identifier ∈ method.mentionedParameters ↔
      method.Uses identifier ∨ method.Mistakes identifier := by
  refine ⟨⟨fun hused identifier hmistaken => ?_, fun hmistaken identifier hmem => ?_⟩,
    fun identifier => mem_mentionedParameters_iff⟩
  · exact hused identifier (mem_mentionedParameters_iff.mpr (.inr hmistaken))
  · exact (mem_mentionedParameters_iff.mp hmem).elim id (hmistaken identifier)

/-- A task with one type parameter is the only type of a method beside the empty one, and the method
declares a generic parameter called `Task`. -/
theorem mentionedParameters_task :
    let task := "System.Threading.Tasks.Task".toList ++ arityMark :: "1<System.Int32>".toList
    let method : Method :=
      { name := "Run".toList, returnType := voidName, parameters := [{ type := task }] }
    method.mentionedParameters = ["Task".toList] ∧ ¬method.Uses "Task".toList := by
  decide +kernel

end Method
end HaxeBindings
