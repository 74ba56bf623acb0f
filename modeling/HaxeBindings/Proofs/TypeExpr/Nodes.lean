import HaxeBindings.Proofs.TypeExpr.RoundTrip

/-!
# The nodes of a tree

Two walks go over the tree of a schema string.  The mapping looks at the nodes, and the
collection of tokens keeps one word for a node and forgets of what kind it was.  To
compare them a tree is taken as the list of its nodes.

* `tokens_eq_filterMap_nodes` --- the tokens of a tree are the words of its nodes;
* `forall_nodes_parseWithin` --- what holds of every node that can stand at the root of a
  tree that is read holds of all nodes of such trees, since each of them was the root of
  the tree of a shorter string;
* `isWellNamed_of_mem_nodes_parse` --- in a tree that is read, a name is that of a
  parameter exactly when it follows the convention for parameters;
* `parameterNames_parse_subset` --- a larger vocabulary hides nodes and brings in none.
-/

namespace HaxeBindings
namespace TypeExpr

open Text Schema

mutual

/-- The nodes of an expression, each in front of those below it. -/
def nodes : TypeExpr → List TypeExpr
  | .primitive keyword => [.primitive keyword]
  | .array element => .array element :: element.nodes
  | .nullable inner => .nullable inner :: inner.nodes
  | .named name arguments => .named name arguments :: nodesOfAll arguments
  | .parameter name => [.parameter name]
  | .unclassified => [.unclassified]

/-- The nodes of a list of expressions. -/
def nodesOfAll : List TypeExpr → List TypeExpr
  | [] => []
  | e :: es => e.nodes ++ nodesOfAll es

end

/-- The name of a node that is a generic parameter. -/
def parameterName? : TypeExpr → Option Text
  | .parameter name => some name
  | _ => none

/-- The name of a node that is a host type. -/
def hostName? : TypeExpr → Option Text
  | .named name _ => some name
  | _ => none

/-- The names of the generic parameters in an expression, as they are written. -/
def parameterNames (e : TypeExpr) : List Text := e.nodes.filterMap parameterName?

/-- The names of the host types in an expression. -/
def hostNames (e : TypeExpr) : List Text := e.nodes.filterMap hostName?

theorem nodesOfAll_eq_flatMap (es : List TypeExpr) : nodesOfAll es = es.flatMap nodes := by
  induction es with
  | nil => rfl
  | cons e es ih => rw [nodesOfAll, ih, List.flatMap_cons]

theorem self_mem_nodes (e : TypeExpr) : e ∈ e.nodes := by
  cases e with
  | _ => exact List.mem_cons_self

theorem mem_parameterNames {e : TypeExpr} {name : Text} :
    name ∈ e.parameterNames ↔ .parameter name ∈ e.nodes := by
  rw [parameterNames, List.mem_filterMap]
  constructor
  · rintro ⟨node, hnode, hname⟩
    cases node with
    | parameter other =>
      rw [← Option.some_inj.mp hname]
      exact hnode
    | _ => exact nomatch hname
  · exact fun h => ⟨_, h, rfl⟩

theorem mem_hostNames {e : TypeExpr} {name : Text} :
    name ∈ e.hostNames ↔ ∃ arguments, .named name arguments ∈ e.nodes := by
  rw [hostNames, List.mem_filterMap]
  constructor
  · rintro ⟨node, hnode, hname⟩
    cases node with
    | named other arguments =>
      rw [← Option.some_inj.mp hname]
      exact ⟨arguments, hnode⟩
    | _ => exact nomatch hname
  · rintro ⟨arguments, h⟩
    exact ⟨_, h, rfl⟩

/-! ## Tokens -/

/-- The word that is kept for a node.  Arrays have none of their own. -/
def token? : TypeExpr → Option Text
  | .primitive keyword => some keyword
  | .array _ => none
  | .nullable _ => some (identifierOf nullableName)
  | .named name _ => some (identifierOf name)
  | .parameter name => some (identifierOf name)
  | .unclassified => none

mutual

/-- **The tokens of a tree are the words of its nodes.** -/
theorem tokens_eq_filterMap_nodes : ∀ e : TypeExpr, e.tokens = e.nodes.filterMap token?
  | .primitive _ => rfl
  | .array element => tokens_eq_filterMap_nodes element
  | .nullable inner => congrArg _ (tokens_eq_filterMap_nodes inner)
  | .named _ arguments => congrArg _ (tokensOfAll_eq_filterMap_nodesOfAll arguments)
  | .parameter _ => rfl
  | .unclassified => rfl

theorem tokensOfAll_eq_filterMap_nodesOfAll :
    ∀ es : List TypeExpr, tokensOfAll es = (nodesOfAll es).filterMap token?
  | [] => rfl
  | e :: es => by
    rw [tokensOfAll, nodesOfAll, List.filterMap_append, tokens_eq_filterMap_nodes e,
      tokensOfAll_eq_filterMap_nodesOfAll es]

end

/-! ## Trees that are read -/

/-- The strings that are read below the root. -/
def Shape.below : Shape → List Text
  | .array element => [element]
  | .nullable inner => [inner]
  | .named _ arguments => arguments
  | _ => []

/-- The nodes of a tree are its root and the nodes of the trees that are read below it. -/
theorem nodes_ofShape (read : Text → TypeExpr) (s : Shape) :
    (ofShape read s).nodes = ofShape read s :: s.below.flatMap fun t => (read t).nodes := by
  cases s with
  | object => rfl
  | primitive keyword => rfl
  | parameter name => rfl
  | array element => rw [Shape.below, List.flatMap_singleton, ofShape, nodes]
  | nullable inner => rw [Shape.below, List.flatMap_singleton, ofShape, nodes]
  | named name arguments =>
    rw [Shape.below, ofShape, nodes, nodesOfAll_eq_flatMap, List.flatMap_map]

variable {vocabulary : List Text}

/-- **What holds of every root holds of every node.** -/
theorem forall_nodes_parseWithin {P : TypeExpr → Prop} (hobject : P object)
    (hroot : ∀ read text, P (ofShape read (shape vocabulary text))) (levels : Nat) (text : Text) :
    ∀ node ∈ (parseWithin vocabulary levels text).nodes, P node := by
  induction levels generalizing text with
  | zero =>
    intro node hnode
    rw [List.mem_singleton.mp hnode]
    exact hobject
  | succ levels ih =>
    intro node hnode
    rw [parseWithin_succ, nodes_ofShape] at hnode
    rcases List.mem_cons.mp hnode with rfl | hnode
    · exact hroot _ text
    · obtain ⟨t, -, hnode⟩ := List.mem_flatMap.mp hnode
      exact ih t node hnode

/-- A keyword at a node is a word of the vocabulary.  A name has no blanks around it, and by its
form it is the name of a parameter or of a host type as the node says. -/
def IsWellNamed (vocabulary : List Text) : TypeExpr → Prop
  | .primitive keyword => keyword ∈ vocabulary
  | .parameter name => strip name = name ∧ NamesParameter name
  | .named name _ => strip name = name ∧ ¬NamesParameter name
  | _ => True

theorem isWellNamed_object : object.IsWellNamed vocabulary := ⟨by decide, by decide⟩

theorem isWellNamed_ofShape (read : Text → TypeExpr) (text : Text) :
    (ofShape read (shape vocabulary text)).IsWellNamed vocabulary := by
  unfold shape
  simp only
  split
  · exact isWellNamed_object
  · split
    · next hkeyword => exact hkeyword
    · split
      · exact trivial
      · -- a base decides between parameter and host type by the convention
        have hbase := strip_base_split (strip text)
        unfold shapeOfApplication
        split
        · next hparameter => exact ⟨hbase, Bool.or_eq_true_iff.mp hparameter⟩
        · next hparameter =>
          split
          · exact trivial
          · exact ⟨hbase, fun hname => hparameter (Bool.or_eq_true_iff.mpr hname)⟩

/-- **The nodes of a tree that is read are what their names say.** -/
theorem isWellNamed_of_mem_nodes_parse {text : Text} {node : TypeExpr}
    (h : node ∈ (parse vocabulary text).nodes) : node.IsWellNamed vocabulary :=
  forall_nodes_parseWithin (P := IsWellNamed vocabulary) isWellNamed_object isWellNamed_ofShape _
    text node h

/-! ## Vocabularies -/

/-- Beside a smaller vocabulary a larger one makes a difference at its own words only. -/
theorem shape_eq_or_primitive {words : List Text} (hwords : words ⊆ vocabulary) (text : Text) :
    shape vocabulary text = shape words text ∨
      ∃ keyword, shape vocabulary text = .primitive keyword := by
  unfold shape
  simp only
  by_cases hnil : strip text = []
  · rw [if_pos hnil, if_pos hnil]
    exact .inl rfl
  · rw [if_neg hnil, if_neg hnil]
    by_cases hkeyword : strip text ∈ vocabulary
    · rw [if_pos hkeyword]
      exact .inr ⟨_, rfl⟩
    · rw [if_neg hkeyword, if_neg fun hword => hkeyword (hwords hword)]
      exact .inl rfl

/-- A keyword stands for itself. -/
theorem strip_of_shape_eq_primitive {text keyword : Text}
    (h : shape vocabulary text = .primitive keyword) :
    strip text = keyword ∧ keyword ∈ vocabulary := by
  unfold shape at h
  simp only at h
  split at h
  · exact nomatch h
  · split at h
    · next hkeyword => exact ⟨Shape.primitive.inj h, Shape.primitive.inj h ▸ hkeyword⟩
    · split at h
      · exact nomatch h
      · unfold shapeOfApplication at h
        split at h
        · exact nomatch h
        · split at h
          · exact nomatch h
          · exact nomatch h

theorem ofShape_eq_parameter_iff {read : Text → TypeExpr} {s : Shape} {name : Text} :
    TypeExpr.parameter name = ofShape read s ↔ s = .parameter name := by
  cases s with
  | parameter other =>
    rw [ofShape, parameter.injEq, Shape.parameter.injEq]
    exact eq_comm
  | _ => simp [ofShape, object]

/-- **A larger vocabulary brings in no generic parameters.** -/
theorem parameterNames_parse_subset {words : List Text} (hwords : words ⊆ vocabulary)
    (text : Text) : (parse vocabulary text).parameterNames ⊆ (parse words text).parameterNames := by
  suffices h : ∀ levels text name, .parameter name ∈ (parseWithin vocabulary levels text).nodes →
      .parameter name ∈ (parseWithin words levels text).nodes from
    fun name hname => mem_parameterNames.mpr (h _ text name (mem_parameterNames.mp hname))
  intro levels
  induction levels with
  | zero => exact fun _ _ h => h
  | succ levels ih =>
    intro text name hname
    rw [parseWithin_succ, nodes_ofShape, List.mem_cons, ofShape_eq_parameter_iff,
      List.mem_flatMap] at hname ⊢
    rcases shape_eq_or_primitive hwords text with hshape | ⟨keyword, hshape⟩
    · rw [← hshape]
      refine hname.imp_right ?_
      rintro ⟨t, ht, hname⟩
      exact ⟨t, ht, ih t name hname⟩
    · rw [hshape] at hname
      rcases hname with hname | ⟨t, ht, -⟩
      · exact nomatch hname
      · exact absurd ht List.not_mem_nil

end TypeExpr
end HaxeBindings
