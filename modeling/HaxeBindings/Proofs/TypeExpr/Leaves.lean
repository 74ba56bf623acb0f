import HaxeBindings.Proofs.ArityIndex.Choice
import HaxeBindings.Proofs.TypeExpr.Unbounded
import HaxeBindings.Proofs.TypeExpr.Upgraded

/-!
# The names at the leaves

Only a name without arguments says nothing about how many it should have, so the index is
asked about the leaves of a tree: the host types without arguments and the generic
parameters.  This file says where the leaves of a tree that is read can come from.

* `leafNames_parseWithin_subset` --- a larger vocabulary and fewer levels bring in no leaf
  but the root object type;
* `mem_leafNames_markedText` --- the leaves of an instantiation are those of its slots,
  unless it has none and is a leaf itself;
* `forall_leafNames_upgradeText` --- so what holds of the leaves of a text and of those of
  the generic parameters around it holds of the leaves of the upgraded text.
-/

namespace HaxeBindings

open Text Schema

namespace TypeExpr

/-- The name of a node that has nothing below it and is not a keyword. -/
def leafName? : TypeExpr → Option Text
  | .named name [] => some name
  | .parameter name => some name
  | _ => none

/-- The names of the host types without arguments and of the generic parameters in an expression. -/
def leafNames (e : TypeExpr) : List Text := e.nodes.filterMap leafName?

/-- The name that is read at a leaf. -/
def Shape.leafName? : Shape → Option Text
  | .object => some objectName
  | .parameter name => some name
  | .named name [] => some name
  | _ => none

theorem leafName?_ofShape (read : Text → TypeExpr) (s : Shape) :
    (ofShape read s).leafName? = s.leafName? := by
  cases s with
  | named name arguments =>
    cases arguments with
    | nil => rfl
    | cons first others => rfl
  | _ => rfl

theorem mem_leafNames_of_mem_nodes {e node : TypeExpr} {name : Text} (h : node ∈ e.nodes)
    (hname : node.leafName? = some name) : name ∈ e.leafNames :=
  List.mem_filterMap.mpr ⟨node, h, hname⟩

theorem leafNames_object : object.leafNames = [objectName] := rfl

/-- A leaf of a tree that is read is its root or a leaf of a tree that is read below it. -/
theorem mem_leafNames_ofShape {read : Text → TypeExpr} {s : Shape} {name : Text} :
    name ∈ (ofShape read s).leafNames ↔
      s.leafName? = some name ∨ ∃ t ∈ s.below, name ∈ (read t).leafNames := by
  have hbelow : name ∈ (s.below.flatMap fun t => (read t).nodes).filterMap TypeExpr.leafName? ↔
      ∃ t ∈ s.below, name ∈ (read t).leafNames := by
    rw [List.filterMap_flatMap, List.mem_flatMap]
    rfl
  rw [leafNames, nodes_ofShape, List.filterMap_cons, leafName?_ofShape]
  cases s.leafName? with
  | none => simpa using hbelow
  | some other =>
    simp only [List.mem_cons, Option.some_inj, hbelow]
    rw [eq_comm]

theorem IsBare.mem_leafNames {levels : Nat} {name : Text} {e : TypeExpr}
    (h : IsBare levels name e) : name ∈ e.leafNames := by
  rcases h.eq_arrays with rfl | ⟨rfl, -⟩
  · exact mem_leafNames_of_mem_nodes (mem_nodes_arrays levels _) rfl
  · exact mem_leafNames_of_mem_nodes (mem_nodes_arrays levels _) rfl

variable {words vocabulary : List Text}

/-- **A larger vocabulary and fewer levels bring in no leaf but the root object type.** -/
theorem leafNames_parseWithin_subset (hwords : words ⊆ vocabulary) {levels levels' : Nat}
    (hle : levels ≤ levels') (text : Text) :
    (parseWithin vocabulary levels text).leafNames ⊆
      objectName :: (parseWithin words levels' text).leafNames := by
  induction levels generalizing levels' text with
  | zero => exact List.cons_subset_cons objectName (List.nil_subset _)
  | succ levels ih =>
    obtain ⟨left, rfl⟩ := Nat.exists_eq_add_of_le hle
    intro name hname
    rw [Nat.add_right_comm]
    rw [parseWithin_succ, mem_leafNames_ofShape] at hname
    rw [List.mem_cons, parseWithin_succ, mem_leafNames_ofShape]
    rcases shape_eq_or_primitive hwords text with hshape | ⟨keyword, hshape⟩
    · rw [hshape] at hname
      rcases hname with hname | ⟨t, ht, hname⟩
      · exact .inr (.inl hname)
      · rcases List.mem_cons.mp (ih (Nat.le_add_right levels left) t hname) with hname | hname
        · exact .inl hname
        · exact .inr (.inr ⟨t, ht, hname⟩)
    · rw [hshape] at hname
      rcases hname with hname | ⟨t, ht, -⟩
      · exact nomatch hname
      · exact absurd ht List.not_mem_nil

/-- A keyword is no leaf. -/
theorem leafNames_parseWithin_keyword {keyword : Text} (hname : IsName keyword)
    (hkeyword : keyword ∈ vocabulary) (levels : Nat) :
    (parseWithin vocabulary levels keyword).leafNames ⊆ [objectName] := by
  cases levels with
  | zero => exact List.Subset.refl _
  | succ levels =>
    rw [parseWithin_succ, shape_keyword hname hkeyword]
    exact List.nil_subset _

theorem leafNames_parseWithin_objectName (hobject : objectName ∉ vocabulary) (levels : Nat) :
    (parseWithin vocabulary levels objectName).leafNames = [objectName] := by
  cases levels with
  | zero => rfl
  | succ levels =>
    rw [parseWithin_succ, shape_bare (by decide) (by decide) hobject]
    rfl

theorem parseWithin_strip (levels : Nat) (text : Text) :
    parseWithin vocabulary levels (strip text) = parseWithin vocabulary levels text := by
  cases levels with
  | zero => rfl
  | succ levels => rw [parseWithin_succ, parseWithin_succ, shape_strip]

/-! ## Instantiations -/

/-- The arguments that are cut from joined slots are slots, without the blanks around them. -/
theorem mem_argumentsOf_join {slots : List Text} (hne : slots ≠ [])
    (hunsplit : ∀ s ∈ slots, Unsplit 0 s) (hdepth : ∀ s ∈ slots, depth s = 0) {t : Text}
    (h : t ∈ argumentsOf (join [','] slots)) : ∃ s ∈ slots, strip s = t := by
  have hmem := mem_of_mem_dropEmptyLast h
  rw [segments_join hne hunsplit hdepth] at hmem
  exact List.mem_map.mp hmem

/-- **The leaves of an instantiation** are those of its slots, unless it has none and is a leaf
itself. -/
theorem mem_leafNames_markedText (hwords : ∀ word ∈ vocabulary, arityMark ∉ word)
    (hobject : objectName ∉ vocabulary) {base : Text} (htrim : strip base = base)
    (hopen : '<' ∉ base) (arity : Int) {slots : List Text} (hne : slots ≠ [])
    (hunsplit : ∀ s ∈ slots, Unsplit 0 s) (hdepth : ∀ s ∈ slots, depth s = 0) {levels : Nat}
    {name : Text}
    (h : name ∈ (parseWithin vocabulary levels
      (markedText base arity (join [','] slots))).leafNames) :
    name = objectName ∨ name = markArity base arity ∨
      ∃ s ∈ slots, ∃ below ≤ levels, name ∈ (parseWithin vocabulary below s).leafNames := by
  cases levels with
  | zero => exact .inl (List.mem_singleton.mp h)
  | succ levels =>
    -- a text that is read below the root is one of the slots
    have hslot {t : Text} (ht : t ∈ argumentsOf (join [','] slots))
        (hname : name ∈ (parseWithin vocabulary levels t).leafNames) :
        ∃ s ∈ slots, ∃ below ≤ levels + 1,
          name ∈ (parseWithin vocabulary below s).leafNames := by
      obtain ⟨s, hs, rfl⟩ := mem_argumentsOf_join hne hunsplit hdepth ht
      rw [parseWithin_strip] at hname
      exact ⟨s, hs, levels, Nat.le_succ levels, hname⟩
    rw [parseWithin_succ, shape_markedText hwords htrim hopen, mem_leafNames_ofShape] at h
    split at h
    · rcases h with h | ⟨t, ht, hname⟩
      · exact nomatch h
      · rw [List.mem_singleton.mp ht] at hname
        cases harguments : argumentsOf (join [','] slots) with
        | nil =>
          rw [harguments, List.headD_nil, leafNames_parseWithin_objectName hobject] at hname
          exact .inl (List.mem_singleton.mp hname)
        | cons first others =>
          have hfirst : first ∈ argumentsOf (join [','] slots) := harguments ▸ List.mem_cons_self
          rw [harguments, List.headD_cons] at hname
          exact .inr (.inr (hslot hfirst hname))
    · rcases h with h | ⟨t, ht, hname⟩
      · cases harguments : argumentsOf (join [','] slots) with
        | nil =>
          rw [harguments] at h
          exact .inr (.inl (Option.some_inj.mp h).symm)
        | cons first others =>
          rw [harguments] at h
          exact nomatch h
      · exact .inr (.inr (hslot ht hname))

theorem leafNames_arrays (levels : Nat) (e : TypeExpr) :
    (arrays levels e).leafNames = e.leafNames := by
  induction levels with
  | zero => rfl
  | succ levels ih => exact ih

/-! ## Upgraded texts -/

/-- **Where the leaves of an upgraded text come from.**  What holds of the root object type, of the
leaves of a text and of those of the generic parameters around it, and of a marked name when it
holds of the name, holds of the leaves of the upgraded text.  The generic parameters are such that
none of them is cut. -/
theorem forall_leafNames_upgradeText {P : Text → Prop} {index : ArityIndex} {generics : List Text}
    {placeholder text : Text} (hvocabulary : ∀ k ∈ vocabulary, IsName k)
    (hwords : ∀ k ∈ vocabulary, arityMark ∉ k) (hobject : objectName ∉ vocabulary)
    (hplaceholder : placeholder ∈ vocabulary)
    (hknown : ∀ base, index.knows base = true → '<' ∉ base)
    (hpositive : ∀ base, ∀ a ∈ index.arities base, 0 < a)
    (hplain : ∀ g ∈ generics, '<' ∉ g ∧ '>' ∉ g ∧ ',' ∉ g)
    (hP : P objectName) (hmarked : ∀ base arity, P base → P (markArity base arity))
    (htext : ∀ name ∈ (parse [] text).leafNames, P name)
    (hgenerics : ∀ g ∈ generics, ∀ name ∈ (parse [] g).leafNames, P name) :
    ∀ name ∈ (parse vocabulary (upgradeText index generics placeholder text)).leafNames,
      P name := by
  have hread {t : Text} (ht : ∀ name ∈ (parse [] t).leafNames, P name) {words : List Text}
      {levels : Nat} (hle : levels ≤ maxDepth + 1) :
      ∀ name ∈ (parseWithin words levels t).leafNames, P name := by
    intro name hname
    rcases List.mem_cons.mp
      (leafNames_parseWithin_subset (List.nil_subset words) hle t hname) with rfl | hname
    · exact hP
    · exact ht name hname
  cases hupgrade : upgrade? index generics placeholder (parse [placeholder] text) with
  | none =>
    rw [upgradeText_of_none hupgrade, parse_strip]
    exact hread htext (Nat.le_refl _)
  | some e =>
    obtain ⟨levels, base, arity, hbare, harity, -⟩ := exists_isBare_of_upgrade? hupgrade
    have hmem := ArityIndex.mem_of_chooseArity? harity
    obtain ⟨arity, rfl⟩ := Int.eq_ofNat_of_zero_le (Int.le_of_lt (hpositive base arity hmem))
    have hpos : 0 < arity := Int.natCast_pos.mp (hpositive base arity hmem)
    by_cases hne : strip text = []
    · rw [upgradeText_of_blank hne, parse_nil, leafNames_object]
      exact List.forall_mem_singleton.mpr hP
    · have hslot {s : Text} (hs : s ∈ slotTexts generics placeholder arity) :
          '<' ∉ s ∧ '>' ∉ s ∧ ',' ∉ s := by
        rcases mem_slotTexts hs with hs | rfl
        · exact hplain s hs
        · have hname := hvocabulary s hplaceholder
          exact ⟨hname.no_open, hname.no_close, hname.no_comma⟩
      have hslots : slotTexts generics placeholder arity ≠ [] := by
        rw [← List.length_pos_iff, length_slotTexts]
        exact hpos
      obtain ⟨htrim, -⟩ := hbare.of_parseWithin
      obtain ⟨hlevels, -⟩ := hbare.le_of_parseWithin
      obtain ⟨left, hleft⟩ := Nat.exists_eq_add_of_le hlevels
      rw [upgradeText_of_isBare hne hbare hpos harity, parse, hleft,
        parseWithin_append_arrayMarks hwords (strip_markedText htrim arity _)
          (mark_mem_markedText base arity _), leafNames_arrays]
      intro name hname
      rcases mem_leafNames_markedText hwords hobject htrim
        (hknown base (ArityIndex.knows_of_mem hmem)) arity hslots
        (fun s hs => unsplit_of_no_comma (hslot hs).2.2)
        (fun s hs => depth_eq_zero (hslot hs).1 (hslot hs).2.1) hname with
        rfl | rfl | ⟨s, hs, below, hbelow, hleaf⟩
      · exact hP
      · exact hmarked base arity (hread htext (Nat.le_refl _) base hbare.mem_leafNames)
      · rcases mem_slotTexts hs with hs | rfl
        · exact hread (hgenerics s hs) (by omega) name hleaf
        · have hkeyword := leafNames_parseWithin_keyword (hvocabulary s hplaceholder) hplaceholder
            below hleaf
          rw [List.mem_singleton.mp hkeyword]
          exact hP

end TypeExpr
end HaxeBindings
