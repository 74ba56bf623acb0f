import HaxeBindings.Package
import HaxeBindings.Proofs.Text.Characters
import HaxeBindings.Schema.Name

/-!
# Packages of namespaces

A namespace at or below the root namespace is a list of segments behind it, and its
package is the list of the lowered segments behind the root package.

* `nameOfReference_of_isHome` --- a member refers to a type by the package that the type
  is generated in;
* `nameOfReference_eq_some`, `HasSegments.name_ofType` --- the package of a namespace,
  segment by segment;
* `name_ofType` --- a package is read off its directory, as long as no segment is empty or
  holds a slash.
-/

namespace HaxeBindings

open Text Schema

namespace Package

/-- Namespaces whose types members can refer to: none, the root, and those below the root. -/
def IsHome (o : Options) (ns : Text) : Prop :=
  ns = [] ∨ ns = o.rootNamespace ∨ ∃ rest, ns = o.rootNamespace ++ '.' :: rest

variable {o : Options}

theorem segmentsBelow?_append (rest : Text) :
    segmentsBelow? o (o.rootNamespace ++ '.' :: rest) = some ((pieces '.' rest).map lower) := by
  have hns : o.rootNamespace ++ '.' :: rest = o.rootNamespace ++ ['.'] ++ rest := by simp
  unfold segmentsBelow?
  simp only
  rw [hns, if_pos (List.isPrefixOf_iff_prefix.mpr (List.prefix_append _ rest)), List.drop_left]

theorem ofNamespace?_append (rest : Text) :
    ofNamespace? o (o.rootNamespace ++ '.' :: rest) =
      some (below o ((pieces '.' rest).map lower)) := by
  rw [ofNamespace?, if_neg (by simp), segmentsBelow?_append, Option.map_some]

theorem ofType_append (rest : Text) :
    ofType o (o.rootNamespace ++ '.' :: rest) = below o ((pieces '.' rest).map lower) := by
  rw [ofType, ofNamespace?_append, Option.getD_some]

theorem ofType_root : ofType o o.rootNamespace = root o := by
  rw [ofType, ofNamespace?_root, Option.getD_some]

theorem ofType_nil (hroot : o.rootNamespace ≠ []) : ofType o [] = root o := by
  have hprefix : (o.rootNamespace ++ ['.']).isPrefixOf [] = false := by
    rw [Bool.eq_false_iff, ne_eq, List.isPrefixOf_iff_prefix, List.prefix_nil]
    exact List.concat_ne_nil _ _
  unfold ofType ofNamespace? segmentsBelow?
  simp [hroot.symm, hprefix]

/-- **A type is referred to by the package it is generated in.** -/
theorem nameOfReference_of_isHome (hroot : o.rootNamespace ≠ []) {ns : Text} (h : IsHome o ns) :
    nameOfReference o ns = some (ofType o ns).name := by
  rcases h with rfl | rfl | ⟨rest, rfl⟩
  · rw [nameOfReference_nil, ofType_nil hroot, root]
  · have hne : ¬o.rootNamespace.isEmpty = true := fun h => hroot (List.isEmpty_iff.mp h)
    rw [nameOfReference, if_neg hne, ofType_root, ofNamespace?_root, Option.map_some]
  · have hne : ¬(o.rootNamespace ++ '.' :: rest).isEmpty = true := by simp
    rw [nameOfReference, if_neg hne, ofType_append, ofNamespace?_append, Option.map_some]

/-- A type below a namespace lives in that namespace or below it. -/
theorem isHome_namespaceOf (rest : Text) :
    IsHome o (namespaceOf (o.rootNamespace ++ '.' :: rest)) := by
  by_cases hdot : '.' ∈ rest
  · obtain ⟨front, last, rfl, hlast⟩ := exists_last_of_mem hdot
    have hname : o.rootNamespace ++ '.' :: (front ++ '.' :: last) =
        (o.rootNamespace ++ '.' :: front) ++ '.' :: last := by simp
    rw [hname, namespaceOf_append_cons hlast]
    exact .inr (.inr ⟨front, rfl⟩)
  · rw [namespaceOf_append_cons hdot]
    exact .inr (.inl rfl)

/-- With the default options the namespace of the host itself is foreign. -/
theorem IsHome.ne_system {ns : Text} (h : IsHome {} ns) : ns ≠ "System".toList := by
  rcases h with rfl | rfl | ⟨rest, rfl⟩
  · decide
  · decide
  · intro heq
    have hsecond : some 'a' = some 'y' := congrArg (fun t : Text => t[1]?) heq
    exact absurd hsecond (by decide)

/-! ## Segments -/

/-- The segments of a namespace behind the root namespace.  A type without a namespace has none. -/
structure HasSegments (o : Options) (ns : Text) (segments : List Text) : Prop where
  no_dot : ∀ s ∈ segments, '.' ∉ s
  eq : ns = [] ∧ segments = [] ∨ ns = o.rootNamespace ++ segments.flatMap ('.' :: ·)

/-- The name of the package with the given segments: the root package, and behind it the segments in
lower case. -/
def nameOf (o : Options) (segments : List Text) : Text :=
  o.rootPackageText ++ segments.flatMap fun s => '.' :: lower s

@[simp] theorem nameOf_nil : nameOf o [] = o.rootPackageText := List.append_nil _

/-- The segments of a namespace hold its characters. -/
theorem HasSegments.mem {ns : Text} {segments : List Text} (h : HasSegments o ns segments)
    {segment : Text} (hsegment : segment ∈ segments) {c : Char} (hc : c ∈ segment) : c ∈ ns := by
  rcases h.eq with ⟨-, rfl⟩ | heq
  · exact absurd hsegment List.not_mem_nil
  · rw [heq]
    exact List.mem_append_right _
      (List.mem_flatMap.mpr ⟨segment, hsegment, List.mem_cons_of_mem '.' hc⟩)

theorem HasSegments.isHome {ns : Text} {segments : List Text} (h : HasSegments o ns segments) :
    IsHome o ns := by
  rcases h.eq with ⟨hnil, -⟩ | heq
  · exact .inl hnil
  · cases segments with
    | nil => exact .inr (.inl (by rw [heq, List.flatMap_nil, List.append_nil]))
    | cons first others => exact .inr (.inr ⟨_, heq⟩)

/-- What stands in front of the last component of a name is its namespace. -/
theorem hasSegments_namespaceOf (hroot : '.' ∉ o.rootNamespace) {components : List Text}
    (h : ∀ c ∈ components, '.' ∉ c) :
    HasSegments o (namespaceOf (o.rootNamespace ++ components.flatMap ('.' :: ·)))
      components.dropLast := by
  rcases List.eq_nil_or_concat' components with rfl | ⟨front, last, rfl⟩
  · refine ⟨fun s hs => absurd hs List.not_mem_nil, .inl ⟨?_, rfl⟩⟩
    rw [List.flatMap_nil, List.append_nil, namespaceOf, beforeLast,
      List.dropWhile_eq_nil_iff.mpr fun _ => bne_of_mem_reverse hroot]
    rfl
  · rw [List.forall_mem_append, List.forall_mem_singleton] at h
    rw [List.dropLast_concat]
    refine ⟨h.1, .inr ?_⟩
    rw [List.flatMap_append, List.flatMap_singleton, ← List.append_assoc, namespaceOf_append_cons h.2]

/-- The characters of a package are those of the root package and of its segments, dots, and letters
that came from lowering. -/
theorem mem_nameOf {segments : List Text} {c : Char} (h : c ∈ nameOf o segments) :
    c ∈ o.rootPackageText ∨ c = '.' ∨ (∃ s ∈ segments, c ∈ s) ∨ IsLowered c := by
  rcases List.mem_append.mp h with h | h
  · exact .inl h
  · obtain ⟨s, hs, h⟩ := List.mem_flatMap.mp h
    rcases List.mem_cons.mp h with h | h
    · exact .inr (.inl h)
    · rcases mem_lower h with h | h
      · exact .inr (.inr (.inl ⟨s, hs, h⟩))
      · exact .inr (.inr (.inr h))

theorem name_below (segments : List Text) :
    (below o (segments.map lower)).name = nameOf o segments := by
  rw [below, nameOf, join_cons, List.flatMap_map]

/-- **The package of a namespace is the root package with the lowered segments behind it.** -/
theorem nameOfReference_eq_some {ns package : Text} (h : nameOfReference o ns = some package) :
    ∃ segments, HasSegments o ns segments ∧ package = nameOf o segments := by
  unfold nameOfReference at h
  split at h
  · next hnil =>
    refine ⟨[], ⟨by simp, .inl ⟨List.isEmpty_iff.mp hnil, rfl⟩⟩, ?_⟩
    rw [← Option.some_inj.mp h, nameOf_nil]
  · obtain ⟨p, hp, rfl⟩ := Option.map_eq_some_iff.mp h
    unfold ofNamespace? at hp
    split at hp
    · next hroot =>
      refine ⟨[], ⟨by simp, .inr ?_⟩, ?_⟩
      · rw [hroot, List.flatMap_nil, List.append_nil]
      · rw [← Option.some_inj.mp hp, nameOf_nil]
        rfl
    · obtain ⟨lowered, hlowered, rfl⟩ := Option.map_eq_some_iff.mp hp
      unfold segmentsBelow? at hlowered
      simp only at hlowered
      split at hlowered
      · next hprefix =>
        obtain ⟨rest, rfl⟩ := List.isPrefixOf_iff_prefix.mp hprefix
        rw [List.drop_left] at hlowered
        obtain ⟨first, others, hpieces, hrest⟩ := exists_pieces '.' rest
        rw [← Option.some_inj.mp hlowered, hpieces]
        refine ⟨first :: others, ⟨fun s hs => ?_, .inr ?_⟩, name_below _⟩
        · exact not_mem_of_mem_pieces (hpieces ▸ hs)
        · rw [hrest, List.append_assoc, List.flatMap_cons]
          rfl
      · exact nomatch hlowered

theorem HasSegments.name_ofType (hroot : o.rootNamespace ≠ []) {ns : Text} {segments : List Text}
    (h : HasSegments o ns segments) :
    (ofType o ns).name = nameOf o segments := by
  have hnone : (root o).name = nameOf o [] := nameOf_nil.symm
  rcases h.eq with ⟨rfl, rfl⟩ | heq
  · rw [ofType_nil hroot, hnone]
  · cases segments with
    | nil =>
      rw [List.flatMap_nil, List.append_nil] at heq
      rw [heq, ofType_root, hnone]
    | cons first others =>
      obtain ⟨hfirst, hothers⟩ := List.forall_mem_cons.mp h.no_dot
      rw [List.flatMap_cons, List.cons_append] at heq
      rw [heq, ofType_append, pieces_append_flatMap hfirst hothers, name_below]

/-! ## Directories -/

theorem replaceChar_join {old new : Char} {ts : List Text} (h : ∀ t ∈ ts, old ∉ t) :
    replaceChar old new (join [old] ts) = join [new] ts := by
  have hself {t : Text} (ht : old ∉ t) : replaceChar old new t = t := by
    conv_rhs => rw [← List.map_id t]
    refine List.map_congr_left fun c hc => if_neg ?_
    rintro rfl
    exact ht hc
  induction ts with
  | nil => rfl
  | cons t ts ih =>
    have ht := h t List.mem_cons_self
    cases ts with
    | nil => rw [join, join, List.intercalate_singleton, List.intercalate_singleton, hself ht]
    | cons u ts =>
      have hrest := ih fun v hv => h v (List.mem_cons_of_mem t hv)
      rw [join, join, List.intercalate_cons_cons, List.intercalate_cons_cons, ← join, ← join,
        replaceChar, List.map_append, List.map_append]
      refine congrArg₂ (· ++ ·) (congrArg₂ (· ++ ·) (hself ht) ?_) hrest
      simp

theorem join_ne_nil {separator first : Text} {others : List Text} (h : first ≠ []) :
    join separator (first :: others) ≠ [] := by
  cases others with
  | nil => rwa [join, List.intercalate_singleton]
  | cons second others =>
    rw [join, List.intercalate_cons_cons, List.append_assoc]
    exact List.append_ne_nil_of_left_ne_nil h _

/-- The name of a package below the root package, read off its directory. -/
theorem name_below_of_directory {segments : List Text} (hne : segments ≠ [])
    (h : ∀ segment ∈ segments, '/' ∉ segment) :
    (below o segments).name =
      o.rootPackageText ++ '.' :: replaceChar '/' '.' (below o segments).directory := by
  obtain ⟨first, others, rfl⟩ := List.exists_cons_of_ne_nil hne
  rw [below, replaceChar_join h, join, List.intercalate_cons_cons, List.append_assoc]
  rfl

/-- A package is read off its directory when the segments of the namespace are not empty and hold
no slash. -/
theorem name_ofType (hroot : o.rootNamespace ≠ []) {ns : Text} (h : IsHome o ns)
    (hsegments : ∀ rest, ns = o.rootNamespace ++ '.' :: rest →
      ∀ segment ∈ pieces '.' rest, segment ≠ [] ∧ '/' ∉ segment) :
    (ofType o ns).name = if (ofType o ns).directory = [] then o.rootPackageText
      else o.rootPackageText ++ '.' :: replaceChar '/' '.' (ofType o ns).directory := by
  rcases h with rfl | rfl | ⟨rest, rfl⟩
  · rw [ofType_nil hroot, root, if_pos rfl]
  · rw [ofType_root, root, if_pos rfl]
  · have hlowered : ∀ segment ∈ (pieces '.' rest).map lower, segment ≠ [] ∧ '/' ∉ segment := by
      intro segment hsegment
      obtain ⟨piece, hpiece, rfl⟩ := List.mem_map.mp hsegment
      obtain ⟨hne, hslash⟩ := hsegments rest rfl piece hpiece
      refine ⟨lower_ne_nil hne, fun hmem => ?_⟩
      rcases mem_lower hmem with hmem | hlower
      · exact hslash hmem
      · exact absurd hlower (by decide)
    have hne : (pieces '.' rest).map lower ≠ [] := by simpa using pieces_ne_nil '.' rest
    obtain ⟨first, others, hcons⟩ := List.exists_cons_of_ne_nil hne
    have hdirectory : (below o ((pieces '.' rest).map lower)).directory ≠ [] := by
      rw [hcons, below]
      exact join_ne_nil (hlowered first (hcons ▸ List.mem_cons_self)).1
    rw [ofType_append, if_neg hdirectory, name_below_of_directory hne fun s hs => (hlowered s hs).2]

end Package
end HaxeBindings
