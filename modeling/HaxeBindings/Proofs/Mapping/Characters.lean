import HaxeBindings.Proofs.Mapping.Shape
import HaxeBindings.Proofs.Schema.Separators
import HaxeBindings.Proofs.TypeExpr.Leaves

/-!
# The characters of mapped types

What a schema string is mapped to, and what it is upgraded to, is written with characters of the
string and with others that do not hang on it (`IsTypeChar`): those of identifiers, letters that
came from lowering, and the punctuation of type strings.  The schema string may be malformed in any
way, so none of these can be kept out of it.

Let `ok` be a class of characters that has all of these.

* `TypeExpr.ok_of_mem_shape` --- what is read at the root of a text, and below it, is in the class
  when the text is;
* `Mapping.ok_of_mem_map` --- and so is what the text is mapped to;
* `TypeExpr.ok_of_mem_upgradeText` --- and what it is upgraded to, when the generic parameters
  around it and the placeholder are in the class.
-/

namespace HaxeBindings

open Text Schema Name

/-- The characters that come in when types are upgraded and mapped. -/
def IsTypeChar (c : Char) : Prop :=
  isIdentifierChar c = true ∨ IsLowered c ∨ c ∈ [arityMark, '-', '.', ',', '<', '>', '[', ']']

instance (c : Char) : Decidable (IsTypeChar c) := inferInstanceAs (Decidable (_ ∨ _ ∨ _))

/-! ## Taking a type string apart -/

namespace Schema

theorem mem_of_mem_base {text : Text} {c : Char} (h : c ∈ (split text).base) : c ∈ text := by
  cases hbracketed : isBracketed (strip text) with
  | false =>
    rw [split_of_not_bracketed hbracketed] at h
    exact mem_of_mem_strip h
  | true =>
    rw [split_of_bracketed hbracketed] at h
    exact mem_of_mem_strip ((List.takeWhile_sublist _).subset (mem_of_mem_strip h))

theorem mem_of_mem_segments {d : Int} {t s : Text} (hs : s ∈ segments d t) {c : Char} (hc : c ∈ s) :
    c ∈ t := by
  obtain ⟨first, others, hsegments⟩ := List.exists_cons_of_ne_nil (segments_ne_nil d t)
  rw [← join_segments d t]
  rw [hsegments] at hs ⊢
  rw [join_cons, List.mem_append, List.mem_flatMap]
  rcases List.mem_cons.mp hs with rfl | hs
  · exact .inl hc
  · exact .inr ⟨s, hs, List.mem_cons_of_mem _ hc⟩

theorem mem_of_mem_arguments {text a : Text} (ha : a ∈ (split text).arguments) {c : Char}
    (hc : c ∈ a) : c ∈ text := by
  cases hbracketed : isBracketed (strip text) with
  | false =>
    rw [split_of_not_bracketed hbracketed] at ha
    exact absurd ha List.not_mem_nil
  | true =>
    rw [split_of_bracketed hbracketed] at ha
    obtain ⟨s, hs, rfl⟩ := List.mem_map.mp (mem_of_mem_dropEmptyLast ha)
    have hinner : c ∈ afterFirst '<' (strip text) :=
      (List.dropLast_sublist _).subset (mem_of_mem_segments hs (mem_of_mem_strip hc))
    exact mem_of_mem_strip
      ((List.dropWhile_sublist _).subset ((List.drop_sublist 1 _).subset hinner))

end Schema

section

variable {ok : Char → Prop}

/-! ## Reading -/

namespace TypeExpr

variable {vocabulary : List Text} {text : Text}

/-- The name that is read at the root. -/
def Shape.name? : Shape → Option Text
  | .object => some objectName
  | .primitive keyword => some keyword
  | .parameter name => some name
  | .named name _ => some name
  | _ => none

theorem ok_of_mem_objectName (hok : ∀ c, IsTypeChar c → ok c) : ∀ c ∈ objectName, ok c := by
  have hchars : ∀ c ∈ objectName, IsTypeChar c := forall_mem_of_all (by decide)
  exact fun c hc => hok c (hchars c hc)

/-- **What is read from a text** is in the class of its characters. -/
theorem ok_of_mem_shape (hok : ∀ c, IsTypeChar c → ok c) (htext : ∀ c ∈ text, ok c) {t : Text}
    (h : (shape vocabulary text).name? = some t ∨ t ∈ (shape vocabulary text).below) :
    ∀ c ∈ t, ok c := by
  have hobject := ok_of_mem_objectName hok
  have hstrip : ∀ c ∈ strip text, ok c := fun c hc => htext c (mem_of_mem_strip hc)
  have hbase : ∀ c ∈ (split (strip text)).base, ok c := fun c hc => hstrip c (mem_of_mem_base hc)
  have harguments : ∀ a ∈ (split (strip text)).arguments, ∀ c ∈ a, ok c :=
    fun a ha c hc => hstrip c (mem_of_mem_arguments ha hc)
  unfold shape at h
  simp only at h
  split at h
  · rcases h with h | h
    · exact Option.some_inj.mp h ▸ hobject
    · exact absurd h List.not_mem_nil
  · split at h
    · rcases h with h | h
      · exact Option.some_inj.mp h ▸ hstrip
      · exact absurd h List.not_mem_nil
    · split at h
      · rcases h with h | h
        · exact nomatch h
        · rw [List.mem_singleton.mp h]
          exact fun c hc => hstrip c (List.mem_of_mem_take hc)
      · unfold shapeOfApplication at h
        split at h
        · rcases h with h | h
          · exact Option.some_inj.mp h ▸ hbase
          · exact absurd h List.not_mem_nil
        · split at h
          · rcases h with h | h
            · exact nomatch h
            · rw [List.mem_singleton.mp h]
              cases hcase : (split (strip text)).arguments with
              | nil => exact hobject
              | cons first others => exact harguments first (hcase ▸ List.mem_cons_self)
          · rcases h with h | h
            · exact Option.some_inj.mp h ▸ hbase
            · exact harguments t h

/-- The leaves of a tree that is read are in the class of the text. -/
theorem ok_of_mem_leafNames (hok : ∀ c, IsTypeChar c → ok c) (levels : Nat)
    (htext : ∀ c ∈ text, ok c) {name : Text}
    (h : name ∈ (parseWithin vocabulary levels text).leafNames) : ∀ c ∈ name, ok c := by
  induction levels generalizing text with
  | zero => exact List.mem_singleton.mp h ▸ ok_of_mem_objectName hok
  | succ levels ih =>
    rw [parseWithin_succ, mem_leafNames_ofShape] at h
    rcases h with h | ⟨t, ht, h⟩
    · -- what is read at a leaf is the name at the root
      have hname : (shape vocabulary text).name? = some name := by
        rw [← h]
        cases hshape : shape vocabulary text with
        | named other arguments =>
          cases arguments with
          | nil => rfl
          | cons first others =>
            rw [hshape] at h
            exact nomatch h
        | primitive keyword =>
          rw [hshape] at h
          exact nomatch h
        | _ => rfl
      exact ok_of_mem_shape hok htext (.inl hname)
    · exact ih (ok_of_mem_shape hok htext (.inr ht)) h

end TypeExpr

/-! ## Mapping -/

namespace Mapping

variable {index : ArityIndex} {name u : Text}

theorem ok_of_mem_vocabulary (hok : ∀ c, IsTypeChar c → ok c) {word : Text}
    (h : word ∈ ({} : Options).vocabulary) : ∀ c ∈ word, ok c := by
  have hwords : ∀ k ∈ ({} : Options).vocabulary, k.all (decide <| IsTypeChar ·) = true := by decide
  have hchars : ∀ c ∈ word, IsTypeChar c := forall_mem_of_all (hwords word h)
  exact fun c hc => hok c (hchars c hc)

theorem ok_of_mem_applied (hok : ∀ c, IsTypeChar c → ok c) {base : Text} {ts : List Text}
    (hbase : ∀ c ∈ base, ok c) (hts : ∀ t ∈ ts, ∀ c ∈ t, ok c) : ∀ c ∈ applied base ts, ok c := by
  intro c hc
  rw [applied, List.mem_append, List.mem_append, List.mem_cons, List.mem_singleton] at hc
  rcases hc with (hc | rfl | hc) | rfl
  · exact hbase c hc
  · exact hok _ (by decide)
  · rcases mem_join hc with hc | ⟨t, ht, hc⟩
    · rw [List.mem_singleton.mp hc]
      exact hok _ (by decide)
    · exact hts t ht c hc
  · exact hok _ (by decide)

theorem ok_of_mem_wrapped (hok : ∀ c, IsTypeChar c → ok c) {word t : Text}
    (hword : ∀ c ∈ word, IsTypeChar c) (ht : ∀ c ∈ t, ok c) : ∀ c ∈ applied word [t], ok c :=
  ok_of_mem_applied hok (fun c hc => hok c (hword c hc)) (List.forall_mem_singleton.mpr ht)

theorem ok_of_mem_userType (hok : ∀ c, IsTypeChar c → ok c) (hname : ∀ c ∈ name, ok c)
    (h : (⟨index, {}⟩ : Mapping).userType name = .ok u) : ∀ c ∈ u, ok c := by
  rcases userType_eq_ok h with ⟨-, rfl⟩ | ⟨package, identifier, hpackage, hidentifier, rfl⟩
  · exact ok_of_mem_vocabulary hok List.mem_cons_self
  · have hroot : ∀ c ∈ ({} : Options).rootPackageText, IsTypeChar c := forall_mem_of_all (by decide)
    have hdefault : ∀ c ∈ ({} : Options).defaultTypeName, isIdentifierChar c = true :=
      forall_mem_of_all (by decide)
    obtain ⟨segments, hsegments, rfl⟩ := Package.nameOfReference_eq_some hpackage
    obtain ⟨-, hchars⟩ := isIdentifierChar_of_typeIdentifier? hdefault hidentifier
    intro c hc
    rw [List.mem_append, List.mem_cons] at hc
    rcases hc with hc | rfl | hc
    · rcases Package.mem_nameOf hc with hc | rfl | ⟨segment, hsegment, hc⟩ | hc
      · exact hok c (hroot c hc)
      · exact hok _ (by decide)
      · exact hname c (mem_of_mem_namespaceOf (hsegments.mem hsegment hc))
      · exact hok c (.inr (.inl hc))
    · exact hok _ (by decide)
    · exact hok c (.inl (hchars c hc))

theorem ok_of_mem_named (hok : ∀ c, IsTypeChar c → ok c) (hname : ∀ c ∈ name, ok c)
    {arguments : List TypeExpr}
    (harguments : ∀ a ∈ arguments, ∀ t, (⟨index, {}⟩ : Mapping).mapExpr a = .ok t → ∀ c ∈ t, ok c)
    (h : (⟨index, {}⟩ : Mapping).mapExpr (.named name arguments) = .ok u) : ∀ c ∈ u, ok c := by
  rcases mapExpr_named_eq_ok h with hcore | ⟨-, base, hbase, hu⟩
  · exact ok_of_mem_vocabulary hok (mem_vocabulary_of_coreType? hcore)
  · have hchars := ok_of_mem_userType hok hname hbase
    rcases hu with rfl | ⟨-, ts, -, rfl, hmem⟩
    · exact hchars
    · refine ok_of_mem_applied hok hchars fun t ht => ?_
      rcases hmem t ht with rfl | ⟨a, ha, hat⟩
      · exact ok_of_mem_vocabulary hok List.mem_cons_self
      · exact harguments a ha t hat

/-- What a tree that is read is mapped to, by the levels of the reader. -/
theorem ok_of_mem_mapExpr (hok : ∀ c, IsTypeChar c → ok c) {vocabulary : List Text} (levels : Nat)
    {text : Text} (htext : ∀ c ∈ text, ok c)
    (h : (⟨index, {}⟩ : Mapping).mapExpr (TypeExpr.parseWithin vocabulary levels text) = .ok u) :
    ∀ c ∈ u, ok c := by
  have hobject {u : Text} (h : (⟨index, {}⟩ : Mapping).mapExpr TypeExpr.object = .ok u) :
      ∀ c ∈ u, ok c :=
    ok_of_mem_named hok (TypeExpr.ok_of_mem_objectName hok)
      (fun a ha => absurd ha List.not_mem_nil) h
  induction levels generalizing text u with
  | zero => exact hobject h
  | succ levels ih =>
    have hread := @TypeExpr.ok_of_mem_shape ok vocabulary text hok htext
    rw [TypeExpr.parseWithin_succ] at h
    cases hshape : TypeExpr.shape vocabulary text with
    | object =>
      rw [hshape] at h
      exact hobject h
    | primitive keyword =>
      rw [hshape, TypeExpr.ofShape, mapExpr] at h
      rw [← Except.ok.inj h]
      exact hread (.inl (by rw [hshape]; rfl))
    | array element =>
      rw [hshape, TypeExpr.ofShape, mapExpr] at h
      obtain ⟨t, ht, h⟩ := bind_eq_ok h
      rw [← Except.ok.inj h]
      have helement := hread (t := element) (.inr (by rw [hshape]; exact List.mem_cons_self))
      exact ok_of_mem_wrapped hok (forall_mem_of_all (by decide)) (ih helement ht)
    | parameter name =>
      rw [hshape, TypeExpr.ofShape, mapExpr] at h
      have hname := hread (t := name) (.inl (by rw [hshape]; rfl))
      rw [← Except.ok.inj h, TypeExpr.parameterIdentifier]
      split
      · exact hname
      · exact fun c hc => hname c (mem_of_mem_simpleName hc)
    | nullable inner =>
      rw [hshape, TypeExpr.ofShape, mapExpr] at h
      obtain ⟨t, ht, h⟩ := bind_eq_ok h
      rw [← Except.ok.inj h]
      have hinner := hread (t := inner) (.inr (by rw [hshape]; exact List.mem_cons_self))
      exact ok_of_mem_wrapped hok (forall_mem_of_all (by decide)) (ih hinner ht)
    | named name arguments =>
      rw [hshape, TypeExpr.ofShape] at h
      refine ok_of_mem_named hok (hread (.inl (by rw [hshape]; rfl))) (fun a ha t hat => ?_) h
      obtain ⟨argument, hargument, rfl⟩ := List.mem_map.mp ha
      exact ih (hread (.inr (by rw [hshape]; exact hargument))) hat

/-- **What a schema string is mapped to** is in the class of its characters. -/
theorem ok_of_mem_map (hok : ∀ c, IsTypeChar c → ok c) {text : Text} (htext : ∀ c ∈ text, ok c)
    (h : (⟨index, {}⟩ : Mapping).map text = .ok u) : ∀ c ∈ u, ok c :=
  ok_of_mem_mapExpr hok _ htext h

end Mapping

/-! ## Upgrading -/

namespace TypeExpr

theorem ok_of_mem_markArity (hok : ∀ c, IsTypeChar c → ok c) {name : Text}
    (hname : ∀ c ∈ name, ok c) (arity : Int) : ∀ c ∈ markArity name arity, ok c := by
  intro c hc
  rcases List.mem_append.mp hc with hc | hc
  · exact hname c hc
  · rcases isDigit_of_mem_mark hc with rfl | hdigit | rfl
    · exact hok _ (by decide)
    · exact hok c (.inl (isIdentifierChar_of_isDigit hdigit))
    · exact hok _ (by decide)

theorem ok_of_mem_arrayMarks (hok : ∀ c, IsTypeChar c → ok c) (levels : Nat) :
    ∀ c ∈ arrayMarks levels, ok c := by
  induction levels with
  | zero => exact fun c hc => absurd hc List.not_mem_nil
  | succ levels ih =>
    have hsuffix : ∀ c ∈ arraySuffix, IsTypeChar c := forall_mem_of_all (by decide)
    intro c hc
    exact (List.mem_append.mp hc).elim (ih c) fun hc => hok c (hsuffix c hc)

/-- **What a schema string is upgraded to** is in the class of its characters, when the generic
parameters around it and the placeholder are. -/
theorem ok_of_mem_upgradeText (hok : ∀ c, IsTypeChar c → ok c) {index : ArityIndex}
    {generics : List Text} {placeholder text : Text} (htext : ∀ c ∈ text, ok c)
    (hgenerics : ∀ g ∈ generics, ∀ c ∈ g, ok c) (hplaceholder : ∀ c ∈ placeholder, ok c) :
    ∀ c ∈ upgradeText index generics placeholder text, ok c := by
  by_cases hne : strip text = []
  · rw [upgradeText_of_blank hne]
    exact fun c hc => absurd hc List.not_mem_nil
  · cases hupgrade : upgrade? index generics placeholder (parse [placeholder] text) with
    | none =>
      rw [upgradeText_of_none hupgrade]
      exact fun c hc => htext c (mem_of_mem_strip hc)
    | some e =>
      obtain ⟨levels, name, arity, hbare, -, rfl⟩ := exists_isBare_of_upgrade? hupgrade
      have hname : ∀ c ∈ name, ok c := ok_of_mem_leafNames hok _ htext hbare.mem_leafNames
      have hmarked := ok_of_mem_markArity hok hname arity
      have hslots : ∀ t ∈ (slots generics placeholder arity).map schema, ∀ c ∈ t, ok c := by
        intro t ht
        obtain ⟨slot, hslot, rfl⟩ := List.mem_map.mp ht
        obtain ⟨i, -, rfl⟩ := List.mem_map.mp hslot
        cases hi : generics[i]? with
        | none => exact hplaceholder
        | some g => exact hgenerics g (List.mem_of_getElem? hi)
      rw [upgradeText_of_some hne hupgrade, schema_arrays]
      intro c hc
      rcases List.mem_append.mp hc with hc | hc
      · by_cases hnil : slots generics placeholder arity = []
        · rw [hnil, schema] at hc
          exact hmarked c hc
        · rw [schema_named hnil] at hc
          exact Mapping.ok_of_mem_applied hok hmarked hslots c hc
      · exact ok_of_mem_arrayMarks hok levels c hc

end TypeExpr

end

end HaxeBindings
