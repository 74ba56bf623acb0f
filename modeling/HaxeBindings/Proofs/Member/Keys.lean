import HaxeBindings.Proofs.Catalog.Reference
import HaxeBindings.Proofs.Mapping.Shape
import HaxeBindings.Proofs.Member.Emitted

/-!
# What a key tells apart

Members of one name are declared once for each key, so two members with one key must be
the same overload, or one of them is lost.  A key is written from texts that are put
between separators, and this file says that the separators are never in doubt.

* `TypeExpr.unwrapped` --- a type without a nullable wrapper around the whole of it;
* `keyOf_mapExpr` --- taking `Null` off a mapped type is the same as mapping the tree
  without its wrapper, since no other tree is mapped to a text that starts in this way;
* `Method.SameSignature` --- what two overloads must differ in;
* `keys_exact` --- two methods have one key exactly when they have one signature in that
  sense, and two constructors when the types of their parameters agree.

## The argument

A key is cut at the first bar, at the first closing bracket behind the generic
parameters and at the next bar (`append_cons_inj`).  Mapped types have no bar and no
blank, being written in `IsKeyChar`, and each of them is one item of a list, so the list
of the parameter types can be read off the joined text (`join_injective`).
-/

namespace HaxeBindings

open Text Schema Name

/-- A separator that is not in the fields in front of it tells where they end. -/
theorem Text.append_cons_inj {c : Char} {s t u v : Text} (hs : c ∉ s) (ht : c ∉ t)
    (h : s ++ c :: u = t ++ c :: v) : s = t ∧ u = v := by
  constructor
  · rw [← before_append_cons hs u, h, before_append_cons ht]
  · rw [← afterFirst_append_cons hs u, h, afterFirst_append_cons ht]

namespace TypeExpr

/-- The expression without a nullable wrapper around the whole of it. -/
def unwrapped : TypeExpr → TypeExpr
  | .nullable inner => inner
  | e => e

theorem names_unwrapped (e : TypeExpr) : e.unwrapped.names = e.names := by
  cases e with
  | _ => rfl

theorem IsCanonical.unwrapped {vocabulary : List Text} {e : TypeExpr}
    (h : IsCanonical vocabulary e) : IsCanonical vocabulary e.unwrapped := by
  cases e with
  | nullable inner =>
    cases h with
    | nullable hinner => exact hinner
  | _ => exact h

end TypeExpr

namespace Mapping

/-! ## The characters of a key -/

/-- Characters that are no punctuation of type strings and separate nothing in a key. -/
def IsKeyChar (c : Char) : Prop :=
  (c ≠ '<' ∧ c ≠ '>' ∧ c ≠ ',') ∧ c ≠ '|' ∧ isBlank c = false

instance (c : Char) : Decidable (IsKeyChar c) := inferInstanceAs (Decidable (_ ∧ _))

theorem isNameClass_isKeyChar : IsNameClass IsKeyChar where
  identifier c hc := by
    refine ⟨isNameClass_ne_punctuation.identifier c hc, ?_, isBlank_of_isIdentifierChar hc⟩
    rintro rfl
    exact absurd hc (by decide)
  dot := by decide
  lowered c hc := by
    refine ⟨isNameClass_ne_punctuation.lowered c hc, ?_, isBlank_of_isLowered hc⟩
    rintro rfl
    exact absurd hc (by decide)
  no_open h := isNameClass_ne_punctuation.no_open h.1
  no_close h := isNameClass_ne_punctuation.no_close h.1
  no_comma h := isNameClass_ne_punctuation.no_comma h.1

theorem IsTargetType.no_bar {t : Text} (h : IsTargetType IsKeyChar t) : '|' ∉ t := by
  intro hc
  rcases h.mem hc with hc | hc
  · exact hc.2.1 rfl
  · exact absurd hc (by decide)

theorem IsTargetType.strip_eq_self {t : Text} (h : IsTargetType IsKeyChar t) : strip t = t := by
  refine strip_eq_self_of_not_blank fun c hc => ?_
  rcases h.mem hc with hc | rfl | rfl | rfl
  · exact hc.2.2
  · decide
  · decide
  · decide

/-! ## Nullable wrappers -/

theorem keyOf_null {t : Text} (h : strip t = t) : keyOf (applied "Null".toList [t]) = t := by
  have hwhole : applied "Null".toList [t] = "Null<".toList ++ (t ++ ['>']) := by
    rw [applied, join, List.intercalate_singleton]
    simp
  have hstrip : strip ("Null<".toList ++ (t ++ ['>'])) = "Null<".toList ++ (t ++ ['>']) := by
    have happlied := @strip_applied "Null".toList (by decide) (by decide) t
    simpa using happlied
  have hprefix : "Null<".toList.isPrefixOf ("Null<".toList ++ (t ++ ['>'])) = true :=
    List.isPrefixOf_iff_prefix.mpr (List.prefix_append _ _)
  have hlast : ("Null<".toList ++ (t ++ ['>'])).getLast? = some '>' := by
    rw [← List.append_assoc, List.getLast?_concat]
  unfold keyOf
  simp only
  rw [hwhole, hstrip, hprefix, hlast, if_pos (by decide), List.drop_left, List.dropLast_concat, h]

theorem keyOf_eq_self {u : Text} (hstrip : strip u = u)
    (h : "Null<".toList.isPrefixOf u = false) : keyOf u = u := by
  unfold keyOf
  simp only
  rw [hstrip, h, Bool.false_and, if_neg Bool.false_ne_true]

section

variable {index : ArityIndex}

theorem head?_of_mem_vocabulary : ∀ k ∈ ({} : Options).vocabulary, k.head? ≠ some 'N' := by decide

/-- No host type is mapped to a text that starts as a wrapper does. -/
theorem head?_mapExpr_named {name u : Text} {arguments : List TypeExpr}
    (h : (⟨index, {}⟩ : Mapping).mapExpr (.named name arguments) = .ok u) :
    u.head? ≠ some 'N' := by
  have hbase {base : Text} (h : (⟨index, {}⟩ : Mapping).userType name = .ok base) :
      base ≠ [] ∧ base.head? ≠ some 'N' := by
    rcases userType_eq_ok h with ⟨-, rfl⟩ | ⟨package, identifier, hpackage, -, rfl⟩
    · exact ⟨List.cons_ne_nil _ _, head?_of_mem_vocabulary _ List.mem_cons_self⟩
    · refine ⟨by simp, ?_⟩
      -- every package starts with the root package
      have hroot : ∃ rest, package = 's' :: rest := by
        obtain ⟨segments, -, rfl⟩ := Package.nameOfReference_eq_some hpackage
        exact ⟨_, rfl⟩
      obtain ⟨rest, rfl⟩ := hroot
      exact fun hhead => absurd (Option.some_inj.mp hhead) (by decide)
  rcases mapExpr_named_eq_ok h with hcore | ⟨-, base, hbase₀, hu⟩
  · exact head?_of_mem_vocabulary u (mem_vocabulary_of_coreType? hcore)
  · obtain ⟨hne, hhead⟩ := hbase hbase₀
    rcases hu with rfl | ⟨-, ts, -, rfl, -⟩
    · exact hhead
    · rwa [applied, List.append_assoc, List.head?_append_of_ne_nil _ hne]

theorem null_isPrefixOf_eq_false {u : Text} (h : u.head? ≠ some 'N' ∨ '<' ∉ u) :
    "Null<".toList.isPrefixOf u = false := by
  rw [Bool.eq_false_iff, ne_eq, List.isPrefixOf_iff_prefix]
  rintro ⟨rest, rfl⟩
  rcases h with h | h
  · exact h rfl
  · exact h (List.mem_append_left rest (by decide))

/-- **The wrapper can be taken off the text.**  It stands in front of a mapped type only when there
is a nullable wrapper at the root of the tree. -/
theorem keyOf_mapExpr {e : TypeExpr} (h : TypeExpr.IsCanonical ({} : Options).vocabulary e)
    (hnames : ∀ name ∈ e.names, ∀ c ∈ name, IsKeyChar c) {u : Text}
    (hu : (⟨index, {}⟩ : Mapping).mapExpr e = .ok u) :
    (⟨index, {}⟩ : Mapping).mapExpr e.unwrapped = .ok (keyOf u) := by
  have hstrip : strip u = u :=
    (isTargetType_mapExpr isNameClass_isKeyChar h hnames hu).strip_eq_self
  -- a tree without a wrapper at its root
  have hplain (hunwrapped : e.unwrapped = e) (hhead : u.head? ≠ some 'N' ∨ '<' ∉ u) :
      (⟨index, {}⟩ : Mapping).mapExpr e.unwrapped = .ok (keyOf u) := by
    rw [hunwrapped, hu, keyOf_eq_self hstrip (null_isPrefixOf_eq_false hhead)]
  cases h with
  | primitive hkeyword =>
    rw [mapExpr] at hu
    exact hplain rfl (.inl (Except.ok.inj hu ▸ head?_of_mem_vocabulary _ hkeyword))
  | array _ =>
    refine hplain rfl (.inl ?_)
    rw [mapExpr] at hu
    obtain ⟨t, -, hu⟩ := bind_eq_ok hu
    rw [← Except.ok.inj hu]
    exact fun hhead => absurd (Option.some_inj.mp hhead) (by decide)
  | nullable hinner =>
    rw [mapExpr] at hu
    obtain ⟨t, ht, hu⟩ := bind_eq_ok hu
    have htarget := isTargetType_mapExpr isNameClass_isKeyChar hinner hnames ht
    rw [← Except.ok.inj hu, keyOf_null htarget.strip_eq_self]
    exact ht
  | bare _ _ _ => exact hplain rfl (.inl (head?_mapExpr_named hu))
  | applied _ _ _ _ _ => exact hplain rfl (.inl (head?_mapExpr_named hu))
  | @parameter name _ hopen _ _ _ _ =>
    refine hplain rfl (.inr ?_)
    rw [mapExpr] at hu
    rw [← Except.ok.inj hu, TypeExpr.parameterIdentifier]
    split
    · exact hopen
    · exact fun hc => hopen (mem_of_mem_simpleName hc)

end

/-! ## Plain types -/

/-- The schema string of a canonical tree with neither bars nor blanks in its names. -/
def IsPlainType (text : Text) : Prop :=
  ∃ e : TypeExpr, TypeExpr.IsCanonical ({} : Options).vocabulary e ∧
    (∀ name ∈ e.names, ∀ c ∈ name, c ≠ '|' ∧ isBlank c = false) ∧ text = e.schema

/-- A plain type is read as a canonical tree with names in the characters of a key. -/
theorem IsPlainType.parse {text : Text} (h : IsPlainType text) :
    TypeExpr.IsCanonical ({} : Options).vocabulary
        (TypeExpr.parse ({} : Options).vocabulary text) ∧
      ∀ name ∈ (TypeExpr.parse ({} : Options).vocabulary text).names, ∀ c ∈ name, IsKeyChar c := by
  have hvocabulary := isVocabulary_default
  obtain ⟨e, he, hnames, rfl⟩ := h
  rw [TypeExpr.parse, TypeExpr.parseWithin_schema_eq_cut hvocabulary.names he]
  refine ⟨he.cut hvocabulary.isCanonical_object _, fun name hname c hc => ?_⟩
  rcases TypeExpr.mem_names_cut hname with rfl | hname
  · have hobject : ∀ c ∈ objectName, IsKeyChar c := forall_mem_of_all (by decide)
    exact hobject c hc
  · have hform : IsName name := he.isName_of_mem hvocabulary.names hname
    exact ⟨hform.ne_punctuation hc, hnames name hname c hc⟩

/-- The target type of a schema string as it is written; empty for one that is not mapped. -/
def target (m : Mapping) (t : Text) : Text := Id.run (m.answer t)

theorem map_eq_target {m : Mapping} {t : Text} (h : m.Maps t) : m.map t = .ok (m.target t) :=
  map_eq_answer h

/-- What a key needs to know of a plain type that is mapped. -/
theorem IsPlainType.target {index : ArityIndex} {text : Text} (h : IsPlainType text)
    (hmaps : (⟨index, {}⟩ : Mapping).Maps text) :
    '|' ∉ (⟨index, {}⟩ : Mapping).target text ∧
      IsClosed (keyOf ((⟨index, {}⟩ : Mapping).target text)) ∧
      (⟨index, {}⟩ : Mapping).mapExpr ((⟨index, {}⟩ : Mapping).parse text).unwrapped =
        .ok (keyOf ((⟨index, {}⟩ : Mapping).target text)) := by
  obtain ⟨hcanonical, hnames⟩ := h.parse
  have hu := map_eq_target hmaps
  have hkey := keyOf_mapExpr hcanonical hnames hu
  have hunwrapped := hnames
  rw [← TypeExpr.names_unwrapped] at hunwrapped
  have htarget := isTargetType_mapExpr isNameClass_isKeyChar hcanonical.unwrapped hunwrapped hkey
  exact ⟨(isTargetType_mapExpr isNameClass_isKeyChar hcanonical hnames hu).no_bar,
    htarget.isClosed isNameClass_isKeyChar, hkey⟩

/-! ## Parameter lists -/

/-- The target types of parameters without nullable wrappers around the whole of them. -/
def unwrappedTypes (m : Mapping) (ps : List Parameter) : List (Except MappingError Text) :=
  ps.map fun p => m.mapExpr (m.parse p.type).unwrapped

/-- A parameter list as it counts when signatures are compared, when all its types are mapped. -/
def parameterSignature (m : Mapping) (ps : List Parameter) : Text :=
  Id.run (parameterKey m.answer ps)

theorem parameterSignature_eq (m : Mapping) (ps : List Parameter) :
    m.parameterSignature ps = join [','] (ps.map fun p => keyOf (m.target p.type)) := by
  have htypes : parameterTypes m.answer ps = ps.map fun p => m.target p.type := mapM_id _ ps
  have hkey : m.parameterSignature ps =
      join [','] (List.map keyOf (parameterTypes m.answer ps)) := rfl
  rw [hkey, htypes, List.map_map]
  rfl

/-- **The types can be read off the key of a parameter list.** -/
theorem parameterSignature_eq_iff {index : ArityIndex} {ps qs : List Parameter}
    (hps : ∀ p ∈ ps, IsPlainType p.type ∧ (⟨index, {}⟩ : Mapping).Maps p.type)
    (hqs : ∀ q ∈ qs, IsPlainType q.type ∧ (⟨index, {}⟩ : Mapping).Maps q.type) :
    (⟨index, {}⟩ : Mapping).parameterSignature ps =
        (⟨index, {}⟩ : Mapping).parameterSignature qs ↔
      unwrappedTypes ⟨index, {}⟩ ps = unwrappedTypes ⟨index, {}⟩ qs := by
  let key : Parameter → Text := fun p => keyOf ((⟨index, {}⟩ : Mapping).target p.type)
  have hclosed {rs : List Parameter}
      (hrs : ∀ r ∈ rs, IsPlainType r.type ∧ (⟨index, {}⟩ : Mapping).Maps r.type) :
      ∀ t ∈ rs.map key, IsClosed t := by
    intro t ht
    obtain ⟨r, hr, rfl⟩ := List.mem_map.mp ht
    exact ((hrs r hr).1.target (hrs r hr).2).2.1
  have htypes {rs : List Parameter}
      (hrs : ∀ r ∈ rs, IsPlainType r.type ∧ (⟨index, {}⟩ : Mapping).Maps r.type) :
      unwrappedTypes ⟨index, {}⟩ rs = (rs.map key).map Except.ok := by
    rw [unwrappedTypes, List.map_map]
    exact List.map_congr_left fun r hr => ((hrs r hr).1.target (hrs r hr).2).2.2
  rw [parameterSignature_eq, parameterSignature_eq, htypes hps, htypes hqs]
  constructor
  · intro h
    rw [join_injective (hclosed hps) (hclosed hqs) h]
  · intro h
    have hinjective : Function.Injective (Except.ok : Text → Except MappingError Text) :=
      fun _ _ => Except.ok.inj
    exact congrArg (join [',']) (List.map_injective_iff.mpr hinjective h)

end Mapping

/-! ## Methods -/

namespace Method

theorem isAlphanum_of_mem_mentionedParameters {p : Method} {name : Text}
    (h : name ∈ p.mentionedParameters) : name ≠ [] ∧ ∀ c ∈ name, c.isAlphanum = true := by
  rw [mentionedParameters, parametersAmong, Sorted.mem_ofList] at h
  obtain ⟨token, htoken, rfl⟩ := List.mem_map.mp h
  have hparameter : isParameterName token = true := (List.mem_filter.mp htoken).2
  refine ⟨fun hnil => ?_, fun c => TypeExpr.isAlphanum_of_isParameterName hparameter⟩
  unfold isParameterName at hparameter
  rw [hnil] at hparameter
  exact Bool.false_ne_true hparameter

theorem isClosed_of_mem_mentionedParameters {p : Method} {name : Text}
    (h : name ∈ p.mentionedParameters) : IsClosed name := by
  obtain ⟨hne, halnum⟩ := isAlphanum_of_mem_mentionedParameters h
  have hno {c : Char} (hc : c.isAlphanum = false) : c ∉ name := fun hmem =>
    Bool.false_ne_true (hc.symm.trans (halnum c hmem))
  exact ⟨hne, balanced_of_no_bracket (hno rfl) (hno rfl), unsplit_of_no_comma (hno rfl)⟩

theorem no_close_join_mentionedParameters (p : Method) :
    '>' ∉ join [','] p.mentionedParameters := by
  intro hc
  rcases mem_join hc with hc | ⟨name, hname, hc⟩
  · exact absurd hc (by decide)
  · exact absurd ((isAlphanum_of_mem_mentionedParameters hname).2 _ hc) (by decide)

/-- What two overloads must differ in: how they are called, what their types mention and what they
are mapped to, nullable parameters aside. -/
structure SameSignature (m : Mapping) (p q : Method) : Prop where
  isStatic : p.isStatic = q.isStatic
  isProtected : p.isProtected = q.isProtected
  name : p.name = q.name
  generics : p.mentionedParameters = q.mentionedParameters
  result : m.map p.returnType = m.map q.returnType
  parameters : m.unwrappedTypes p.parameters = m.unwrappedTypes q.parameters

/-- A method whose name has no bar and whose types are plain. -/
structure IsPlain (p : Method) : Prop where
  name : '|' ∉ p.name
  types : ∀ t ∈ p.types, Mapping.IsPlainType t

/-- The fields of a key and the separators between them. -/
theorem key_answer (m : Mapping) (p : Method) (generics : List Text) :
    Id.run (p.key m.answer generics) =
      (if p.isStatic then 'S' else 'I') :: (if p.isProtected then 'P' else 'U') :: '|' ::
        (p.name ++ '|' :: '<' :: (join [','] generics ++ '>' :: '|' ::
          (m.target p.returnType ++ '|' :: '(' ::
            (m.parameterSignature p.parameters ++ [')'])))) := by
  have hkey : Id.run (p.key m.answer generics) =
      [if p.isStatic then 'S' else 'I', if p.isProtected then 'P' else 'U', '|'] ++ p.name ++
        "|<".toList ++ join [','] generics ++ ">|".toList ++ m.target p.returnType ++
        "|(".toList ++ m.parameterSignature p.parameters ++ [')'] := rfl
  rw [hkey]
  simp

section

variable {index : ArityIndex} {p q : Method}

theorem parameters_isPlain (hp : p.IsPlain)
    (hmaps : ∀ t ∈ p.types, (⟨index, {}⟩ : Mapping).Maps t) :
    ∀ x ∈ p.parameters, Mapping.IsPlainType x.type ∧ (⟨index, {}⟩ : Mapping).Maps x.type := by
  intro x hx
  have hmem : x.type ∈ p.types := List.mem_cons_of_mem _ (List.mem_map_of_mem hx)
  exact ⟨hp.types _ hmem, hmaps _ hmem⟩

/-- **Every field can be read off a key.** -/
theorem key_answer_eq_iff (hp : p.IsPlain) (hq : q.IsPlain)
    (hpm : ∀ t ∈ p.types, (⟨index, {}⟩ : Mapping).Maps t)
    (hqm : ∀ t ∈ q.types, (⟨index, {}⟩ : Mapping).Maps t) :
    Id.run (p.key (⟨index, {}⟩ : Mapping).answer p.mentionedParameters) =
        Id.run (q.key (⟨index, {}⟩ : Mapping).answer q.mentionedParameters) ↔
      SameSignature ⟨index, {}⟩ p q := by
  have hparameters := Mapping.parameterSignature_eq_iff (parameters_isPlain hp hpm)
    (parameters_isPlain hq hqm)
  have hpr := Mapping.map_eq_target (hpm p.returnType List.mem_cons_self)
  have hqr := Mapping.map_eq_target (hqm q.returnType List.mem_cons_self)
  rw [key_answer, key_answer]
  constructor
  · intro h
    -- one separator after the other
    obtain ⟨hstatic, h⟩ := List.cons.inj h
    obtain ⟨hprotected, h⟩ := List.cons.inj h
    obtain ⟨hname, h⟩ := append_cons_inj hp.name hq.name (List.cons.inj h).2
    obtain ⟨hgenerics, h⟩ := append_cons_inj p.no_close_join_mentionedParameters
      q.no_close_join_mentionedParameters (List.cons.inj h).2
    have hpbar := ((hp.types _ List.mem_cons_self).target (hpm _ List.mem_cons_self)).1
    have hqbar := ((hq.types _ List.mem_cons_self).target (hqm _ List.mem_cons_self)).1
    obtain ⟨hresult, h⟩ := append_cons_inj hpbar hqbar (List.cons.inj h).2
    refine ⟨?_, ?_, hname, ?_, ?_, ?_⟩
    · exact eq_of_letter_eq (by decide) hstatic
    · exact eq_of_letter_eq (by decide) hprotected
    · exact join_injective (fun _ => isClosed_of_mem_mentionedParameters)
        (fun _ => isClosed_of_mem_mentionedParameters) hgenerics
    · rw [hpr, hqr, hresult]
    · exact hparameters.mp (List.append_cancel_right (List.cons.inj h).2)
  · intro h
    have hresult : (⟨index, {}⟩ : Mapping).target p.returnType =
        (⟨index, {}⟩ : Mapping).target q.returnType :=
      Except.ok.inj (hpr.symm.trans (h.result.trans hqr))
    rw [h.isStatic, h.isProtected, h.name, h.generics, hresult, hparameters.mpr h.parameters]

end

end Method

/-- The types can be read off the key of a constructor. -/
theorem Constructor.signature_eq_iff {index : ArityIndex} {c d : Constructor}
    (hc : ∀ t ∈ c.types, Mapping.IsPlainType t ∧ (⟨index, {}⟩ : Mapping).Maps t)
    (hd : ∀ t ∈ d.types, Mapping.IsPlainType t ∧ (⟨index, {}⟩ : Mapping).Maps t) :
    (⟨index, {}⟩ : Mapping).constructorSignature c =
        (⟨index, {}⟩ : Mapping).constructorSignature d ↔
      Mapping.unwrappedTypes ⟨index, {}⟩ c.parameters =
        Mapping.unwrappedTypes ⟨index, {}⟩ d.parameters := by
  have hkey (e : Constructor) : (⟨index, {}⟩ : Mapping).constructorSignature e =
      "new(".toList ++ ((⟨index, {}⟩ : Mapping).parameterSignature e.parameters ++ [')']) := by
    rw [← List.append_assoc]
    rfl
  rw [hkey, hkey, List.append_cancel_left_eq, List.append_cancel_right_eq]
  exact Mapping.parameterSignature_eq_iff (fun x hx => hc _ (List.mem_map_of_mem hx))
    fun x hx => hd _ (List.mem_map_of_mem hx)

/-- **Keys never merge different signatures, and never part equal ones.**  For any two methods
whose types are mapped, and likewise for any two constructors. -/
theorem keys_exact (index : ArityIndex) :
    (∀ p q : Method, p.IsPlain → q.IsPlain →
      (∀ t ∈ p.types ++ q.types, (⟨index, {}⟩ : Mapping).Maps t) →
        ∃ kp kq, p.key (⟨index, {}⟩ : Mapping).map p.mentionedParameters = .ok kp ∧
          q.key (⟨index, {}⟩ : Mapping).map q.mentionedParameters = .ok kq ∧
          (kp = kq ↔ Method.SameSignature ⟨index, {}⟩ p q)) ∧
    ∀ c d : Constructor, (∀ t ∈ c.types ++ d.types, Mapping.IsPlainType t) →
      (∀ t ∈ c.types ++ d.types, (⟨index, {}⟩ : Mapping).Maps t) →
        ∃ kc kd, c.key (⟨index, {}⟩ : Mapping).map = .ok kc ∧
          d.key (⟨index, {}⟩ : Mapping).map = .ok kd ∧
          (kc = kd ↔ Mapping.unwrappedTypes ⟨index, {}⟩ c.parameters =
            Mapping.unwrappedTypes ⟨index, {}⟩ d.parameters) := by
  constructor
  · intro p q hp hq hmaps
    obtain ⟨hpm, hqm⟩ := List.forall_mem_append.mp hmaps
    exact ⟨_, _, (asks_methodKey _ p _).isOk_iff.mpr hpm, (asks_methodKey _ q _).isOk_iff.mpr hqm,
      Method.key_answer_eq_iff hp hq hpm hqm⟩
  · intro c d hplain hmaps
    obtain ⟨hc, hd⟩ := List.forall_mem_append.mp hplain
    obtain ⟨hcm, hdm⟩ := List.forall_mem_append.mp hmaps
    exact ⟨_, _, (asks_constructorKey _ c).isOk_iff.mpr hcm,
      (asks_constructorKey _ d).isOk_iff.mpr hdm,
      Constructor.signature_eq_iff (fun t ht => ⟨hc t ht, hcm t ht⟩)
        fun t ht => ⟨hd t ht, hdm t ht⟩⟩

/-- A nullable parameter does not make another overload, and an array does. -/
theorem keys_exact_nullable :
    let m : Mapping := ⟨{}, {}⟩
    let int := "System.Int32".toList
    let nullable := nullableName ++ '<' :: int ++ ['>']
    let run (type : Text) : Method :=
      { name := "Run".toList, returnType := voidName, parameters := [{ name := ['x'], type }] }
    let make (type : Text) : Constructor := { parameters := [{ type }] }
    (run int).IsPlain ∧ (run nullable).IsPlain ∧
      (∀ t ∈ (run int).types ++ (run nullable).types, m.Maps t) ∧
      (∃ key, (run int).key m.map (run int).mentionedParameters = .ok key ∧
        (run nullable).key m.map (run nullable).mentionedParameters = .ok key) ∧
      ∃ kc kd, (make int).key m.map = .ok kc ∧ (make (int ++ arraySuffix)).key m.map = .ok kd ∧
        kc ≠ kd := by
  intro m int nullable run make
  have hcanonical : TypeExpr.IsCanonical ({} : Options).vocabulary (.named int []) :=
    .bare (by decide) (by decide) (by decide)
  have hnames : ∀ name ∈ [int], ∀ c ∈ name, c ≠ '|' ∧ isBlank c = false :=
    List.forall_mem_singleton.mpr (forall_mem_of_all (by decide))
  have hint : Mapping.IsPlainType int := ⟨_, hcanonical, hnames, rfl⟩
  have hnullable : Mapping.IsPlainType nullable := ⟨_, .nullable hcanonical, hnames, rfl⟩
  have harray : Mapping.IsPlainType (int ++ arraySuffix) := ⟨_, .array hcanonical, hnames, rfl⟩
  have hvoid : Mapping.IsPlainType voidName :=
    ⟨.named voidName [], .bare (by decide) (by decide) (by decide),
      List.forall_mem_singleton.mpr (forall_mem_of_all (by decide)), rfl⟩
  have hplain {type : Text} (h : Mapping.IsPlainType type) : (run type).IsPlain := by
    have hname : '|' ∉ "Run".toList := by decide
    refine ⟨hname, fun t ht => ?_⟩
    rcases List.mem_cons.mp ht with rfl | ht
    · exact hvoid
    · rwa [List.mem_singleton.mp ht]
  have hmaps : ∀ t ∈ (run int).types ++ (run nullable).types, m.Maps t := by decide +kernel
  obtain ⟨hmethods, hconstructors⟩ := keys_exact {}
  obtain ⟨kp, kq, hkp, hkq, hsame⟩ := hmethods (run int) (run nullable) (hplain hint)
    (hplain hnullable) hmaps
  obtain ⟨kc, kd, hkc, hkd, hsameTypes⟩ := hconstructors (make int) (make (int ++ arraySuffix))
    (List.forall_mem_cons.mpr ⟨hint, fun t ht => List.mem_singleton.mp ht ▸ harray⟩)
    (by decide +kernel)
  have hequal : kp = kq :=
    hsame.mpr ⟨rfl, rfl, rfl, by decide +kernel, by decide +kernel, by decide +kernel⟩
  have hdiffer : kc ≠ kd := fun h => absurd (hsameTypes.mp h) (by decide +kernel)
  exact ⟨hplain hint, hplain hnullable, hmaps, ⟨kp, hkp, hequal ▸ hkq⟩, kc, kd, hkc, hkd, hdiffer⟩

end HaxeBindings
