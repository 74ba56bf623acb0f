import HaxeBindings.Proofs.Catalog.Loaded
import HaxeBindings.Proofs.Generation.Independence
import HaxeBindings.Proofs.Generation.Lines
import HaxeBindings.Proofs.Mapping.Identity
import HaxeBindings.Proofs.Member.Declaration
import HaxeBindings.Proofs.Member.Mentioned

/-!
# Generic parameters from the dump to the extern

A dump says of a type occurrence that it is a generic parameter, and what the parameter
is called.  The extern only has a name there.  This file follows the reference through
the run: it is flattened to its name, upgraded inside its method, read, mapped and
written into a declaration.

* `MethodDeclaration.Shows` --- what a declaration has at the positions at which the
  recorded method has a given reference;
* `shown_eq_target` --- that is the target of the reference's schema string after its
  upgrade;
* `renderDump_keeps_parameters` --- so the identifier of a parameter is shown as it is
  in the dump exactly when it follows the convention for generic parameters and the
  index knows no type of that name, and then it is declared as well.
-/

namespace HaxeBindings

open Text Schema Name

/-- At some position the recorded method has the reference `ref`, and its declaration has the type
that is shown there. -/
inductive MethodDeclaration.Shows (d : MethodDeclaration) (method : Catalog.MethodEntry)
    (ref : TypeRef) : Text → Prop
  | result : method.returnType = some ref → Shows d method ref d.result
  | parameter {i : Nat} {p : Catalog.ParameterEntry} {name shown : Text} :
    method.parameters[i]? = some p → p.type = some ref → d.parameters[i]? = some (name, shown) →
      Shows d method ref shown

section

variable {m : Mapping} {method : Catalog.MethodEntry} {overloaded : Bool}

/-- **What is shown for a reference** is mapped from its upgraded schema string, which is one of the
types of the upgraded method. -/
theorem shown_eq_target {ref : TypeRef} (hne : ref.schema ≠ []) {shown : Text}
    (h : (m.declared overloaded method.describe).Shows method ref shown) :
    TypeExpr.upgradeText m.index method.genericParameters m.options.dynamicType ref.schema ∈
        (method.describe.upgraded m).types ∧
      shown = m.target (TypeExpr.upgradeText m.index method.genericParameters
        m.options.dynamicType ref.schema) := by
  cases h with
  | result hreturn =>
    have htype : (method.describe.upgraded m).returnType =
        TypeExpr.upgradeText m.index method.genericParameters m.options.dynamicType ref.schema := by
      have hschema : method.describe.returnType = ref.schema := by
        rw [Catalog.MethodEntry.describe, hreturn]
      have hpresent : ¬method.describe.returnType.isEmpty = true := by
        rw [hschema, List.isEmpty_iff]
        exact hne
      unfold Method.upgraded
      simp only
      rw [if_neg hpresent, hschema]
      rfl
    rw [← htype]
    exact ⟨List.mem_cons_self, rfl⟩
  | @parameter i p name _ hparameter href hshown =>
    have hdescribed : ∃ name, (method.describe.upgraded m).parameters[i]? =
        some ⟨name, TypeExpr.upgradeText m.index method.genericParameters m.options.dynamicType
          ref.schema⟩ := by
      have hlookup : (method.parameters.zipIdx)[i]? = some (p, i) := by
        rw [List.getElem?_zipIdx, hparameter, Option.map_some, Nat.zero_add]
      unfold Method.upgraded Catalog.MethodEntry.describe Catalog.describeParameters
      simp only [List.getElem?_map, hlookup, Option.map_some, href, TypeRef.schemaOf]
      exact ⟨_, rfl⟩
    obtain ⟨described, hdescribed⟩ := hdescribed
    have htarget := (List.getElem?_zip_eq_some.mp hshown).2
    rw [List.getElem?_map, hdescribed, Option.map_some] at htarget
    refine ⟨List.mem_cons_of_mem _ ?_, (Option.some_inj.mp htarget).symm⟩
    exact List.mem_map.mpr ⟨_, List.mem_of_getElem? hdescribed, rfl⟩

/-- The types of a method that is kept are mapped when its type has a file. -/
theorem maps_of_keeps {d : Descriptor} (hmaps : ∀ t ∈ m.askedTypes d, m.Maps t) {p : Method}
    (h : m.Keeps d.methods p) : ∀ t ∈ (p.upgraded m).types, m.Maps t := fun t ht =>
  hmaps t (List.mem_append_right _ (List.mem_append_right _ (mem_methodTypes.mpr
    (List.mem_flatMap.mpr ⟨strip p.name, mem_methodNames.mpr ⟨h.1, p, h.mem, rfl⟩,
      List.mem_flatMap.mpr ⟨p, mem_methodsNamed.mpr ⟨h.mem, rfl⟩, ht⟩⟩))))

/-- A parameter among the types of a method is used by it. -/
theorem Method.uses_of_mem_types {p : Method} {name : Text} (hword : isLetterWord name = true)
    (hparameter : isParameterName name = true) (h : name ∈ p.types) : p.Uses name := by
  have hname := isName_of_isLetterWord hword
  have hparse : TypeExpr.parse [] name = .parameter name :=
    TypeExpr.parse_parameter hname.trimmed hname.no_open List.not_mem_nil (.inl hparameter)
  refine ⟨name, h, name, ?_, ?_⟩
  · rw [hparse]
    exact List.mem_singleton.mpr rfl
  · rw [TypeExpr.parameterIdentifier, if_pos hparameter, hname.trimmed]

/-- **Where a parameter is kept.**  At the positions at which a method has the reference to a
generic parameter its identifier is shown when it follows the convention and the index does not know
it, and then it is declared; otherwise something else is shown. -/
theorem shows_parameter {d : Descriptor} (hmaps : ∀ t ∈ m.askedTypes d, m.Maps t)
    (hkeeps : m.Keeps d.methods method.describe) {name : Text} (hword : isLetterWord name = true)
    (hkeyword : name ∉ m.options.vocabulary) {shown : Text}
    (h : (m.declared overloaded method.describe).Shows method (.parameter name) shown) :
    (shown = name ↔ isParameterName name = true ∧ m.index.arities name = []) ∧
      (shown = name → name ∈ (m.declared overloaded method.describe).generics) := by
  have hschema : (TypeRef.parameter name).schema = name := by
    rw [TypeRef.schema, if_neg fun hempty => (isName_of_isLetterWord hword).ne_nil
      (List.isEmpty_iff.mp hempty)]
  obtain ⟨hmem, hshown⟩ := shown_eq_target (by
    rw [hschema]
    exact (isName_of_isLetterWord hword).ne_nil) h
  rw [hschema] at hmem hshown
  have htarget := Mapping.map_eq_target (maps_of_keeps hmaps hkeeps _ hmem)
  rw [← hshown] at htarget
  have hkept : shown = name ↔ isParameterName name = true ∧ m.index.arities name = [] := by
    rw [← Mapping.map_upgradeText_eq_iff hword hkeyword method.genericParameters, htarget,
      Except.ok.injEq]
  refine ⟨hkept, fun heq => ?_⟩
  obtain ⟨hparameter, hunknown⟩ := hkept.mp heq
  have hplaceholder : name ≠ m.options.dynamicType := by
    rintro rfl
    exact hkeyword List.mem_cons_self
  -- the identifier was not upgraded, so it is one of the types itself
  obtain ⟨-, htext⟩ := (TypeExpr.upgradeText_of_isLetterWord m.index method.genericParameters
    hword hplaceholder).resolve_right fun hknown => hknown.1 hunknown
  rw [htext] at hmem
  exact Method.mem_mentionedParameters_iff.mpr
    (.inl (Method.uses_of_mem_types hword hparameter hmem))

end

/-! ## A run over a dump -/

/-- **Generic parameters keep their identity.**  In a run over a dump that returns, take an exported
type that has a file, and a method of it that a script can reach and that is not dropped for an
earlier one with its name and its key.  The method has a declaration on a line of its own.  Where
the dump has a generic parameter of the method, an identifier that is no word of the vocabulary, the
declaration shows that identifier and declares it, as long as the identifier follows the convention
for generic parameters and no exported generic type has it for its name; and otherwise it does not
show it. -/
theorem renderDump_keeps_parameters {o : Options} (path : Text) {dump : Json}
    {catalog : Logged (List Catalog.Assembly)} (hload : Catalog.ofJson dump = .ok catalog)
    {externs : List Rendered}
    (hrun : (renderDump o ((Catalog.ofJson dump).mapError (Failure.notADump path))).result =
      .ok externs) :
    ∃ m, Mapping.ofTypes o (Catalog.descriptors o catalog.value) = .ok m ∧
      ∀ t ∈ (Catalog.select o.rootNamespace catalog.value).value,
        ∀ r, m.render t.describe = .file r → r ∈ externs ∧
          ∀ method ∈ t.methods, method.isReachable t.fullName = true →
            m.Keeps t.describe.methods method.describe →
              ∃ d : MethodDeclaration,
                (∃ overloaded, d = m.declared overloaded method.describe) ∧
                '\n' :: (o.indent ++ d.text) ++ ['\n'] <:+: r.text ∧
                d.parameters.length = method.parameters.length ∧
                ∀ name ∈ method.genericParameters, isLetterWord name = true →
                  name ∉ o.vocabulary → ∀ shown, d.Shows method (.parameter name) shown →
                    (isParameterName name = true ∧ m.index.arities name = [] →
                      shown = name ∧ name ∈ d.generics) ∧
                    (¬(isParameterName name = true ∧ m.index.arities name = []) →
                      shown ≠ name) := by
  rw [renderDump_result o path hload] at hrun
  obtain ⟨m, hm, rfl⟩ := renderTypes_eq_ok hrun
  obtain rfl := options_of_ofTypes hm
  refine ⟨m, hm, fun t ht r hr => ⟨?_, fun method _ _ hkeeps => ?_⟩⟩
  · exact List.mem_filterMap.mpr ⟨t.describe, Catalog.describe_mem_describeAll hload ht,
      Rendering.file?_eq_some_iff.mpr hr⟩
  · obtain ⟨hmaps, className, -, rfl⟩ := of_render_eq_file hr
    obtain ⟨g, hg, hline⟩ := Mapping.exists_group_of_keeps hkeeps
    refine ⟨m.declared g.overloaded method.describe, ⟨_, rfl⟩, ?_, ?_, ?_⟩
    · rw [Mapping.text_declared]
      refine ExternFile.infix_text_write (List.mem_append_right _ hg) hline ?_
      rw [← Mapping.text_declared]
      exact List.append_ne_nil_of_right_ne_nil _ (List.cons_ne_nil _ _)
    · rw [Mapping.length_parameters_declared]
      simp [Catalog.MethodEntry.describe, Catalog.describeParameters]
    · intro name _ hword hkeyword shown hshown
      obtain ⟨hkept, hdeclared⟩ := shows_parameter hmaps hkeeps hword hkeyword hshown
      refine ⟨fun hplain => ?_, fun hother heq => hother (hkept.mp heq)⟩
      exact ⟨hkept.mpr hplain, hdeclared (hkept.mpr hplain)⟩

/-- The reference to a generic parameter, as a dump writes it. -/
def parameterRef (name : Text) : Json :=
  .object [("kind".toList, .string "generic_parameter".toList), ("name".toList, .string name)]

/-- The entry of a method with generic parameters, whose parameters are called `x`. -/
def methodOf (name : Text) (generics : List Text) (result : Json) (types : List Json) : Json :=
  .object [("name".toList, .string name), ("return_type".toList, result),
    ("generic_parameters".toList, .array (generics.map .string)),
    ("parameters".toList, .array (types.map fun type =>
      .object [("name".toList, .string ['x']), ("type".toList, type)]))]

/-- The entry of a type with the given methods. -/
def storeOf (methods : List Json) : Json :=
  entryOf "Sandbox.Store".toList [("methods".toList, .array methods)]

/-- A method with two generic parameters, of which one is its result and stands in the second place
of its parameters, and the other is the element of an array. -/
theorem renderDump_keeps_parameters_pick :
    let key := "TKey".toList
    let elements : Json :=
      .object [("kind".toList, .string "array".toList), ("element".toList, parameterRef ['T'])]
    let dump := dumpOf [storeOf
      [methodOf "Pick".toList [['T'], key] (parameterRef key) [elements, parameterRef key]]]
    let m : Mapping := ⟨{}, {}⟩
    ∃ catalog externs, Catalog.ofJson dump = .ok catalog ∧
      (renderDump {} ((Catalog.ofJson dump).mapError
        (Failure.notADump "dump.json".toList))).result = .ok externs ∧
      ∃ t ∈ (Catalog.select "Sandbox".toList catalog.value).value, ∃ r ∈ externs,
        m.render t.describe = .file r ∧ ∃ method ∈ t.methods,
          method.isReachable t.fullName = true ∧ m.Keeps t.describe.methods method.describe ∧
          key ∈ method.genericParameters ∧ isLetterWord key = true ∧
          key ∉ ({} : Options).vocabulary ∧ isParameterName key = true ∧ m.index.arities key = [] ∧
          ∃ d : MethodDeclaration, '\n' :: ("  ".toList ++ d.text) ++ ['\n'] <:+: r.text ∧
            d.result = key ∧ (∃ name, d.parameters[1]? = some (name, key)) ∧ key ∈ d.generics := by
  intro key elements dump m
  let method : Catalog.MethodEntry :=
    { name := "Pick".toList, returnType := some (.parameter key), visibility := "public".toList,
      isStatic := false, isSpecialName := false, declaringType := none,
      genericParameters := [['T'], key],
      parameters := [⟨['x'], some (.array (some (.parameter ['T'])))⟩, ⟨['x'], some (.parameter key)⟩],
      summary := none }
  let t : Catalog.TypeEntry :=
    { fullName := "Sandbox.Store".toList, name := "Store".toList,
      namespaceName := "Sandbox".toList, visibility := "public".toList, isPointer := false,
      compilerGenerated := false, genericParameters := [], constructors := [], properties := [],
      methods := [method], assembly := "Sandbox.Engine".toList }
  let engine : Catalog.Assembly :=
    { name := "Sandbox.Engine".toList, types := [t], error := none }
  have hload : Catalog.ofJson dump = .ok ⟨[engine], []⟩ := by with_unfolding_all rfl
  have hexported : t ∈ (Catalog.select "Sandbox".toList [engine]).value := by
    have hof : engine.isOf "Sandbox".toList = true := by decide +kernel
    have hexportable : t.isExportable "Sandbox".toList = true := by decide +kernel
    have hcandidates : Catalog.candidates "Sandbox".toList [engine] = [t] := by
      rw [Catalog.candidates, List.filter_cons_of_pos hof]
      rfl
    rw [Catalog.select]
    simp only
    rw [hcandidates, List.filter_cons_of_pos hexportable]
    exact List.mem_cons_self
  have hm : Mapping.ofTypes {} (Catalog.descriptors {} [engine]) = .ok m := by decide +kernel
  have hrun : (renderDump {} ((Catalog.ofJson dump).mapError
      (Failure.notADump "dump.json".toList))).result =
        .ok ((Catalog.descriptors {} [engine]).filterMap fun d => (m.render d).file?) :=
    (renderDump_result {} _ hload).trans (renderTypes_result Options.isComplete_default hm)
  obtain ⟨r, hr⟩ := (exists_file_iff (m := m) Options.isComplete_default t.describe).mpr
    (by decide +kernel)
  have hkeeps : m.Keeps t.describe.methods method.describe := by decide +kernel
  obtain ⟨m', hm', hall⟩ := renderDump_keeps_parameters "dump.json".toList hload hrun
  obtain rfl : m = m' := Except.ok.inj (hm.symm.trans hm')
  obtain ⟨hmem, hmethods⟩ := hall t hexported r hr
  obtain ⟨d, -, hline, hlength, hshows⟩ :=
    hmethods method List.mem_cons_self (by decide +kernel) hkeeps
  have hplain : isParameterName key = true ∧ m.index.arities key = [] := by decide
  have hkey {shown : Text} (h : d.Shows method (.parameter key) shown) :
      shown = key ∧ key ∈ d.generics :=
    (hshows key (by decide) (by decide) (by decide) shown h).1 hplain
  have hsecond : 1 < d.parameters.length := by
    rw [hlength]
    decide
  obtain ⟨hresult, hdeclared⟩ := hkey (.result rfl)
  have hparameter := (hkey (.parameter (i := 1) rfl rfl (List.getElem?_eq_getElem hsecond))).1
  refine ⟨_, _, hload, hrun, t, hexported, r, hmem, hr, method, List.mem_cons_self,
    by decide +kernel, hkeeps, by decide, by decide, by decide, hplain.1, hplain.2, d, hline,
    hresult, ⟨d.parameters[1].1, ?_⟩, hdeclared⟩
  rw [List.getElem?_eq_getElem hsecond]
  exact congrArg some (Prod.ext rfl hparameter)

/-- **Where a parameter of the host is lost.**  A parameter whose name does not follow the convention
is taken for a type; one that has the name of an exported generic type is upgraded to an
instantiation of that; of two methods that differ in a nullable wrapper only the first is declared,
with its own type in the place of the parameter; and a method without a name is not declared. -/
theorem renderDump_loses_parameters :
    let texts (types : List Json) := (renderDump {} ((Catalog.ofJson (dumpOf types)).mapError
      (Failure.notADump "dump.json".toList))).result.toOption.map fun externs =>
        externs.map Rendered.text
    let store (lines : String) : Text := "package sbox;\n\n@:native(\"Sandbox.Store\")\n".toList ++
      "extern class Store \x7b\n".toList ++ lines.toList ++ "\x7d\n".toList
    let key := "Key".toList
    let marked : Text := ['T', arityMark, '1']
    let nullable : Json := .object [("full_name".toList, .string nullableName),
      ("arguments".toList, .array [parameterRef ['T']])]
    texts [storeOf [methodOf "Get".toList [key] (parameterRef key) []]] =
        some [store "  function Get():sbox.Key;\n"] ∧
      (texts [storeOf [methodOf "Get".toList [['T']] (parameterRef ['T']) []],
          entryOf marked [("generic_parameters".toList, .array [.string ['T']])]]).map
            (fun written => written.take 1) = some [store "  function Get<T>():sbox.T<T>;\n"] ∧
      texts [storeOf [methodOf "Put".toList [['T']] .null [nullable],
          methodOf "Put".toList [['T']] .null [parameterRef ['T']]]] =
        some [store "  function Put<T>(x:Null<T>):Void;\n"] ∧
      texts [storeOf [methodOf [' '] [['T']] (parameterRef ['T']) []]] = some [store ""] := by
  intro texts store key marked nullable
  refine ⟨?_, ?_, ?_, ?_⟩
  · decide +kernel
  · decide +kernel
  · decide +kernel
  · decide +kernel

end HaxeBindings
