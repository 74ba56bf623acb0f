import HaxeBindings.Proofs.Catalog.Loading
import HaxeBindings.Proofs.Generation.Isolation

/-!
# What is not exported has no influence

A run over a dump and a run over the same dump with hidden entries in it, which are
foreign assemblies, types the host does not show and members no script can reach, have
the same result: the same externs, or the same failure (`renderDump_extended`).

A hidden entry could be felt in three ways, and the relation of the two dumps lets all
of them happen: a hidden generic definition could enter the arity index, a hidden
overload could change the group of its method, and a hidden type could be taken for
the one with its name.
-/

namespace HaxeBindings

open Text Schema

/-- **Hidden entries do not change the result of a run**, neither in a catalog nor in the dump that a
catalog is loaded from. -/
theorem renderDump_extended (o : Options) :
    let root := o.rootNamespace
    (∀ assemblies others : List Catalog.Assembly,
      Inserted (Catalog.Assembly.IsHidden root) (Catalog.Assembly.Extended root) assemblies others →
        (Catalog.renderExternals o others).result =
          (Catalog.renderExternals o assemblies).result) ∧
    ∀ (path : Text) (dump dump' : Json),
      Catalog.ObjectExtended (Catalog.DumpFieldsExtended root) dump dump' →
        (renderDump o ((Catalog.ofJson dump').mapError (Failure.notADump path))).result =
          (renderDump o ((Catalog.ofJson dump).mapError (Failure.notADump path))).result := by
  intro root
  have hcatalog (assemblies others : List Catalog.Assembly)
      (h : Inserted (Catalog.Assembly.IsHidden root) (Catalog.Assembly.Extended root)
        assemblies others) :
      (Catalog.renderExternals o others).result =
        (Catalog.renderExternals o assemblies).result := by
    unfold Catalog.renderExternals
    simp only
    rw [Catalog.describeAll_select_eq h]
  refine ⟨hcatalog, fun path dump dump' h => ?_⟩
  rcases Catalog.ofJson_extended h with heq | ⟨catalog, catalog', hdump, hdump', hinserted⟩
  · rw [heq]
  · rw [hdump, hdump']
    exact hcatalog catalog.value catalog'.value hinserted

/-- A foreign assembly with a generic definition, another definition and a second user that are not
visible, and an overload that is private, around one user of the bare name. -/
theorem renderDump_extended_user :
    let run (dump : Json) := (renderDump {} ((Catalog.ofJson dump).mapError
      (Failure.notADump "dump.json".toList))).result
    let assembly (name : String) (types : List Json) : Json :=
      .object [("name".toList, .string name.toList), ("types".toList, .array types)]
    let dump (assemblies : List Json) : Json := .object [("assemblies".toList, .array assemblies)]
    let internal := ("visibility".toList, Json.string "internal".toList)
    let pool (arity : Char) (parameters : List Char) (fields : List (Text × Json)) : Json :=
      entryOf ("Sandbox.Pool".toList ++ [arityMark, arity])
        (("generic_parameters".toList, .array (parameters.map fun p => .string [p])) :: fields)
    let method (name : String) (fields : List (Text × Json)) : Json :=
      .object (("name".toList, .string name.toList) :: fields)
    let user (methods : List Json) : Json := entryOf "Sandbox.User".toList
      [("methods".toList, .array methods)]
    let load := method "Load" [("return_type".toList, .string "Sandbox.Pool".toList)]
    let hiddenLoad := method "Load" [("visibility".toList, .string "private".toList)]
    let first := dump [assembly "Sandbox.Engine" [user [load]]]
    let second := dump [assembly "Other.Engine" [pool '1' ['T'] []],
      assembly "Sandbox.Engine" [pool '2' ['K', 'V'] [internal],
        entryOf "Sandbox.User".toList [internal], user [hiddenLoad, load]]]
    Catalog.ObjectExtended (Catalog.DumpFieldsExtended "Sandbox".toList) first second ∧
      run second = run first ∧
      (run first).toOption.map (fun externs => externs.map Rendered.nativeName) =
        some ["Sandbox.User".toList] := by
  intro run assembly dump internal pool method user load hiddenLoad first second
  let root := "Sandbox".toList
  have hforeign : Catalog.LoadsHidden Catalog.loadAssembly (Catalog.Assembly.IsHidden root)
      (assembly "Other.Engine" [pool '1' ['T'] []]) := by
    intro a ha
    obtain rfl := Option.some.inj ha
    show ¬lower root ++ ['.'] <+: lower "Other.Engine".toList
    decide +kernel
  have hinternal {name : Text} {item : Json}
      (h : (Catalog.loadType name item).value.map Catalog.TypeEntry.visibility =
        some "internal".toList) :
      Catalog.LoadsHidden (Catalog.loadType name) (Catalog.TypeEntry.IsHidden root) item := by
    intro t ht
    rw [ht, Option.map_some, Option.some_inj] at h
    refine .inr (.inl ?_)
    rw [h]
    decide
  have hprivate : Catalog.LoadsHidden
      (Catalog.loadMember .methods "Sandbox.User".toList Catalog.MethodEntry.ofFields)
      (Catalog.MethodEntry.IsHidden "Sandbox.User".toList) hiddenLoad := by
    have hvisibility : (Catalog.loadMember .methods "Sandbox.User".toList
        Catalog.MethodEntry.ofFields hiddenLoad).value.map Catalog.MethodEntry.visibility =
          some "private".toList := by decide +kernel
    intro m hm
    rw [hm, Option.map_some, Option.some_inj] at hvisibility
    refine .inr (.inr ?_)
    rw [hvisibility]
    decide
  have huser : Catalog.ObjectExtended Catalog.TypeFieldsExtended (user [load])
      (user [hiddenLoad, load]) := by
    refine .object ⟨?_, .nil, .nil, .insert hprivate (.keep rfl .nil)⟩
    exact ((Catalog.AgreeOutside.refl _ []).cons_of_mem (by decide) _ _).cons _
  have hengine : Catalog.ObjectExtended (Catalog.AssemblyFieldsExtended root)
      (assembly "Sandbox.Engine" [user [load]])
      (assembly "Sandbox.Engine" [pool '2' ['K', 'V'] [internal],
        entryOf "Sandbox.User".toList [internal], user [hiddenLoad, load]]) := by
    refine .object ⟨?_, .insert (hinternal rfl) (.insert (hinternal rfl) (.keep huser .nil))⟩
    exact ((Catalog.AgreeOutside.refl _ []).cons_of_mem (by decide) _ _).cons _
  have hextended : Catalog.ObjectExtended (Catalog.DumpFieldsExtended root) first second :=
    .object ⟨_, _, rfl, rfl, .insert hforeign (.keep hengine .nil)⟩
  exact ⟨hextended, (renderDump_extended {}).2 "dump.json".toList first second hextended,
    by decide +kernel⟩

end HaxeBindings
