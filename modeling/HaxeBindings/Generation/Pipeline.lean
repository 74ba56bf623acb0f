import HaxeBindings.Catalog.Describe
import HaxeBindings.Catalog.Select
import HaxeBindings.Generation.Failure
import HaxeBindings.Generation.Render

/-!
# From a catalog to rendered externs

The whole of generation without the file tree: the exportable types of a catalog
are selected, described and rendered.
-/

namespace HaxeBindings

open Text

/-- Renders descriptors as one catalog. -/
def renderTypes (o : Options) (types : List Descriptor) : Outcome (List Rendered) :=
  match Mapping.ofTypes o types with
  | .error cause => ⟨.error (.unreadableNumber cause), []⟩
  | .ok m =>
    let batch := m.renderAll types
    match batch.stop with
    | none => ⟨.ok batch.externs, batch.log⟩
    | some cause => ⟨.error (.ofMapping cause), batch.log⟩

namespace Catalog

/-- Renders the exportable types of a catalog. -/
def renderExternals (o : Options) (assemblies : List Assembly) : Outcome (List Rendered) :=
  let selected := select o.rootNamespace assemblies
  let rendered := renderTypes o (describeAll selected.value)
  ⟨rendered.result, selected.log ++ rendered.log⟩

end Catalog

/-- Renders the exportable types of a dump. -/
def renderDump (o : Options) (dump : Except Failure (Logged (List Catalog.Assembly))) :
    Outcome (List Rendered) :=
  match dump with
  | .error e => ⟨.error e, []⟩
  | .ok catalog =>
    let rendered := Catalog.renderExternals o catalog.value
    ⟨rendered.result, catalog.log ++ rendered.log⟩

end HaxeBindings
