import HaxeBindings.ExternFile
import HaxeBindings.Files.Path
import HaxeBindings.Log
import HaxeBindings.Memo
import HaxeBindings.Name.CompilerGenerated

/-!
# Rendering the externs of a catalog

Rendering turns descriptors into extern files in memory.  The arity index is built
once, from all descriptors of the run, and everything after it depends on that
index and the options only.

A descriptor without a name and one with a compiler generated name make no file.
A type whose arity marker cannot be read costs a descriptor its file, and the run
goes on.  A class without a name (the host name has no usable character and the
default is empty) stops the run, and so does a package below a root package
without a name.

## Remembering

`renderAll` maps types against one memo for the whole run.  `render` maps every
type afresh; it is what a single descriptor comes to, wherever it stands in the
run.
-/

namespace HaxeBindings

open Text Schema Name

/-- The text of one extern file, and where it belongs. -/
structure Rendered where
  nativeName : Text
  className : Text
  package : Package
  text : Text
  memberCount : Nat
  deriving DecidableEq

namespace Rendered

/-- The path of the file below an output root. -/
def outputPath (r : Rendered) (root : Path) (extension : Text) : Path :=
  (root.join r.package.directory).join (r.className ++ '.' :: extension)

end Rendered

namespace Mapping

/-- The mapping for a catalog of descriptors. -/
def ofTypes (o : Options) (types : List Descriptor) : Except DigitsError Mapping :=
  (ArityIndex.ofTypes types).map fun index => ⟨index, o⟩

end Mapping

namespace Descriptor

/-- The name by which a run reports on the descriptor. -/
def reportName (d : Descriptor) : Text :=
  if isBlankText d.fullName then strip d.name else strip d.fullName

end Descriptor

/-- What rendering a descriptor comes to. -/
inductive Rendering where
  /-- A file. -/
  | file (r : Rendered)
  /-- No file; the event says why, if it is worth a report. -/
  | skipped (report : Option Event)
  /-- The run cannot go on. -/
  | stopped (cause : MappingError)

namespace Rendering

/-- The events of a rendering. -/
def log : Rendering → List Event
  | file r => [.rendered r.nativeName r.memberCount]
  | skipped report => report.toList
  | stopped _ => []

/-- The rendering of a descriptor whose members are given. -/
def ofGroups (o : Options) (d : Descriptor) (groups : List MemberGroup) : Rendering :=
  if Package.isUnnamable o d.namespaceName then stopped .noRootPackage
  else match d.className? o.defaultTypeName with
    | none => stopped .noTypeName
    | some className =>
      let package := Package.ofType o d.namespaceName
      file {
        nativeName := d.reportName
        className
        package
        text := (ExternFile.write o.indent className d package.name groups).text
        memberCount := groups.foldr (fun g n => g.size + n) 0 }

/-- The rendering of a descriptor, when its members were mapped or failed to be. -/
def ofMembers (o : Options) (d : Descriptor) : Except MappingError (List MemberGroup) → Rendering
  | .ok groups => ofGroups o d groups
  | .error (.arity cause) => skipped (some (.unmappable d.reportName cause))
  | .error cause => stopped cause

/-- The rendering of a descriptor that is not worth mapping; `none` for all others. -/
def early? (d : Descriptor) : Option Rendering :=
  if d.reportName.isEmpty then some (skipped none)
  else if isCompilerGenerated d.reportName then
    some (skipped (some (.generatedDescriptor d.reportName)))
  else none

end Rendering

namespace Mapping

/-- Renders a descriptor, mapping every type afresh. -/
def render (m : Mapping) (d : Descriptor) : Rendering :=
  match Rendering.early? d with
  | some r => r
  | none => .ofMembers m.options d (memberGroups m.map m d)

end Mapping

namespace Memo

/-- Renders a descriptor, mapping its types against a memo. -/
def render (m : Mapping) (d : Descriptor) (memo : Memo) : Rendering × Memo :=
  match Rendering.early? d with
  | some r => (r, memo)
  | none =>
    let (groups, memo) := (memberGroups (ask m) m d).run.run memo
    (.ofMembers m.options d groups, memo)

/-- Renders descriptors one after the other against one memo. -/
def renderAll (m : Mapping) : List Descriptor → Memo → List Rendering
  | [], _ => []
  | d :: ds, memo => (render m d memo).1 :: renderAll m ds (render m d memo).2

end Memo

/-- The externs of a run, up to the rendering that stopped it. -/
structure Batch where
  externs : List Rendered := []
  log : List Event := []
  stop : Option MappingError := none

namespace Batch

/-- The run whose descriptors came to the given renderings. -/
def ofRenderings : List Rendering → Batch
  | [] => {}
  | .stopped cause :: _ => { stop := some cause }
  | r :: rest =>
    let later := ofRenderings rest
    { externs := (match r with
        | .file e => [e]
        | _ => []) ++ later.externs
      log := r.log ++ later.log
      stop := later.stop }

end Batch

namespace Mapping

/-- Renders descriptors in order, remembering the types that were mapped. -/
def renderAll (m : Mapping) (types : List Descriptor) : Batch :=
  .ofRenderings (Memo.renderAll m types {})

end Mapping

end HaxeBindings
