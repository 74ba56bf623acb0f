import HaxeBindings.CommandLine.Execution
import HaxeBindings.Files.System

/-!
# The command

The command reads the dump from the disk, executes in memory, and then makes the
directories and writes the files that the execution left.
-/

namespace HaxeBindings
namespace CommandLine

/-- The file tree that holds nothing but the dump the arguments name. -/
def treeWithDump (args : List Text) : IO FileTree := do
  match Arguments.read args with
  | .error _ => return .onSystem
  | .ok (_, dump) =>
    let path := Path.ofText dump
    let name := String.ofList path.text
    let content? ← try some <$> IO.FS.readBinFile name catch _ => pure none
    match content? with
    | none => return .onSystem
    | some bytes =>
      let tree := (FileTree.onSystem.makeDirectories path.parent).tree
      match tree.locate path with
      | .ok l => return tree.put l (.ofBytes bytes)
      | .error _ => return tree

/-- The path of a location, as the system reads it. -/
def locationName (l : Location) : String :=
  String.ofList (Path.text ⟨if l.absolute then .root else .current, l.names⟩)

/-- Makes on the disk what an execution has made. -/
def materialize (before after : FileTree) : IO Unit := do
  for directory in after.directories do
    IO.FS.createDirAll (locationName directory)
  for (place, content) in after.files do
    unless before.file? place = some content do
      match content with
      | .text t => IO.FS.writeFile (locationName place) (String.ofList t)
      | .binary bytes => IO.FS.writeBinFile (locationName place) ⟨bytes.toArray⟩

/-- How the command is called. -/
def usage : String :=
  "usage: [-h] [--out OUT] [--root-namespace ROOT_NAMESPACE] [--root-package ROOT_PACKAGE] " ++
    "[--extension EXTENSION] [-v] dump"

/-- Executes the command on the disk, and answers the exit code. -/
def perform (args : List Text) : IO UInt32 := do
  let tree ← treeWithDump args
  let execution := execute {} args tree
  materialize tree execution.tree
  for event in execution.log do
    IO.eprintln (String.ofList event.line)
  if let some report := execution.report then
    IO.println (String.ofList report)
  match execution.exit with
  | .success => return 0
  | .help =>
    IO.println usage
    return 0
  | .usage =>
    IO.eprintln usage
    return 2
  | .failed cause =>
    IO.eprintln (String.ofList cause.message)
    return 1
  | exit =>
    IO.eprintln (String.ofList exit.word)
    return 1

end CommandLine
end HaxeBindings

/-- Runs the command. -/
def main (args : List String) : IO UInt32 :=
  HaxeBindings.CommandLine.perform (args.map String.toList)
