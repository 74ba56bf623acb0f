import HaxeBindings.CommandLine.Arguments
import HaxeBindings.Generation.Files

/-!
# Executing the command

The command generates the externs of one dump and reports the counts and the
output root.  Log lines from `info` upwards go to the error stream, and those of
every level when the run is verbose.  Wrong arguments, a dump that does not exist
and a document that is no dump end the command with a word to its user; all other
failures are failures of the run.

## Settings without a value

A setting without a value is a failure at the step that needs it: the extension
before the dump is read, the root namespace when types are selected, and the
output root when it is made.

The output root is read as a path at once, so an empty one is the current
directory and not a blank root.
-/

namespace HaxeBindings
namespace CommandLine

open Text

/-- How the command ends. -/
inductive Exit where
  | success
  | help
  | usage
  | missingDump (path : Text)
  | invalidDump (cause : Text)
  | failed (cause : Failure)
  deriving DecidableEq

namespace Exit

/-- What the command tells its user when it ends without a run. -/
def word : Exit → Text
  | missingDump path => "missing input file: ".toList ++ path
  | invalidDump cause => "invalid reflection dump: ".toList ++ cause
  | _ => []

end Exit

/-- What a run of the command leaves. -/
structure Execution where
  exit : Exit
  /-- What is printed. -/
  report : Option Text := none
  /-- What is logged for the user. -/
  log : List Event := []
  tree : FileTree

namespace Execution

/-- The lines that are printed.  A line feed ends a line, and no other character does. -/
def outputLines (e : Execution) : List Text := (e.report.map (pieces '\n')).getD []

/-- The lines that are logged. -/
def logLines (e : Execution) : List Text := e.log.flatMap fun event => pieces '\n' event.line

end Execution

/-- Whether an event is shown. -/
def isShown (verbose : Bool) (e : Event) : Bool := verbose || e.level != .debug

/-- How a run of generation ends the command. -/
def exitOf : Except Failure Summary → Exit
  | .ok _ => .success
  | .error (.notADump path cause) => .invalidDump (Failure.notADump path cause).message
  | .error cause => .failed cause

/-- What a run of generation prints. -/
def reportOf : Except Failure Summary → Option Text
  | .ok summary => some summary.describe
  | .error _ => none

/-- The run that the arguments ask for. -/
def runOf (limits : Limits) (a : Arguments) (dump : Path) (tree : FileTree) : Run :=
  match a.extension, a.rootNamespace, a.out with
  | none, _, _ => ⟨.error (.noValue .extension), [], tree⟩
  | some _, none, _ =>
    withCatalog limits dump tree fun catalog =>
      ⟨.error (.noValue .rootNamespace), catalog.log, tree⟩
  | some _, some root, none =>
    withCatalog limits dump tree fun catalog =>
      ⟨.error (.noValue .out), (Catalog.exported root dump catalog).log, tree⟩
  | some extension, some root, some out =>
    generateFromDump limits (a.options root extension) dump (Path.ofText out).text tree

/-- Runs the command with arguments that were read. -/
def run (limits : Limits) (a : Arguments) (dump : Path) (tree : FileTree) : Execution :=
  if tree.pathExists dump then
    let r := runOf limits a dump tree
    { exit := exitOf r.result
      report := reportOf r.result
      log := r.log.filter (isShown a.verbose)
      tree := r.tree }
  else { exit := .missingDump dump.text, tree }

/-- Executes the command. -/
def execute (limits : Limits) (args : List Text) (tree : FileTree) : Execution :=
  match Arguments.read args with
  | .error .help => { exit := .help, tree }
  | .error .usage => { exit := .usage, tree }
  | .ok (a, dump) => run limits a (Path.ofText dump) tree

end CommandLine
end HaxeBindings
