import HaxeBindings.Catalog.Limited
import HaxeBindings.Files.Tree
import HaxeBindings.Mapping

/-!
# How a run fails

A run stops for a dump that cannot be read or is too deep, an arity that the index
cannot read, a class without a name, a setting without a value, a blank output root,
or the file tree.
-/

namespace HaxeBindings

open Text

/-- Why a run stopped. -/
inductive Failure where
  /-- The dump is not text. -/
  | undecodable
  | notADump (path : Text) (cause : Catalog.FormatError)
  /-- There were no calls left for reading the dump. -/
  | tooDeep (cause : Overflow)
  | unreadableNumber (cause : DigitsError)
  | noTypeName
  /-- A setting is needed and has no value. -/
  | noValue (s : Setting)
  | blankRoot
  | file (cause : FileError)
  deriving DecidableEq

namespace Failure

/-- The wording of a failure.  Failures of the file tree are worded by their owner. -/
def message : Failure → Text
  | notADump path .notJson => path ++ ": not a JSON document".toList
  | notADump _ .noAssemblies => "reflection dump must contain an 'assemblies' list".toList
  | tooDeep cause => cause.message
  | unreadableNumber cause => cause.message
  | noTypeName => "string index out of range".toList
  | noValue .extension => "'list' object has no attribute 'lstrip'".toList
  | noValue .rootNamespace => "can only concatenate list (not \"str\") to list".toList
  | noValue .out => "expected str, bytes or os.PathLike object, not list".toList
  | noValue .rootPackage => "sequence item 0: expected str instance, list found".toList
  | blankRoot => "output root must not be empty".toList
  | file .badCharacter => "embedded null byte".toList
  | undecodable | file _ => []

/-- The failure of a run that a failed mapping stops. -/
def ofMapping : MappingError → Failure
  | .arity cause => unreadableNumber cause
  | .noTypeName => noTypeName
  | .noRootPackage => noValue .rootPackage

end Failure

/-- What a run comes to, with everything it reported. -/
structure Outcome (α : Type) where
  result : Except Failure α
  log : List Event := []

namespace Outcome

/-- The outcome of a step that may run out of calls; it ran out reading a reference. -/
def ofLimited {α : Type} (x : Limited α) : Outcome α :=
  match x.value with
  | none => ⟨.error (.tooDeep .reference), x.log⟩
  | some a => ⟨.ok a, x.log⟩

end Outcome

namespace Catalog

/-- Reads a catalog from a JSON value; `path` is named in the failure. -/
def ofDump (limits : Limits) (path : Text) (dump : Json) : Outcome (List Assembly) :=
  match ofJsonWithin limits.member dump with
  | .error cause => ⟨.error (.notADump path cause), []⟩
  | .ok loaded => .ofLimited loaded

/-- Reads a catalog from the text of a dump. -/
def ofText (limits : Limits) (path t : Text) : Outcome (List Assembly) :=
  match Json.read limits.document t with
  | .error (.number cause) => ⟨.error (.unreadableNumber cause), []⟩
  | .error .malformed => ⟨.error (.notADump path .notJson), []⟩
  | .error (.tooDeep cause) => ⟨.error (.tooDeep cause), []⟩
  | .ok dump => ofDump limits path dump

/-- Reads a catalog from the content of a file. -/
def ofContent (limits : Limits) (path : Text) : Content → Outcome (List Assembly)
  | .binary _ => ⟨.error .undecodable, []⟩
  | .text t => ofText limits path t

/-- Loads a catalog from a file. -/
def load (limits : Limits) (tree : FileTree) (path : Path) : Outcome (List Assembly) :=
  match tree.load path with
  | .error e => ⟨.error (.file e), []⟩
  | .ok content => ofContent limits path.text content

end Catalog
end HaxeBindings
