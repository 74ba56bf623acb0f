import HaxeBindings.Generation.Pipeline

/-!
# Writing extern files

A run makes its output root, renders everything, and only then writes the files
one after the other.  Two externs may have the same path; the later one replaces
the earlier, and the replacement is reported.  The first access that fails ends
the run, and what was written before stays.

`Written` is the state between two files: the tree, and for every path written so
far the extern it holds, in the order of their first writing.
-/

namespace HaxeBindings

open Text

/-- What has been written so far. -/
structure Written where
  tree : FileTree
  /-- The native name of the extern at each path. -/
  owners : List (Path × Text) := []
  log : List Event := []

namespace Written

/-- Makes `name` the owner of a path: in place when the path has one, and at the end otherwise. -/
def own (path : Path) (name : Text) : List (Path × Text) → List (Path × Text)
  | [] => [(path, name)]
  | (p, n) :: rest => if p = path then (p, name) :: rest else (p, n) :: own path name rest

/-- The report on an extern that replaces another. -/
def replacementNote (w : Written) (path : Path) (name : Text) : List Event :=
  match w.owners.lookup path with
  | some previous => [.overwritten name previous path.text]
  | none => []

/-- Makes the directory of a file and writes the file. -/
def place (tree : FileTree) (path : Path) (t : Text) : FileTree.Change :=
  let made := tree.makeDirectories path.parent
  match made.error with
  | some _ => made
  | none => made.tree.attempt (made.tree.write path t)

/-- Writes one extern to its path. -/
def add (w : Written) (path : Path) (r : Rendered) : Written × Option FileError :=
  let log := w.log ++ w.replacementNote path r.nativeName
  let placed := place w.tree path r.text
  match placed.error with
  | some e => ({ w with tree := placed.tree, log }, some e)
  | none => (⟨placed.tree, own path r.nativeName w.owners, log⟩, none)

/-- Writes externs in order, up to the first access that fails. -/
def addAll (root : Path) (extension : Text) (w : Written) :
    List Rendered → Written × Option FileError
  | [] => (w, none)
  | r :: rest =>
    match w.add (r.outputPath root extension) r with
    | (w, some e) => (w, some e)
    | (w, none) => addAll root extension w rest

end Written

/-- What a run has written. -/
structure Summary where
  root : Path
  typeCount : Nat
  memberCount : Nat
  written : List Path
  deriving DecidableEq

namespace Summary

/-- The two lines that report a run to its user. -/
def lines (s : Summary) : List Text :=
  ["Done. Types: ".toList ++ ofNat s.typeCount ++ ", Members: ".toList ++ ofNat s.memberCount,
    s.root.text]

/-- The report of a run to its user. -/
def describe (s : Summary) : Text := join ['\n'] s.lines

/-- The summary of the externs that were written. -/
def ofExterns (root : Path) (externs : List Rendered) (w : Written) : Summary :=
  ⟨root, externs.length, externs.foldr (fun r n => r.memberCount + n) 0, w.owners.map Prod.fst⟩

end Summary

/-- What a run comes to, with the file tree it leaves. -/
structure Run where
  result : Except Failure Summary
  log : List Event := []
  tree : FileTree

namespace Run

/-- Adds events in front of those of a run. -/
def after (events : List Event) (r : Run) : Run := { r with log := events ++ r.log }

end Run

/-- Writes rendered externs below a root that has been made. -/
def writeExterns (o : Options) (root : Path) (tree : FileTree)
    (rendered : Outcome (List Rendered)) : Run :=
  match rendered.result with
  | .error e => ⟨.error e, rendered.log, tree⟩
  | .ok externs =>
    match Written.addAll root o.extension { tree } externs with
    | (w, some e) => ⟨.error (.file e), rendered.log ++ w.log, w.tree⟩
    | (w, none) =>
      let summary := Summary.ofExterns root externs w
      ⟨.ok summary, rendered.log ++ w.log ++ [.finished summary.typeCount summary.memberCount],
        w.tree⟩

/-- Generates the externs of descriptors below the output root that `out` names. -/
def generate (o : Options) (types : List Descriptor) (out : Text) (tree : FileTree) : Run :=
  if isBlankText out then ⟨.error .blankRoot, [], tree⟩
  else
    let root := Path.ofText out
    let made := tree.makeDirectories root
    match made.error with
    | some e => ⟨.error (.file e), [], made.tree⟩
    | none => writeExterns o root made.tree (renderTypes o types)

/-- Goes on with the catalog of a dump.  A dump that cannot be read ends the run. -/
def withCatalog (limits : Limits) (dump : Path) (tree : FileTree)
    (next : Logged (List Catalog.Assembly) → Run) : Run :=
  let loaded := Catalog.load limits tree dump
  match loaded.result with
  | .error e => ⟨.error e, loaded.log, tree⟩
  | .ok catalog => next ⟨catalog, loaded.log⟩

/-- The descriptors of the exportable types in the catalog of a dump. -/
def Catalog.exported (root : Text) (dump : Path) (catalog : Logged (List Catalog.Assembly)) :
    Logged (List Descriptor) :=
  let selected := Catalog.select root catalog.value
  ⟨Catalog.describeAll selected.value,
    catalog.log ++ selected.log ++ [.exportable dump.text selected.value.length]⟩

/-- Generates the externs of the exportable types in a dump, below the output root that `out`
names. -/
def generateFromDump (limits : Limits) (o : Options) (dump : Path) (out : Text)
    (tree : FileTree) : Run :=
  withCatalog limits dump tree fun catalog =>
    let exported := Catalog.exported o.rootNamespace dump catalog
    (generate o exported.value out tree).after exported.log

end HaxeBindings
