import HaxeBindings.Files.Path

/-!
# The file tree

Generation reads and writes a tree of directories and files.  A place in it is a
`Location`: the names from the current directory or from the root, with double
dots resolved.  Double dots in front of a relative location lead out of the
current directory, and the directories up there exist.

## Walking

A path is walked name by name from its anchor, and every name but the last has to
be a directory: a missing one is `notFound`, a file `notADirectory`.  Double dots
are resolved on the way, so `a/../b` needs the directory `a`.

## Making directories

`makeDirectories` makes a directory and the missing ones above it, and accepts a
directory that is there already.  It tries the directory first; only when
something above it is missing does it make the parent and try again.  Directories
made before a failure stay.

## Refusals

The system may refuse an access for reasons that are not in the tree: it gives no
permission, the name is too long, there is no space left, or a name or a text cannot
be encoded.  So a tree comes with a function that says which accesses are refused;
without one, none is.  A path may be refused before it is walked, and the making of a
directory or the writing of a file after that, when nothing in the tree is in the
way.  What is refused is taken to change nothing, although a file may be emptied by
the system before its new text turns out not to be encodable.
-/

namespace HaxeBindings

open Text

/-- Why the system refuses an access. -/
inductive Refusal where
  | permission
  | nameTooLong
  | noSpace
  /-- A name or a text cannot be encoded. -/
  | unencodable
  deriving DecidableEq

/-- Why an access to the file tree fails. -/
inductive FileError where
  | alreadyExists
  | notFound
  | notADirectory
  | isADirectory
  /-- The path holds a character that ends a path. -/
  | badCharacter
  | refused (cause : Refusal)
  deriving DecidableEq

/-- A place in the file tree. -/
structure Location where
  absolute : Bool := false
  names : List Text := []
  deriving DecidableEq

namespace Location

/-- The double dot. -/
def up : Text := ['.', '.']

/-- The place that a name leads to. -/
def child (l : Location) (name : Text) : Location :=
  if name = up then
    match l.names.getLast? with
    | none => if l.absolute then l else { l with names := [up] }
    | some last =>
      if last = up then { l with names := l.names ++ [up] }
      else { l with names := l.names.dropLast }
  else { l with names := l.names ++ [name] }

/-- The place a path starts from. -/
def ofAnchor (a : Anchor) : Location := { absolute := a ≠ .current }

/-- Whether the place is the current directory, the root or above the current directory. -/
def isGiven (l : Location) : Bool := l.names.all (· == up)

end Location

/-- What a file holds: text, or bytes that are no text. -/
inductive Content where
  | text (t : Text)
  | binary (bytes : List UInt8)
  deriving DecidableEq

namespace Content

/-- The content with the given bytes. -/
def ofBytes (bytes : ByteArray) : Content :=
  match String.fromUTF8? bytes with
  | some s => .text s.toList
  | none => .binary bytes.toList

end Content

/-- What the system may refuse. -/
inductive Access where
  | walk (p : Path)
  | make (l : Location)
  | write (l : Location) (t : Text)
  /-- The content of the file is asked for. -/
  | load (p : Path)

/-- Directories and files with their contents, and what the system refuses. -/
structure FileTree where
  directories : List Location := []
  files : List (Location × Content) := []
  refusal? : Access → Option Refusal := fun _ => none

namespace FileTree

variable (tree : FileTree)

/-- Whether there is a directory at a place. -/
def isDirectory (l : Location) : Bool := l.isGiven || tree.directories.contains l

/-- The file at a place. -/
def file? (l : Location) : Option Content := tree.files.lookup l

/-- Whether there is anything at a place. -/
def occupied (l : Location) : Bool := tree.isDirectory l || (tree.file? l).isSome

/-- Walks from a directory through names that have to be directories. -/
def walk (l : Location) : List Text → Except FileError Location
  | [] => .ok l
  | name :: rest =>
    let next := l.child name
    if tree.isDirectory next then walk next rest
    else if (tree.file? next).isSome then .error .notADirectory
    else .error .notFound

/-- Why a path is not walked at all. -/
def barrier? (p : Path) : Option FileError :=
  if p.names.any (·.contains (Char.ofNat 0)) then some .badCharacter
  else (tree.refusal? (.walk p)).map .refused

/-- The place of a path whose names but the last are directories. -/
def locate (p : Path) : Except FileError Location :=
  match tree.barrier? p with
  | some e => .error e
  | none =>
    match p.names.getLast? with
    | none => .ok (.ofAnchor p.anchor)
    | some last => (tree.walk (.ofAnchor p.anchor) p.names.dropLast).map (·.child last)

/-- Whether a path leads to anything. -/
def pathExists (p : Path) : Bool :=
  match tree.locate p with
  | .ok l => tree.occupied l
  | .error _ => false

/-- Whether a path leads to a directory. -/
def isDirectoryPath (p : Path) : Bool :=
  match tree.locate p with
  | .ok l => tree.isDirectory l
  | .error _ => false

/-- Makes one directory in a directory that exists. -/
def makeDirectory (p : Path) : Except FileError FileTree :=
  match tree.locate p with
  | .error e => .error e
  | .ok l =>
    if tree.occupied l then .error .alreadyExists
    else match tree.refusal? (.make l) with
      | some cause => .error (.refused cause)
      | none => .ok { tree with directories := tree.directories ++ [l] }

/-- Makes one directory, or accepts the one that is there. -/
def ensureDirectory (p : Path) : Except FileError FileTree :=
  match tree.makeDirectory p with
  | .ok t => .ok t
  | .error e => if e = .alreadyExists ∧ tree.isDirectoryPath p then .ok tree else .error e

end FileTree

/-- A file tree after an operation, with the error that ended the operation. -/
structure FileTree.Change where
  tree : FileTree
  error : Option FileError := none

namespace FileTree

/-- The tree an attempt leads to, which is the old one when it fails. -/
def attempt (tree : FileTree) : Except FileError FileTree → Change
  | .ok t => ⟨t, none⟩
  | .error e => ⟨tree, some e⟩

/-- Makes the directory with the given names, last one first, and those above it. -/
def makeDirectoriesFrom (tree : FileTree) (anchor : Anchor) : List Text → Change
  | [] => tree.attempt (tree.ensureDirectory ⟨anchor, []⟩)
  | name :: above =>
    let p : Path := ⟨anchor, (name :: above).reverse⟩
    match tree.ensureDirectory p with
    | .error .notFound =>
      let made := makeDirectoriesFrom tree anchor above
      match made.error with
      | some _ => made
      | none => made.tree.attempt (made.tree.ensureDirectory p)
    | result => tree.attempt result

/-- Makes a directory and the missing ones above it. -/
def makeDirectories (tree : FileTree) (p : Path) : Change :=
  tree.makeDirectoriesFrom p.anchor p.names.reverse

/-- Puts a file at a place. -/
def put (tree : FileTree) (l : Location) (c : Content) : FileTree :=
  { tree with files := (l, c) :: tree.files.filter fun f => f.1 ≠ l }

/-- Writes a text file, in place of the one that is there. -/
def write (tree : FileTree) (p : Path) (t : Text) : Except FileError FileTree :=
  match tree.locate p with
  | .error e => .error e
  | .ok l =>
    if tree.isDirectory l then .error .isADirectory
    else match tree.refusal? (.write l t) with
      | some cause => .error (.refused cause)
      | none => .ok (tree.put l (.text t))

/-- The content of the file that a path leads to. -/
def read (tree : FileTree) (p : Path) : Except FileError Content :=
  match tree.locate p with
  | .error e => .error e
  | .ok l =>
    if tree.isDirectory l then .error .isADirectory
    else match tree.file? l with
      | some c => .ok c
      | none => .error .notFound

/-- Reads the content of a file, if the system lets it be read. -/
def load (tree : FileTree) (p : Path) : Except FileError Content :=
  match tree.read p, tree.refusal? (.load p) with
  | .ok _, some cause => .error (.refused cause)
  | result, _ => result

@[simp] theorem attempt_ok (tree t : FileTree) : tree.attempt (.ok t) = ⟨t, none⟩ := rfl

@[simp] theorem attempt_error (tree : FileTree) (e : FileError) :
    tree.attempt (.error e) = ⟨tree, some e⟩ := rfl

theorem barrier?_eq_none_iff {tree : FileTree} {p : Path} :
    tree.barrier? p = none ↔
      (∀ name ∈ p.names, Char.ofNat 0 ∉ name) ∧ tree.refusal? (.walk p) = none := by
  unfold barrier?
  split
  · next hends =>
    obtain ⟨name, hname, hmem⟩ := List.any_eq_true.mp hends
    exact iff_of_false nofun fun h => h.1 name hname (List.contains_iff_mem.mp hmem)
  · next hplain =>
    have hnames : ∀ name ∈ p.names, Char.ofNat 0 ∉ name := fun name hname hmem =>
      hplain (List.any_eq_true.mpr ⟨name, hname, List.contains_iff_mem.mpr hmem⟩)
    rw [Option.map_eq_none_iff, and_iff_right hnames]

theorem file?_put (tree : FileTree) (l k : Location) (c : Content) :
    (tree.put l c).file? k = if k = l then some c else tree.file? k := by
  have h : ∀ fs : List (Location × Content), k ≠ l →
      (fs.filter fun f => f.1 ≠ l).lookup k = fs.lookup k := by
    intro fs hk
    induction fs with
    | nil => rfl
    | cons f fs ih =>
      obtain ⟨a, b⟩ := f
      by_cases ha : a = l
      · subst ha
        have hka : (k == a) = false := by simpa using hk
        rw [List.filter_cons_of_neg (by simp), ih, List.lookup_cons, hka]
      · rw [List.filter_cons_of_pos (by simpa using ha), List.lookup_cons, List.lookup_cons, ih]
  unfold put file?
  by_cases hk : k = l
  · subst hk; simp
  · have hkl : (k == l) = false := by simpa using hk
    rw [List.lookup_cons, hkl, if_neg hk]
    exact h tree.files hk

end FileTree
end HaxeBindings
