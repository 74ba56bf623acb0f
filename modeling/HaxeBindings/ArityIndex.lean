import HaxeBindings.Descriptor
import HaxeBindings.Sorted

/-!
# The arity index

Some metadata mention a generic type by its bare name.  The index records, for
each base name, with how many parameters the catalog defines it, and answers two
questions about an occurrence without arguments: how many arguments an *upgrade*
gives it (`chooseArity?`), and how many the mapping fills in
(`instantiationArity?`).

Only definitions are recorded, under the name in front of the arity mark.  The
arities of a base are kept in ascending order, and a base without arities is not
in the index.
-/

namespace HaxeBindings

open Text Schema

/-- The known arities of every base name, ascending. -/
structure ArityIndex where
  entries : List (Text × List Int) := []
  deriving DecidableEq

namespace ArityIndex

/-- The arities in ascending order, each once. -/
def normalize (arities : List Int) : List Int :=
  Sorted.ofList (fun a b => decide (a ≤ b)) arities

/-- The index with the given arities; bases without arities are left out. -/
def ofEntries (entries : List (Text × List Int)) : ArityIndex :=
  ⟨(entries.filter fun e => !e.2.isEmpty).map fun e => (e.1, normalize e.2)⟩

/-- Records one more arity of a base. -/
def add (base : Text) (arity : Int) : List (Text × List Int) → List (Text × List Int)
  | [] => [(base, [arity])]
  | (b, arities) :: rest =>
    if b = base then (b, arities ++ [arity]) :: rest else (b, arities) :: add base arity rest

/-- The definition a descriptor contributes: its base and its number of parameters. -/
def definition? (d : Descriptor) : Except DigitsError (Option (Text × Int)) :=
  if d.isGenericDefinition then do
    let (base, _) ← splitArity d.baseName
    return if base.isEmpty then none else some (base, d.genericParameters.length)
  else return none

/-- The index of the generic definitions in a list of descriptors. -/
def ofTypes (types : List Descriptor) : Except DigitsError ArityIndex := do
  let definitions ← types.mapM definition?
  return ofEntries ((definitions.filterMap id).foldl (fun es d => add d.1 d.2 es) [])

variable (index : ArityIndex)

/-- The known arities of a base. -/
def arities (base : Text) : List Int := (index.entries.lookup base).getD []

/-- Whether a base is known. -/
def knows (base : Text) : Bool := (index.entries.lookup base).isSome

/-- The number of known bases. -/
def size : Nat := index.entries.length

/-- The arity an upgrade gives to a bare occurrence inside a method with `generics` generic
parameters: that number when it is known for the base, and the smallest known arity otherwise. -/
def chooseArity? (base : Text) (generics : Int) : Option Int :=
  let known := index.arities base
  if 0 < generics ∧ generics ∈ known then some generics else known.head?

/-- The number of arguments an occurrence without arguments stands for.  An arity marker has to be
known for the base; a bare name takes the smallest known arity. -/
def instantiationArity? (name : Text) : Except DigitsError (Option Int) := do
  let (base, marker) ← splitArity name
  let known := index.arities base
  return match marker with
    | none => known.head?
    | some arity => if (arity : Int) ∈ known then some (arity : Int) else none

@[simp] theorem arities_empty (base : Text) : ({} : ArityIndex).arities base = [] := rfl

@[simp] theorem chooseArity?_empty (base : Text) (generics : Int) :
    ({} : ArityIndex).chooseArity? base generics = none := by
  simp [chooseArity?]

end ArityIndex
end HaxeBindings
