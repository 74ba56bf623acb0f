import HaxeBindings.Name.Identifier

/-!
# Parameter names of one signature

The parameters of one signature need different names.  The first request for a
name gets it; later ones get it with a number appended, from 2 upwards.  A number
that another parameter has taken by its own name is passed over.

For every base the state remembers the number to try next, so numbers that were
tried before are not tried again.  `nextFree` searches upwards from there; as many
attempts as there are used names, and one more, always meet a free one.
-/

namespace HaxeBindings

open Text Name

/-- The names handed out so far, and the next number to try for each base. -/
structure ParameterNames where
  used : List Text := []
  counters : List (Text × Nat) := []
  deriving DecidableEq

namespace ParameterNames

/-- The name a parameter asks for: its own, or `arg` and its position when it has none. -/
def requested (raw : Text) (index : Int) : Text :=
  let name := strip raw
  memberIdentifier (if name.isEmpty then "arg".toList ++ ofInt index else name)

/-- The numbered variant of a base name. -/
def numbered (base : Text) (n : Nat) : Text := base ++ ofNat n

/-- The first number from `n` on, within the given attempts, whose variant is not used. -/
def nextFree (used : List Text) (base : Text) : Nat → Nat → Nat
  | 0, n => n
  | attempts + 1, n =>
    if numbered base n ∈ used then nextFree used base attempts (n + 1) else n

/-- The next number to try for a base. -/
def counter (s : ParameterNames) (base : Text) : Nat := (s.counters.lookup base).getD 2

/-- Records a name as used, and the next number for its base. -/
def record (s : ParameterNames) (base name : Text) (next : Nat) : ParameterNames :=
  ⟨name :: s.used, (base, next) :: s.counters⟩

/-- Hands out a name for the parameter `raw` at position `index`. -/
def allocate (s : ParameterNames) (raw : Text) (index : Int) : Text × ParameterNames :=
  let base := requested raw index
  if base ∈ s.used then
    let n := nextFree s.used base (s.used.length + 1) (s.counter base)
    (numbered base n, s.record base (numbered base n) (n + 1))
  else (base, s.record base base (s.counter base))

/-- The names for a list of requests, one after the other. -/
def allocateAll (s : ParameterNames) : List (Text × Int) → List Text
  | [] => []
  | (raw, index) :: rest =>
    (s.allocate raw index).1 :: allocateAll (s.allocate raw index).2 rest

@[simp] theorem allocateAll_nil (s : ParameterNames) : s.allocateAll [] = [] := rfl

@[simp] theorem length_allocateAll (s : ParameterNames) (requests : List (Text × Int)) :
    (s.allocateAll requests).length = requests.length := by
  induction requests generalizing s with
  | nil => rfl
  | cons r rest ih => simp [allocateAll, ih]

end ParameterNames
end HaxeBindings
