import HaxeBindings.Proofs.Mapping.Failures
import HaxeBindings.Proofs.Mapping.Shape
import HaxeBindings.Proofs.Schema.Arity
import HaxeBindings.Proofs.TypeExpr.Nodes

/-!
# Which types are mapped

With complete options a mapping looks at nothing it could fail for but the arity
markers of names, and it reads those of the names without arguments only.  Of these
some are never reached: the arguments of a core type, and those of a base that is
erased.  The names that are left are the *bare names* of an expression, and the
mapping of it fails exactly as reading their markers one after the other does
(`outcome_mapExpr`).

* `HasReadableArity` says when one marker can be read, so it decides which texts the
  default mapping maps (`map_isOk_iff`); the arity index has no say in that;
* a text that is mapped is never mapped to the empty text, since the names of
  parameters and the words of the vocabulary are not empty (`ne_nil_of_mapExpr`).
-/

namespace HaxeBindings

open Text Schema

/-! ## Outcomes -/

section

variable {α β ε : Type}

/-- Whether a computation returns, and what it fails for. -/
def outcome (x : Except ε α) : Except ε Unit := x.map fun _ => ()

theorem outcome_eq_ok_iff {x : Except ε α} : outcome x = .ok () ↔ ∃ a, x = .ok a := by
  cases x with
  | error e => exact iff_of_false nofun not_exists_ok
  | ok a => exact iff_of_true rfl ⟨a, rfl⟩

theorem outcome_eq_error_iff {x : Except ε α} {e : ε} : outcome x = .error e ↔ x = .error e := by
  cases x with
  | error e' => rw [outcome, Except.map, Except.error.injEq, Except.error.injEq]
  | ok a => exact iff_of_false nofun nofun

/-- A sequence comes to what its parts come to. -/
theorem outcome_bind {x : Except ε α} {f : α → Except ε β} {y : Except ε Unit}
    (h : ∀ a, outcome (f a) = y) : outcome (x >>= f) = outcome x >>= fun _ => y := by
  cases x with
  | error e => rfl
  | ok a => exact h a

/-- What always returns adds nothing to the outcome. -/
theorem outcome_bind_ok {x : Except ε α} {f : α → Except ε β} (h : ∀ a, ∃ b, f a = .ok b) :
    outcome (x >>= f) = outcome x := by
  cases x with
  | error e => rfl
  | ok a => exact outcome_eq_ok_iff.mpr (h a)

theorem outcome_mapM_append {f : α → Except ε β} (xs ys : List α) :
    outcome ((xs ++ ys).mapM f) = outcome (xs.mapM f) >>= fun _ => outcome (ys.mapM f) := by
  rw [List.mapM_append]
  exact outcome_bind fun _ => outcome_bind_ok fun _ => ⟨_, rfl⟩

end

namespace Mapping

variable (m : Mapping)

/-- Whether the arguments of a name are left unread: a core type has none, and those of an erased
base are erased with it. -/
def hidesArguments (name : Text) : Bool :=
  (m.coreType? name).isSome || decide (m.userType name = .ok m.options.dynamicType)

mutual

/-- The names without arguments that the mapping of an expression comes to, from left to right. -/
def bareNames : TypeExpr → List Text
  | .primitive _ => []
  | .array element => bareNames element
  | .nullable inner => bareNames inner
  | .named name [] => [name]
  | .named name (first :: others) =>
    if m.hidesArguments name then [] else bareNames first ++ bareNamesOfAll others
  | .parameter _ => []
  | .unclassified => []

/-- The names without arguments that the mapping of a list of expressions comes to. -/
def bareNamesOfAll : List TypeExpr → List Text
  | [] => []
  | e :: es => bareNames e ++ bareNamesOfAll es

end

/-- Reads the arity marker of a name, as the mapping does. -/
def readMarker (name : Text) : Except MappingError (Text × Option Nat) :=
  (splitArity name).mapError .arity

variable {m}

theorem readMarker_isOk_iff {name : Text} :
    (∃ r, readMarker name = .ok r) ↔ HasReadableArity name := by
  rw [← splitArity_isOk_iff, readMarker]
  cases splitArity name with
  | error e => exact iff_of_false not_exists_ok not_exists_ok
  | ok r => exact iff_of_true ⟨r, rfl⟩ ⟨r, rfl⟩

/-- The implied arguments of a name depend on the index, and whether there are any on its marker
alone. -/
theorem outcome_impliedArity (name : Text) :
    outcome (m.impliedArity name) = outcome (readMarker name) := by
  unfold impliedArity ArityIndex.instantiationArity? readMarker
  cases splitArity name with
  | error e => rfl
  | ok r => rfl

mutual

/-- **A mapping fails exactly as reading the markers of the bare names does.** -/
theorem outcome_mapExpr (h : m.options.IsComplete) :
    ∀ e : TypeExpr, outcome (m.mapExpr e) = outcome ((m.bareNames e).mapM readMarker)
  | .primitive _ => rfl
  | .parameter _ => rfl
  | .array element => by
    rw [mapExpr, bareNames]
    exact (outcome_bind_ok fun _ => ⟨_, rfl⟩).trans (outcome_mapExpr h element)
  | .nullable inner => by
    rw [mapExpr, bareNames]
    exact (outcome_bind_ok fun _ => ⟨_, rfl⟩).trans (outcome_mapExpr h inner)
  | .named name [] => by
    have hread : outcome ([name].mapM readMarker) = outcome (readMarker name) := by
      rw [List.mapM_cons]
      exact outcome_bind_ok fun _ => ⟨_, rfl⟩
    rw [mapExpr, bareNames, hread, ← outcome_impliedArity (m := m)]
    refine outcome_bind_ok fun arity => ?_
    obtain ⟨base, hbase⟩ := exists_userType h name
    cases m.coreType? name with
    | some t => exact ⟨t, rfl⟩
    | none =>
      rw [hbase]
      exact ⟨_, rfl⟩
  | .named name (first :: others) => by
    obtain ⟨base, hbase⟩ := exists_userType h name
    rw [mapExpr, bareNames, hidesArguments, hbase]
    cases m.coreType? name with
    | some t => rfl
    | none =>
      by_cases hdynamic : base = m.options.dynamicType
      · rw [if_pos (by simp [hdynamic])]
        show outcome (if base = m.options.dynamicType then _ else _) = _
        rw [if_pos hdynamic]
        rfl
      · rw [if_neg (by simp [hdynamic]), outcome_mapM_append, ← outcome_mapExpr h first,
          ← outcome_mapExprs h others]
        show outcome (if base = m.options.dynamicType then _ else _) = _
        rw [if_neg hdynamic]
        exact outcome_bind fun _ => outcome_bind_ok fun _ => ⟨_, rfl⟩
  | .unclassified => rfl

theorem outcome_mapExprs (h : m.options.IsComplete) :
    ∀ es : List TypeExpr, outcome (m.mapExprs es) = outcome ((m.bareNamesOfAll es).mapM readMarker)
  | [] => rfl
  | e :: es => by
    rw [mapExprs, bareNamesOfAll, outcome_mapM_append, ← outcome_mapExpr h e,
      ← outcome_mapExprs h es]
    exact outcome_bind fun _ => outcome_bind_ok fun _ => ⟨_, rfl⟩

end

/-! ## Nothing is mapped to the empty text -/

theorem parameterIdentifier_ne_nil {name : Text} (h : NamesParameter name) :
    TypeExpr.parameterIdentifier name ≠ [] := by
  unfold TypeExpr.parameterIdentifier
  split
  · exact TypeExpr.ne_nil_of_namesParameter h
  · next hname => exact TypeExpr.ne_nil_of_namesParameter (.inl (h.resolve_left hname))

/-- With a vocabulary of words that are not empty, nothing that is read is mapped to nothing. -/
theorem ne_nil_of_mapExpr (hwords : ∀ word ∈ m.options.vocabulary, word ≠ []) {e : TypeExpr}
    (he : e.IsWellNamed m.options.vocabulary) {u : Text} (hu : m.mapExpr e = .ok u) : u ≠ [] := by
  rcases mapExpr_eq_ok hu with
    hword | rfl | ⟨name, rfl, rfl⟩ | ⟨package, identifier, rfl⟩ | ⟨base, ts, rfl⟩
  · exact hwords u hword
  · exact hwords u he
  · exact parameterIdentifier_ne_nil he.2
  · exact List.append_ne_nil_of_right_ne_nil _ (List.cons_ne_nil _ _)
  · exact List.append_ne_nil_of_right_ne_nil _ (List.cons_ne_nil _ _)

/-! ## The default mapping -/

/-- **The default mapping maps the texts whose bare names have readable arity markers.**  It gives
them a type that is not empty, whatever the arity index knows.  Every other text fails, and it fails
for the first marker in it that cannot be read. -/
theorem map_isOk_iff (index : ArityIndex) (text : Text) :
    let m : Mapping := ⟨index, {}⟩
    ((∃ u, m.map text = .ok u ∧ u ≠ []) ↔
      ∀ name ∈ m.bareNames (m.parse text), HasReadableArity name) ∧
    (∀ u, m.map text = .ok u → u ≠ []) ∧
    ∀ e, m.map text = .error e ↔ (m.bareNames (m.parse text)).mapM readMarker = .error e := by
  intro m
  have houtcome : outcome (m.map text) = outcome ((m.bareNames (m.parse text)).mapM readMarker) :=
    outcome_mapExpr Options.isComplete_default (m.parse text)
  have hwords : ∀ word ∈ m.options.vocabulary, word ≠ [] := by
    show ∀ word ∈ ({} : Options).vocabulary, word ≠ []
    decide
  have hne : ∀ u, m.map text = .ok u → u ≠ [] := fun u hu =>
    ne_nil_of_mapExpr hwords (TypeExpr.isWellNamed_ofShape _ text) hu
  have hmaps : (∃ u, m.map text = .ok u ∧ u ≠ []) ↔ ∃ u, m.map text = .ok u :=
    exists_congr fun u => and_iff_left_of_imp (hne u)
  refine ⟨?_, hne, fun e => ?_⟩
  · rw [hmaps, ← outcome_eq_ok_iff, houtcome, outcome_eq_ok_iff, mapM_isOk_iff]
    exact forall₂_congr fun _ _ => readMarker_isOk_iff
  · rw [← outcome_eq_error_iff, houtcome, outcome_eq_error_iff]

/-- A superscript in the marker of an erased type with arguments is no obstacle, and neither is a
number of parameters that the index does not know. -/
theorem map_isOk_iff_map :
    let m : Mapping := ⟨{}, {}⟩
    let text := "Sandbox.Map".toList ++ arityMark :: "2<System.Task".toList ++
      arityMark :: Char.ofNat 0xB2 :: "<T>,Sandbox.Cache".toList ++ arityMark :: "7>".toList
    let cache := "Sandbox.Cache".toList ++ [arityMark, '7']
    m.bareNames (m.parse text) = [cache] ∧ HasReadableArity cache ∧
      m.map text = .ok "sbox.Map<Dynamic,sbox.Cache>".toList ∧
      ∃ u, m.map text = .ok u ∧ u ≠ [] := by
  intro m text cache
  have hnames : m.bareNames (m.parse text) = [cache] := by decide +kernel
  have hcache : HasReadableArity cache := by decide +kernel
  refine ⟨hnames, hcache, by decide +kernel, (map_isOk_iff {} text).1.mpr fun name hname => ?_⟩
  rw [hnames] at hname
  rw [List.mem_singleton.mp hname]
  exact hcache

/-- **A superscript behind the arity mark of a bare name fails the mapping**, although the type
would be erased. -/
theorem map_superscript :
    let superscript := Char.ofNat 0xB2
    (⟨{}, {}⟩ : Mapping).map ("System.Pool".toList ++ [arityMark, superscript]) =
      .error (.arity (.notPositional [superscript])) := by
  decide +kernel

end Mapping
end HaxeBindings
