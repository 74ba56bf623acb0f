import HaxeBindings.Mapping

/-!
# What a mapping fails for

A mapping needs a default type name and a root package only where a name leaves
nothing to write.  With a default that is not empty and a root package that has a
name there is always something, and the one reason left is an arity marker that
cannot be read (`failsByArity_map`).  The default options are of this kind.
-/

namespace HaxeBindings

open Text Schema Name

/-- The options name a root package and a default type. -/
structure Options.IsComplete (o : Options) : Prop where
  rootPackage : o.rootPackage.isSome = true
  defaultTypeName : o.defaultTypeName ≠ []

theorem Options.isComplete_default : ({} : Options).IsComplete := ⟨rfl, List.cons_ne_nil _ _⟩

/-- A computation that fails for nothing but an arity marker that cannot be read. -/
def FailsByArity {α : Type} (x : Except MappingError α) : Prop :=
  ∀ e, x = .error e → ∃ cause, e = .arity cause

namespace FailsByArity

variable {α β : Type}

theorem ok (a : α) : FailsByArity (.ok a) := fun _ h => nomatch h

theorem bind {x : Except MappingError α} {f : α → Except MappingError β} (hx : FailsByArity x)
    (hf : ∀ a, FailsByArity (f a)) : FailsByArity (x >>= f) := by
  intro e he
  cases x with
  | error e' =>
    have hfirst : (Except.error e' : Except MappingError β) = .error e := he
    exact hx e (congrArg Except.error (Except.error.inj hfirst))
  | ok a => exact hf a e he

end FailsByArity

namespace Mapping

variable {m : Mapping}

theorem exists_userType (h : m.options.IsComplete) (name : Text) :
    ∃ u, m.userType name = .ok u := by
  unfold userType
  rw [if_neg (by simp [Package.isUnnamable_of_named h.rootPackage])]
  split
  · exact ⟨_, rfl⟩
  · have hsome := isSome_typeIdentifier? h.defaultTypeName (simpleName name)
    split
    · next hnone => simp [hnone] at hsome
    · exact ⟨_, rfl⟩

theorem failsByArity_userType (h : m.options.IsComplete) (name : Text) :
    FailsByArity (m.userType name) := by
  obtain ⟨u, hu⟩ := exists_userType h name
  rw [hu]
  exact .ok u

theorem failsByArity_impliedArity (name : Text) : FailsByArity (m.impliedArity name) := by
  unfold impliedArity
  split
  · next cause _ =>
    intro e he
    exact ⟨cause, (Except.error.inj he).symm⟩
  · exact .ok _

mutual

theorem failsByArity_mapExpr (h : m.options.IsComplete) :
    ∀ e : TypeExpr, FailsByArity (m.mapExpr e)
  | .primitive keyword => .ok keyword
  | .parameter name => .ok _
  | .array element => (failsByArity_mapExpr h element).bind fun _ => .ok _
  | .nullable inner => (failsByArity_mapExpr h inner).bind fun _ => .ok _
  | .named name [] => by
    rw [mapExpr]
    refine (failsByArity_impliedArity name).bind fun arity => ?_
    split
    · exact .ok _
    · exact (failsByArity_userType h name).bind fun _ => .ok _
  | .named name (first :: others) => by
    rw [mapExpr]
    split
    · exact .ok _
    · refine (failsByArity_userType h name).bind fun base => ?_
      split
      · exact .ok _
      · exact (failsByArity_mapExpr h first).bind fun _ =>
          (failsByArity_mapExprs h others).bind fun _ => .ok _
  | .unclassified => .ok _

theorem failsByArity_mapExprs (h : m.options.IsComplete) :
    ∀ es : List TypeExpr, FailsByArity (m.mapExprs es)
  | [] => .ok []
  | e :: es => (failsByArity_mapExpr h e).bind fun _ =>
    (failsByArity_mapExprs h es).bind fun _ => .ok _

end

/-- **With complete options a mapping fails only for an arity that cannot be read.** -/
theorem failsByArity_map (h : m.options.IsComplete) (text : Text) : FailsByArity (m.map text) :=
  failsByArity_mapExpr h (m.parse text)

end Mapping
end HaxeBindings
