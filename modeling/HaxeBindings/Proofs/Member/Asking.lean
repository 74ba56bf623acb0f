import HaxeBindings.Member.Emission
import Mathlib.Data.List.Basic

/-!
# Which types an emission asks for

Emitting a member is written once for every way of asking for types, and fails
only where asking fails.  This file separates the two: what is emitted when every
type is mapped, and which types those are.

`Asks m ts x y` says of a computation `x` that asks the mapping `m` for types that
it needs the types `ts`: when all of them are mapped it returns `y`, and when one of
them is not it fails with the error of one that is not.  Here `y` is the same
computation asking `Mapping.answer`, which always has an answer, so that `y` is
plain text and needs no error handling.

* `Asks.bind`, `Asks.mapM` --- what a sequence needs is what its parts need;
* `Asks.isOk_iff`, `Asks.exists_of_error` --- it returns exactly when the types it
  needs are mapped, and an error on the way is the error of one of them;
* `asks_methodKey`, `asks_methodLine` and the like --- the key of a member and its
  declaration need the types of the member, and nothing else.
-/

namespace HaxeBindings

open Text Schema

namespace Mapping

variable (m : Mapping)

/-- Whether a schema string is mapped. -/
def Maps (t : Text) : Prop := ∃ u, m.map t = .ok u

instance (t : Text) : Decidable (m.Maps t) :=
  match h : m.map t with
  | .ok u => .isTrue ⟨u, h⟩
  | .error _ => .isFalse fun ⟨_, hu⟩ => nomatch h.symm.trans hu

/-- The target type of a schema string; empty for one that is not mapped. -/
def answer (t : Text) : Id Text := ((m.map t).toOption).getD []

theorem map_eq_answer {m : Mapping} {t : Text} (h : m.Maps t) : m.map t = .ok (m.answer t) := by
  obtain ⟨u, hu⟩ := h
  rw [hu, answer, hu]
  rfl

theorem exists_error_of_not_maps {m : Mapping} {t : Text} (h : ¬m.Maps t) :
    ∃ e, m.map t = .error e := by
  cases hm : m.map t with
  | ok u => exact absurd ⟨u, hm⟩ h
  | error e => exact ⟨e, rfl⟩

end Mapping

/-! ## Asking -/

/-- The computation `x` needs the types `ts`: it returns `y` when all of them are mapped, and fails
with the error of one of them otherwise. -/
def Asks {α : Type} (m : Mapping) (ts : List Text) (x : Except MappingError α) (y : Id α) : Prop :=
  ((∀ t ∈ ts, m.Maps t) ∧ x = .ok y) ∨ ∃ t ∈ ts, ∃ e, m.map t = .error e ∧ x = .error e

namespace Asks

variable {α β : Type} {m : Mapping} {ts us : List Text}

theorem pure (a : α) : Asks m [] (Pure.pure a) (Pure.pure a) :=
  .inl ⟨fun _ h => absurd h List.not_mem_nil, rfl⟩

theorem map (t : Text) : Asks m [t] (m.map t) (m.answer t) := by
  by_cases h : m.Maps t
  · refine .inl ⟨?_, Mapping.map_eq_answer h⟩
    intro u hu
    rw [List.mem_singleton.mp hu]
    exact h
  · obtain ⟨e, he⟩ := Mapping.exists_error_of_not_maps h
    exact .inr ⟨t, List.mem_cons_self, e, he, he⟩

/-- Only which types are needed counts, not their order and not how often. -/
theorem congr {x : Except MappingError α} {y : Id α} (h : Asks m ts x y)
    (hmem : ∀ t, t ∈ ts ↔ t ∈ us) : Asks m us x y := by
  rcases h with ⟨hmaps, hx⟩ | ⟨t, ht, herror⟩
  · refine .inl ⟨?_, hx⟩
    intro t ht
    exact hmaps t ((hmem t).mpr ht)
  · exact .inr ⟨t, (hmem t).mp ht, herror⟩

theorem bind {x : Except MappingError α} {y : Id α} {f : α → Except MappingError β}
    {g : α → Id β} (hx : Asks m ts x y) (hf : Asks m us (f y) (g y)) :
    Asks m (ts ++ us) (x >>= f) (y >>= g) := by
  rcases hx with ⟨hts, hxy⟩ | ⟨t, ht, e, hte, hxe⟩
  · rw [hxy]
    show Asks m (ts ++ us) (f y) (g y)
    rcases hf with ⟨hus, hfy⟩ | ⟨t, ht, herror⟩
    · refine .inl ⟨?_, hfy⟩
      intro t ht
      rcases List.mem_append.mp ht with ht | ht
      · exact hts t ht
      · exact hus t ht
    · exact .inr ⟨t, List.mem_append_right ts ht, herror⟩
  · rw [hxe]
    exact .inr ⟨t, List.mem_append_left us ht, e, hte, rfl⟩

/-- A second part that needs nothing new. -/
theorem bind_within {x : Except MappingError α} {y : Id α} {f : α → Except MappingError β}
    {g : α → Id β} (hx : Asks m ts x y) (hf : Asks m us (f y) (g y)) (hus : us ⊆ ts) :
    Asks m ts (x >>= f) (y >>= g) :=
  (hx.bind hf).congr fun _ => List.mem_append.trans (or_iff_left_of_imp fun ht => hus ht)

/-- The last step of a sequence, where nothing is asked for any more. -/
theorem bind_pure {x : Except MappingError α} {y : Id α} (hx : Asks m ts x y) (f : α → β) :
    Asks m ts (x >>= fun a => Pure.pure (f a)) (y >>= fun a => Pure.pure (f a)) := by
  have h := hx.bind (f := fun a => Pure.pure (f a)) (g := fun a => Pure.pure (f a))
    (pure (m := m) (f y))
  rwa [List.append_nil] at h

theorem mapM {f : α → Except MappingError β} {g : α → Id β} {needs : α → List Text} {xs : List α}
    (h : ∀ a ∈ xs, Asks m (needs a) (f a) (g a)) :
    Asks m (xs.flatMap needs) (xs.mapM f) (xs.mapM g) := by
  induction xs with
  | nil => exact pure []
  | cons x xs ih =>
    rw [List.mapM_cons, List.mapM_cons, List.flatMap_cons]
    have htail := ih fun a ha => h a (List.mem_cons_of_mem x ha)
    exact (h x List.mem_cons_self).bind (htail.bind_pure _)

theorem isOk_iff {x : Except MappingError α} {y : Id α} (h : Asks m ts x y) :
    x = .ok y ↔ ∀ t ∈ ts, m.Maps t := by
  rcases h with ⟨hmaps, hx⟩ | ⟨t, ht, e, hte, hx⟩
  · exact ⟨fun _ => hmaps, fun _ => hx⟩
  · constructor
    · intro hok
      exact nomatch hx.symm.trans hok
    · intro hmaps
      obtain ⟨u, hu⟩ := hmaps t ht
      exact nomatch hte.symm.trans hu

/-- What a computation returns does not come from anywhere else. -/
theorem eq_of_ok {x : Except MappingError α} {y a : α} (h : Asks m ts x (Pure.pure y))
    (hx : x = .ok a) : y = a := by
  rcases h with ⟨-, hok⟩ | ⟨t, ht, e, hte, herror⟩
  · exact Except.ok.inj (hok.symm.trans hx)
  · exact nomatch herror.symm.trans hx

theorem exists_error {x : Except MappingError α} {y : Id α} (h : Asks m ts x y)
    (hmaps : ¬∀ t ∈ ts, m.Maps t) : ∃ e, x = .error e := by
  rcases h with ⟨hall, -⟩ | ⟨t, ht, e, hte, hx⟩
  · exact absurd hall hmaps
  · exact ⟨e, hx⟩

theorem exists_of_error {x : Except MappingError α} {y : Id α} (h : Asks m ts x y)
    {e : MappingError} (hx : x = .error e) : ∃ t ∈ ts, m.map t = .error e := by
  rcases h with ⟨-, hok⟩ | ⟨t, ht, e', hte, herror⟩
  · exact nomatch hok.symm.trans hx
  · obtain rfl := Except.error.inj (herror.symm.trans hx)
    exact ⟨t, ht, hte⟩

end Asks

/-! ## Members -/

/-- The types of a constructor. -/
def Constructor.types (c : Constructor) : List Text := c.parameters.map Parameter.type

/-- The type that the declaration of a property needs; one without a name is not declared. -/
def Property.askedTypes (p : Property) : List Text :=
  if (strip p.name).isEmpty then [] else [if p.type.isEmpty then objectName else p.type]

variable (m : Mapping)

theorem asks_parameterTypes (ps : List Parameter) :
    Asks m (ps.map Parameter.type) (parameterTypes m.map ps) (parameterTypes m.answer ps) := by
  rw [List.map_eq_flatMap]
  exact .mapM fun p _ => .map p.type

theorem asks_formatParameters (ps : List Parameter) :
    Asks m (ps.map Parameter.type) (formatParameters m.map ps) (formatParameters m.answer ps) :=
  (asks_parameterTypes m ps).bind_pure _

theorem asks_parameterKey (ps : List Parameter) :
    Asks m (ps.map Parameter.type) (parameterKey m.map ps) (parameterKey m.answer ps) :=
  (asks_parameterTypes m ps).bind_pure _

theorem asks_constructorKey (c : Constructor) :
    Asks m c.types (c.key m.map) (c.key m.answer) :=
  (asks_parameterKey m c.parameters).bind_pure _

theorem asks_constructorLine (overloaded : Bool) (c : Constructor) :
    Asks m c.types (c.line m.map overloaded) (c.line m.answer overloaded) :=
  (asks_formatParameters m c.parameters).bind_pure _

theorem asks_methodKey (method : Method) (generics : List Text) :
    Asks m method.types (method.key m.map generics) (method.key m.answer generics) :=
  (Asks.map method.returnType).bind ((asks_parameterKey m method.parameters).bind_pure _)

theorem asks_methodLine (overloaded : Bool) (method : Method) (generics : List Text) :
    Asks m method.types (method.line m.map overloaded generics)
      (method.line m.answer overloaded generics) := by
  have h : Asks m (method.parameters.map Parameter.type ++ [method.returnType])
      (method.line m.map overloaded generics) (method.line m.answer overloaded generics) :=
    (asks_formatParameters m method.parameters).bind ((Asks.map method.returnType).bind_pure _)
  refine h.congr fun t => ?_
  rw [Method.types, List.mem_append, List.mem_singleton, List.mem_cons, or_comm]

theorem asks_propertyGroup (p : Property) :
    Asks m p.askedTypes (propertyGroup m.map p) (propertyGroup m.answer p) := by
  unfold propertyGroup Property.askedTypes
  simp only
  split
  · exact .pure _
  · exact ((Asks.map _).bind_pure _).bind_pure _

end HaxeBindings
