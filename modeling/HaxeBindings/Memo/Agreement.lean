import HaxeBindings.Generation.Render

/-!
# A memo changes no answer

Rendering maps types against one memo for a whole run, and this file says that
nobody can tell.  A computation against a memo `Agrees` with a computation that
maps afresh when, from every faithful memo, it gives the same answer, failures
included, and leaves a faithful memo behind.

* `agrees_ask` --- one request agrees with the mapping, because the memo is asked
  for the stripped string, and blanks at the ends do not count (`Mapping.map_strip`);
* `Agrees.bind`, `Agrees.mapM` --- agreement passes through sequencing, also when
  the first part fails, since the memo survives a failure;
* `agrees_memberGroups` --- so everything that is emitted for a descriptor agrees;
* `renderAll_eq_map` --- a run renders each descriptor as it would be rendered
  alone, whatever was rendered before it.
-/

namespace HaxeBindings
namespace Memo

open Text

/-! ## Agreement -/

/-- Against a faithful memo `x` answers what `y` answers, and the memo stays faithful. -/
def Agrees {α : Type} (m : Mapping) (x : Mapped α) (y : Except MappingError α) : Prop :=
  ∀ memo, Faithful m memo → (x.run.run memo).1 = y ∧ Faithful m (x.run.run memo).2

variable {m : Mapping}

theorem Agrees.pure {α : Type} (a : α) : Agrees m (Pure.pure a) (Pure.pure a) := fun _ h => ⟨rfl, h⟩

theorem Agrees.bind {α β : Type} {x : Mapped α} {y : Except MappingError α} {f : α → Mapped β}
    {g : α → Except MappingError β} (hx : Agrees m x y) (hf : ∀ a, Agrees m (f a) (g a)) :
    Agrees m (x >>= f) (y >>= g) := by
  intro memo h
  obtain ⟨h₁, h₂⟩ := hx memo h
  have hrun : (x >>= f).run.run memo =
      match (x.run.run memo) with
      | (.ok a, memo) => (f a).run.run memo
      | (.error e, memo) => (.error e, memo) := by
    simp only [ExceptT.run_bind, StateT.run_bind]
    cases hr : x.run.run memo with
    | mk a s => cases a <;> rfl
  rw [hrun]
  cases hr : x.run.run memo with
  | mk a s =>
    rw [hr] at h₁ h₂
    cases a with
    | error e => cases h₁; exact ⟨rfl, h₂⟩
    | ok a => cases h₁; exact hf a s h₂

theorem Agrees.mapM {α β : Type} {f : α → Mapped β} {g : α → Except MappingError β}
    (hf : ∀ a, Agrees m (f a) (g a)) (xs : List α) : Agrees m (xs.mapM f) (xs.mapM g) := by
  induction xs with
  | nil => simpa using Agrees.pure (m := m) ([] : List β)
  | cons x xs ih =>
    rw [List.mapM_cons, List.mapM_cons]
    exact (hf x).bind fun b => ih.bind fun bs => .pure _

/-- One request agrees with the mapping. -/
theorem agrees_ask (text : Text) : Agrees m (ask m text) (m.map text) := by
  intro memo h
  show (map m text memo).1 = _ ∧ Faithful m (map m text memo).2
  rw [← m.map_strip text]
  unfold map
  simp only
  split
  · next mapped hm => exact ⟨(h _ _ hm).symm, h⟩
  · split
    · next mapped hm => exact ⟨hm.symm, h.remember hm⟩
    · next e he => exact ⟨he.symm, h⟩

/-! ## Emitting members -/

section
variable {ask : Text → Mapped Text} {direct : Text → Except MappingError Text}
  (h : ∀ t, Agrees m (ask t) (direct t))
include h

theorem agrees_parameterTypes (ps : List Parameter) :
    Agrees m (parameterTypes ask ps) (parameterTypes direct ps) := by
  unfold parameterTypes
  exact .mapM (fun p => h p.type) ps

theorem agrees_formatParameters (ps : List Parameter) :
    Agrees m (formatParameters ask ps) (formatParameters direct ps) :=
  (agrees_parameterTypes h ps).bind fun _ => .pure _

theorem agrees_parameterKey (ps : List Parameter) :
    Agrees m (parameterKey ask ps) (parameterKey direct ps) :=
  (agrees_parameterTypes h ps).bind fun _ => .pure _

theorem agrees_constructorKey (c : Constructor) : Agrees m (c.key ask) (c.key direct) :=
  (agrees_parameterKey h _).bind fun _ => .pure _

theorem agrees_constructorLine (overloaded : Bool) (c : Constructor) :
    Agrees m (c.line ask overloaded) (c.line direct overloaded) :=
  (agrees_formatParameters h _).bind fun _ => .pure _

theorem agrees_methodKey (method : Method) (generics : List Text) :
    Agrees m (method.key ask generics) (method.key direct generics) :=
  (h _).bind fun _ => (agrees_parameterKey h _).bind fun _ => .pure _

theorem agrees_methodLine (overloaded : Bool) (method : Method) (generics : List Text) :
    Agrees m (method.line ask overloaded generics) (method.line direct overloaded generics) :=
  (agrees_formatParameters h _).bind fun _ => (h _).bind fun _ => .pure _

theorem agrees_orderedConstructors (cs : List Constructor) :
    Agrees m (orderedConstructors ask cs) (orderedConstructors direct cs) := by
  unfold orderedConstructors
  exact (Agrees.mapM (fun c => (agrees_constructorKey h c).bind fun _ => .pure _) _).bind
    fun _ => .pure _

theorem agrees_constructorGroup (cs : List Constructor) :
    Agrees m (constructorGroup ask cs) (constructorGroup direct cs) := by
  unfold constructorGroup
  exact (agrees_orderedConstructors h cs).bind fun _ =>
    (Agrees.mapM (fun _ => agrees_constructorLine h _ _) _).bind fun _ => .pure _

theorem agrees_propertyGroup (p : Property) :
    Agrees m (propertyGroup ask p) (propertyGroup direct p) := by
  unfold propertyGroup
  simp only
  split
  · exact .pure _
  · exact ((h _).bind fun _ => .pure _).bind fun _ => .pure _

theorem agrees_orderedMethods (methods : List Method) :
    Agrees m (orderedMethods ask methods) (orderedMethods direct methods) := by
  unfold orderedMethods
  exact (Agrees.mapM (fun _ => (agrees_methodKey h _ _).bind fun _ => .pure _) _).bind
    fun _ => .pure _

theorem agrees_methodGroup (name : Text) (methods : List Method) :
    Agrees m (methodGroup ask name methods) (methodGroup direct name methods) := by
  unfold methodGroup
  refine (agrees_orderedMethods h methods).bind fun ordered => ?_
  simp only
  split
  · exact .pure _
  · exact (Agrees.mapM (fun _ => agrees_methodLine h _ _ _) _).bind fun _ => .pure _

theorem agrees_methodGroups (methods : List Method) :
    Agrees m (methodGroups ask m methods) (methodGroups direct m methods) := by
  unfold methodGroups
  exact (Agrees.mapM (fun name => agrees_methodGroup h name _) _).bind fun _ => .pure _

theorem agrees_memberGroups (d : Descriptor) :
    Agrees m (memberGroups ask m d) (memberGroups direct m d) := by
  unfold memberGroups
  exact (agrees_constructorGroup h _).bind fun _ =>
    (Agrees.mapM (agrees_propertyGroup h) _).bind fun _ =>
      (agrees_methodGroups h _).bind fun _ => .pure _
end

/-! ## Rendering -/

/-- A descriptor is rendered against a faithful memo as it is rendered alone. -/
theorem render_eq {memo : Memo} (h : Faithful m memo) (d : Descriptor) :
    (render m d memo).1 = m.render d ∧ Faithful m (render m d memo).2 := by
  unfold render Mapping.render
  split
  · exact ⟨rfl, h⟩
  · obtain ⟨h₁, h₂⟩ := agrees_memberGroups agrees_ask d memo h
    exact ⟨congrArg (Rendering.ofMembers m.options d) h₁, h₂⟩

theorem renderAll_eq_map {memo : Memo} (h : Faithful m memo) (ds : List Descriptor) :
    renderAll m ds memo = ds.map m.render := by
  induction ds generalizing memo with
  | nil => rfl
  | cons d ds ih =>
    obtain ⟨h₁, h₂⟩ := render_eq h d
    rw [renderAll, List.map_cons, h₁, ih h₂]

end Memo

/-- A run is what its descriptors come to one by one. -/
theorem Mapping.renderAll_eq (m : Mapping) (types : List Descriptor) :
    m.renderAll types = .ofRenderings (types.map m.render) := by
  rw [Mapping.renderAll, Memo.renderAll_eq_map (Memo.faithful_empty m)]

end HaxeBindings
