import HaxeBindings.Proofs.ArityIndex.Definitions
import HaxeBindings.Proofs.Generation.Isolation
import HaxeBindings.Proofs.Mapping.SameArities

/-!
# What a rendering does not depend on

Two things are shared by all the descriptors of a run: the arity index, which is built
from all of them, and the memo of mapped types, which every rendering reads and
extends.  This file says that neither carries anything from one descriptor to
another beyond what the index is meant to carry.

* `faithful_after` --- whatever was asked of a context before, rendered, mapped or
  mapped for a key, and whether it failed or not, its memo is faithful; so every
  later answer is the one that a fresh context gives;
* `renderTypes_perm` --- a permuted catalog has an index that knows the same, and a
  run over it returns exactly when the run over the catalog does, with the externs
  permuted in the same way.

## The argument

For the memo one request is a step, `Request.faithful_after`, and a history is a run
of steps.  For the index, `arities_ofTypes_of_perm` says that order does not show in
what is known, and `render_congr` that nothing else is asked for.
-/

namespace HaxeBindings

open Text

namespace Memo

/-! ## Histories -/

/-- What can be asked of a context. -/
inductive Request where
  | render (d : Descriptor)
  | map (text : Text)
  | mapKey (text : Text)

/-- The memo behind a request. -/
def Request.after (m : Mapping) (memo : Memo) : Request → Memo
  | .render d => (Memo.render m d memo).2
  | .map text => (Memo.map m text memo).2
  | .mapKey text => (Memo.mapKey m text memo).2

/-- The memo behind a history of requests to a fresh context. -/
def after (m : Mapping) (history : List Request) : Memo :=
  history.foldl (Request.after m) {}

section

variable {m : Mapping} {memo : Memo}

/-- A faithful memo answers what the mapping answers. -/
theorem map_of_faithful (h : Faithful m memo) (text : Text) :
    (map m text memo).1 = m.map text ∧ Faithful m (map m text memo).2 :=
  agrees_ask text memo h

theorem mapKey_of_faithful (h : Faithful m memo) (text : Text) :
    (mapKey m text memo).1 = m.mapKey text ∧ Faithful m (mapKey m text memo).2 := by
  obtain ⟨hanswer, hfaithful⟩ := map_of_faithful h text
  exact ⟨congrArg (Except.map Mapping.keyOf) hanswer, hfaithful⟩

/-- One request keeps a memo faithful, also when it fails. -/
theorem Request.faithful_after (h : Faithful m memo) (r : Request) :
    Faithful m (r.after m memo) := by
  cases r with
  | render d => exact (render_eq h d).2
  | map text => exact (map_of_faithful h text).2
  | mapKey text => exact (mapKey_of_faithful h text).2

/-- **After any history the memo is faithful.** -/
theorem faithful_after (m : Mapping) (history : List Request) : Faithful m (after m history) := by
  have hrun : ∀ (history : List Request) (memo : Memo), Faithful m memo →
      Faithful m (history.foldl (Request.after m) memo) := by
    intro history
    induction history with
    | nil => exact fun _ h => h
    | cons r rest ih => exact fun memo h => ih _ (Request.faithful_after h r)
  exact hrun history {} (faithful_empty m)

end

end Memo

/-! ## Runs -/

/-- A run that a descriptor stops returns nothing. -/
theorem ofRenderings_of_stopped {rs : List Rendering} (h : ∃ cause, .stopped cause ∈ rs) :
    ∃ cause, (Batch.ofRenderings rs).stop = some cause := by
  obtain ⟨cause, hcause⟩ := h
  induction rs with
  | nil => exact absurd hcause List.not_mem_nil
  | cons r rest ih =>
    cases r with
    | stopped first => exact ⟨first, rfl⟩
    | file e => exact ih ((List.mem_cons.mp hcause).resolve_left nofun)
    | skipped report => exact ih ((List.mem_cons.mp hcause).resolve_left nofun)

/-- Once there is an index, a run returns unless a descriptor stops it. -/
theorem renderTypes_isOk_iff {o : Options} {types : List Descriptor} {m : Mapping}
    (hm : Mapping.ofTypes o types = .ok m) :
    (∃ externs, (renderTypes o types).result = .ok externs) ↔
      ∀ d ∈ types, ∀ cause, m.render d ≠ .stopped cause := by
  constructor
  · rintro ⟨externs, hok⟩ d hd cause hstopped
    have hmem : Rendering.stopped cause ∈ types.map m.render :=
      hstopped ▸ List.mem_map_of_mem hd
    obtain ⟨first, hfirst⟩ := ofRenderings_of_stopped ⟨cause, hmem⟩
    unfold renderTypes at hok
    simp only [hm, Mapping.renderAll_eq, hfirst] at hok
    exact nomatch hok
  · exact fun h => ⟨_, renderTypes_of_not_stopped hm h⟩

/-- A run that returns has an index, and it returns the files of its descriptors. -/
theorem renderTypes_eq_ok {o : Options} {types : List Descriptor} {externs : List Rendered}
    (h : (renderTypes o types).result = .ok externs) :
    ∃ m, Mapping.ofTypes o types = .ok m ∧
      externs = types.filterMap fun d => (m.render d).file? := by
  cases hm : Mapping.ofTypes o types with
  | error cause =>
    unfold renderTypes at h
    rw [hm] at h
    exact nomatch h
  | ok m =>
    have hnot := (renderTypes_isOk_iff hm).mp ⟨externs, h⟩
    exact ⟨m, rfl, Except.ok.inj (h.symm.trans (renderTypes_of_not_stopped hm hnot))⟩

/-- A permuted catalog gives a context in which every descriptor is rendered alike. -/
theorem exists_ofTypes_of_perm {o : Options} {types others : List Descriptor} {m : Mapping}
    (hm : Mapping.ofTypes o types = .ok m) (hperm : others.Perm types) :
    ∃ m', Mapping.ofTypes o others = .ok m' ∧
      (∀ base, m'.index.arities base = m.index.arities base) ∧ m'.render = m.render := by
  obtain ⟨m', hm'⟩ : ∃ m', Mapping.ofTypes o others = .ok m' := by
    refine (ofTypes_isOk_iff o others).mpr fun d hd => ?_
    exact (ofTypes_isOk_iff o types).mp ⟨m, hm⟩ d (hperm.mem_iff.mp hd)
  have harities : m'.index.SameArities m.index :=
    ArityIndex.arities_ofTypes_of_perm hperm (ofTypes_eq_ok hm).1 (ofTypes_eq_ok hm').1
  refine ⟨m', hm', harities, funext fun d => ?_⟩
  obtain ⟨i, o₁⟩ := m
  obtain ⟨j, o₂⟩ := m'
  obtain rfl : o₁ = o := options_of_ofTypes hm
  obtain rfl : o₂ = o₁ := options_of_ofTypes hm'
  exact render_congr harities o₂ d

/-- **Rendering depends neither on the order of the catalog nor on what was rendered before.**
Every order of a catalog gives an index with the same arities, and its run returns the files that
the descriptors come to one by one in a fresh context, in its own order, unless a descriptor stops
the run in any order.  And no answer of a shared context depends on what it was asked before. -/
theorem renderTypes_perm {o : Options} {types : List Descriptor} {m : Mapping}
    (hm : Mapping.ofTypes o types = .ok m) :
    (∀ others : List Descriptor, others.Perm types →
      (∃ m', Mapping.ofTypes o others = .ok m' ∧
        ∀ base, m'.index.arities base = m.index.arities base) ∧
      ((∃ externs, (renderTypes o others).result = .ok externs) ↔
        ∀ d ∈ types, ∀ cause, (Memo.render m d {}).1 ≠ .stopped cause) ∧
      ∀ externs, (renderTypes o others).result = .ok externs →
        externs = others.filterMap fun d => (Memo.render m d {}).1.file?) ∧
    ∀ (context : Mapping) (history : List Memo.Request),
      (∀ d, (Memo.render context d (Memo.after context history)).1 =
        (Memo.render context d {}).1) ∧
      (∀ text, (Memo.map context text (Memo.after context history)).1 =
        (Memo.map context text {}).1) ∧
      ∀ text, (Memo.mapKey context text (Memo.after context history)).1 =
        (Memo.mapKey context text {}).1 := by
  have hfresh (n : Mapping) : Memo.Faithful n {} := Memo.faithful_empty n
  constructor
  · intro others hperm
    obtain ⟨m', hm', harities, hrender⟩ := exists_ofTypes_of_perm hm hperm
    have halone (d : Descriptor) : (Memo.render m d {}).1 = m'.render d := by
      rw [(Memo.render_eq (hfresh m) d).1, hrender]
    have hreturns : (∃ externs, (renderTypes o others).result = .ok externs) ↔
        ∀ d ∈ types, ∀ cause, m'.render d ≠ .stopped cause := by
      rw [renderTypes_isOk_iff hm']
      exact forall_congr' fun d => imp_congr_left hperm.mem_iff
    simp only [halone]
    refine ⟨⟨m', hm', harities⟩, hreturns, fun externs hexterns => ?_⟩
    have hnot := (renderTypes_isOk_iff hm').mp ⟨externs, hexterns⟩
    exact Except.ok.inj (hexterns.symm.trans (renderTypes_of_not_stopped hm' hnot))
  · intro context history
    have hafter := Memo.faithful_after context history
    refine ⟨fun d => ?_, fun text => ?_, fun text => ?_⟩
    · rw [(Memo.render_eq hafter d).1, (Memo.render_eq (hfresh context) d).1]
    · rw [(Memo.map_of_faithful hafter text).1, (Memo.map_of_faithful (hfresh context) text).1]
    · rw [(Memo.mapKey_of_faithful hafter text).1,
        (Memo.mapKey_of_faithful (hfresh context) text).1]

/-- Two definitions of one base and a type that mentions it, in reversed order. -/
theorem renderTypes_perm_reversed :
    let parameter (name : Char) : Text := ['<', name, '>']
    let pool : Descriptor :=
      { fullName := "Sandbox.Pool".toList ++ [arityMark, '1'] ++ parameter 'T'
        genericParameters := [['T']] }
    let pair : Descriptor :=
      { fullName := "Sandbox.Pool".toList ++ [arityMark, '2'] ++ "<T,U>".toList
        genericParameters := [['T'], ['U']] }
    let user : Descriptor :=
      { fullName := "Sandbox.User".toList
        properties := [{ name := ['p'], type := "Sandbox.Pool".toList }] }
    let types := [pool, pair, user]
    ∃ m, Mapping.ofTypes {} types = .ok m ∧ types.reverse.Perm types ∧
      m.index.arities "Sandbox.Pool".toList = [1, 2] ∧
      (∃ m', Mapping.ofTypes {} types.reverse = .ok m' ∧
        m'.index.arities "Sandbox.Pool".toList = [1, 2]) ∧
      (renderTypes {} types.reverse).result =
        .ok (types.reverse.filterMap fun d => (Memo.render m d {}).1.file?) := by
  intro parameter pool pair user types
  let m : Mapping := { index := ⟨[("Sandbox.Pool".toList, [1, 2])]⟩ }
  have hm : Mapping.ofTypes {} types = .ok m := by decide +kernel
  have hknown : m.index.arities "Sandbox.Pool".toList = [1, 2] := by decide
  have hperm : types.reverse.Perm types := List.reverse_perm types
  obtain ⟨⟨m', hm', harities⟩, hreturns, hexterns⟩ :=
    (renderTypes_perm hm).1 types.reverse hperm
  have hcomplete : m.options.IsComplete := by
    rw [options_of_ofTypes hm]
    exact Options.isComplete_default
  obtain ⟨externs, hok⟩ := hreturns.mpr fun d _ cause => by
    rw [(Memo.render_eq (Memo.faithful_empty m) d).1]
    exact render_ne_stopped hcomplete d cause
  exact ⟨m, hm, hperm, hknown, ⟨m', hm', (harities _).trans hknown⟩, hexterns externs hok ▸ hok⟩

end HaxeBindings
