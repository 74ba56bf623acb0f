import HaxeBindings.Mapping

/-!
# Remembering mapped types

The same schema strings occur again and again in a catalog, so a run remembers
what it has mapped.  A memo holds one entry for each stripped string that was
mapped; failures are not remembered.  A memo is `Faithful` to a mapping when
every entry is what the mapping answers, and then an answer from the memo cannot
be told from a fresh one.
-/

namespace HaxeBindings

open Text

/-- Mapped types by their stripped schema string. -/
structure Memo where
  entries : List (Text × Text) := []
  deriving DecidableEq

namespace Memo

/-- What was remembered for a stripped schema string. -/
def answer? (memo : Memo) (text : Text) : Option Text := memo.entries.lookup text

/-- Remembers one more answer. -/
def remember (memo : Memo) (text mapped : Text) : Memo := ⟨(text, mapped) :: memo.entries⟩

/-- Every entry is what the mapping answers. -/
def Faithful (m : Mapping) (memo : Memo) : Prop :=
  ∀ text mapped, memo.answer? text = some mapped → m.map text = .ok mapped

/-- Mapping against a memo: the answer and the memo afterwards. -/
def map (m : Mapping) (text : Text) (memo : Memo) : Except MappingError Text × Memo :=
  let t := strip text
  match memo.answer? t with
  | some mapped => (.ok mapped, memo)
  | none =>
    match m.map t with
    | .ok mapped => (.ok mapped, memo.remember t mapped)
    | .error e => (.error e, memo)

/-- Mapping against a memo as it counts when signatures are compared. -/
def mapKey (m : Mapping) (text : Text) (memo : Memo) : Except MappingError Text × Memo :=
  let (answer, memo) := map m text memo
  (answer.map Mapping.keyOf, memo)

/-- A computation that maps types against a memo and may fail.  The memo survives the failure. -/
abbrev Mapped := ExceptT MappingError (StateM Memo)

/-- One request to the memo. -/
def ask (m : Mapping) (text : Text) : Mapped Text := ExceptT.mk (map m text)

theorem faithful_empty (m : Mapping) : Faithful m {} := by
  intro text mapped h
  simp [answer?] at h

theorem Faithful.remember {m : Mapping} {memo : Memo} (h : Faithful m memo) {text mapped : Text}
    (hm : m.map text = .ok mapped) : Faithful m (memo.remember text mapped) := by
  intro t u hu
  simp only [answer?, Memo.remember, List.lookup_cons] at hu
  split at hu
  · next heq => simp only [beq_iff_eq] at heq; subst heq; simp_all
  · exact h t u hu

end Memo
end HaxeBindings
