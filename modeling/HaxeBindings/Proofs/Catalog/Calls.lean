import HaxeBindings.Catalog.Limited
import HaxeBindings.Proofs.Catalog.Acceptance

/-!
# How many calls a member takes

Reading within a number of calls is reading, as long as there are calls enough.  How many
there have to be is a function of the entry alone (`TypeRef.calls`, `callsOfMember`), and it
counts what is read only: behind an argument that is rejected no other one is read.

* `granted` --- a result that takes a number of calls, when there are so many;
* `TypeRef.ofJsonWithin_eq` --- a reference is read as ever if there are calls enough for it,
  and otherwise it is too deep;
* `ConstructorEntry.ofFieldsWithin_eq` and its kin --- the same for a member.

One step gets the calls that another one leaves, but does not add to them.  So a sequence takes
as many as the step of it that takes most (`callsThen`), and a traversal follows by induction on
the list (`mapM_granted`).
-/

namespace HaxeBindings

open Text Schema

/-! ## Computations that take calls -/

section

variable {α β ε : Type}

/-- The calls that two steps take.  The second step is taken only if the first one returns. -/
def callsThen (first : Except ε α) (calls next : Nat) : Nat :=
  max calls (if first.toBool then next else 0)

/-- The calls that a traversal takes, up to the first step that fails. -/
def callsUpTo (read : α → Except ε β) (calls : α → Nat) : List α → Nat
  | [] => 0
  | x :: xs => callsThen (read x) (calls x) (callsUpTo read calls xs)

/-- A result that takes a number of calls, when `limit` calls are left. -/
def granted (limit calls : Nat) (x : Except RefError α) : Except ReadStop α :=
  if calls ≤ limit then x.mapError .rejected else .error .tooDeep

variable {limit calls next total around : Nat}

theorem granted_of_le (h : calls ≤ limit) (x : Except RefError α) :
    granted limit calls x = x.mapError .rejected := if_pos h

theorem granted_of_lt (h : limit < calls) (x : Except RefError α) :
    granted limit calls x = .error .tooDeep := if_neg (Nat.not_le.mpr h)

/-- Calls around a step are taken off the limit. -/
theorem granted_add (h : total = limit + around) (x : Except RefError α) :
    granted total (calls + around) x = granted limit calls x := by
  simp only [h, granted, Nat.add_le_add_iff_right]

theorem map_granted (f : α → β) (x : Except RefError α) :
    (granted limit calls x).map f = granted limit calls (x.map f) := by
  rcases Nat.lt_or_ge limit calls with hlt | hle
  · rw [granted_of_lt hlt, granted_of_lt hlt]
    rfl
  · rw [granted_of_le hle, granted_of_le hle]
    cases x <;> rfl

theorem granted_bind (x : Except RefError α) (f : α → Except RefError β) :
    (granted limit calls x >>= fun a => granted limit next (f a)) =
      granted limit (callsThen x calls next) (x >>= f) := by
  rcases Nat.lt_or_ge limit calls with hlt | hle
  · have hboth : limit < callsThen x calls next := Nat.lt_of_lt_of_le hlt (Nat.le_max_left _ _)
    rw [granted_of_lt hlt, granted_of_lt hboth]
    rfl
  · rw [granted_of_le hle]
    cases x with
    | error e =>
      have hcalls : callsThen (.error e : Except RefError α) calls next = calls :=
        Nat.max_eq_left (Nat.zero_le _)
      rw [hcalls, granted_of_le hle]
      rfl
    | ok a =>
      have hcalls : callsThen (.ok a : Except RefError α) calls next = max calls next := rfl
      rw [hcalls]
      simp only [granted, Nat.max_le, hle, true_and]
      rfl

theorem granted_bind_pure (f : α → β) (x : Except RefError α) :
    (granted limit calls x >>= fun a => pure (f a)) =
      granted limit calls (x >>= fun a => pure (f a)) := map_granted f x

/-- **A traversal takes the calls of the steps it takes.** -/
theorem mapM_granted {f : α → Except RefError β} {g : α → Except ReadStop β} {cost : α → Nat}
    {xs : List α} (h : ∀ x ∈ xs, g x = granted limit (cost x) (f x)) :
    xs.mapM g = granted limit (callsUpTo f cost xs) (xs.mapM f) := by
  induction xs with
  | nil => rfl
  | cons x xs ih =>
    obtain ⟨hx, hxs⟩ := List.forall_mem_cons.mp h
    rw [List.mapM_cons, List.mapM_cons, hx, ih hxs]
    simp only [granted_bind_pure]
    exact granted_bind (f x) _

/-- Which step fails decides, not what the others return. -/
theorem callsUpTo_map {γ δ : Type} (val : γ → α) {read : α → Except ε β} {read' : γ → Except ε δ}
    (h : ∀ y, (read' y).toBool = (read (val y)).toBool) (cost : α → Nat) (ys : List γ) :
    callsUpTo read' (fun y => cost (val y)) ys = callsUpTo read cost (ys.map val) := by
  induction ys with
  | nil => rfl
  | cons y ys ih => rw [List.map_cons, callsUpTo, callsUpTo, ih, callsThen, callsThen, h]

end

/-! ## References -/

namespace TypeRef

/-- How many calls it takes to read a reference. -/
def calls : Json → Nat
  | .null | .string _ => 1
  | .object fields =>
    let kind := kindOf fields
    if kind = "array".toList ∨ kind = "pointer".toList then
      calls (Json.field "element".toList fields) + 1
    else if kind = "named".toList then
      callsUpTo (fun item : { x // x ∈ (Json.field "arguments".toList fields).items } =>
        ofJson item.val) (fun item => calls item.val)
          (Json.field "arguments".toList fields).items.attach + 3
    else 1
  | j => j.nesting + 1
termination_by j => sizeOf j
decreasing_by
  · have := Json.sizeOf_field_le "element".toList fields
    simp only [Json.object.sizeOf_spec]; omega
  · have h₃ := List.sizeOf_lt_of_mem item.property
    have h₁ := Json.sizeOf_field_le "arguments".toList fields
    have h₂ := sizeOf_items_le (Json.field "arguments".toList fields)
    simp only [Json.object.sizeOf_spec]; omega

section

variable {fields : List (Text × Json)}

theorem calls_element (h : kindOf fields = "array".toList ∨ kindOf fields = "pointer".toList) :
    calls (.object fields) = calls (Json.field "element".toList fields) + 1 := by
  rw [calls, if_pos h]

theorem calls_named (h : kindOf fields = "named".toList) :
    calls (.object fields) =
      callsUpTo ofJson calls (Json.field "arguments".toList fields).items + 3 := by
  have hattach (items : List Json) :
      callsUpTo (fun item : { x // x ∈ items } => ofJson item.val) (fun item => calls item.val)
        items.attach = callsUpTo ofJson calls items := by
    rw [callsUpTo_map Subtype.val fun _ => rfl, List.attach_map_subtype_val]
  rw [calls, if_neg (by rw [h]; decide), if_pos h, hattach]

end

theorem calls_pos (j : Json) : 0 < calls j := by
  fun_cases calls j <;> exact Nat.succ_pos _

section

variable {j : Json} (hnull : j = .null → False) (hstring : ∀ s, j = .string s → False)
  (hobject : ∀ fields, j = .object fields → False)

include hnull hstring hobject

theorem calls_unsupported : calls j = j.nesting + 1 := by
  rw [calls] <;> assumption

theorem ofJson_unsupported : ofJson j = .error (.unsupported j) := by
  rw [ofJson] <;> assumption

end

/-- **A reference is read within enough calls, and too deep with fewer.** -/
theorem ofJsonWithin_eq (j : Json) (limit : Nat) :
    ofJsonWithin limit j = granted limit (calls j) (ofJson j) := by
  induction limit using Nat.strongRecOn generalizing j with
  | ind limit ih =>
    fun_cases ofJsonWithin limit j with
    | case1 => rw [granted_of_lt (calls_pos j)]
    | case2 left => rw [calls, ofJson, granted_of_le (Nat.le_add_left 1 left)]; rfl
    | case3 left s => rw [calls, ofJson, granted_of_le (Nat.le_add_left 1 left)]; rfl
    | case4 left fields kind harray =>
      rw [calls_element (.inl harray), granted_add (rfl : left.succ = left + 1), ofJson,
        if_pos harray, ih left (Nat.lt_succ_self left), map_granted]
    | case5 left fields kind harray hpointer =>
      rw [calls_element (.inr hpointer), granted_add (rfl : left.succ = left + 1), ofJson,
        if_neg harray, if_pos hpointer, ih left (Nat.lt_succ_self left), map_granted]
    | case6 left fields kind harray hpointer hparameter =>
      have hcalls : calls (.object fields) = 1 := by
        have hother : ¬kind = "named".toList := by rw [hparameter]; decide
        rw [calls, if_neg (not_or.mpr ⟨harray, hpointer⟩), if_neg hother]
      rw [hcalls, granted_of_le (Nat.le_add_left 1 left), ofJson, if_neg harray, if_neg hpointer,
        if_pos hparameter]
      rfl
    | case7 fields kind harray hpointer hparameter hnamed left =>
      rw [calls_named hnamed, granted_add (rfl : left.succ.succ.succ = left + 3),
        ofJson_of_named hnamed, ← map_granted, mapM_granted fun item _ => ih left (by omega) item]
    | case8 left fields kind harray hpointer hparameter hnamed hfew =>
      have hlt : left < 2 := Nat.lt_of_not_ge fun hle => hfew (left - 2) (by omega)
      rw [calls_named hnamed, granted_of_lt (by omega)]
    | case9 left fields kind harray hpointer hparameter hnamed =>
      have hcalls : calls (.object fields) = 1 := by
        rw [calls, if_neg (not_or.mpr ⟨harray, hpointer⟩), if_neg hnamed]
      rw [hcalls, granted_of_le (Nat.le_add_left 1 left), ofJson, if_neg harray, if_neg hpointer,
        if_neg hparameter, if_neg hnamed]
      rfl
    | case10 left _ hnull hstring hobject hfit =>
      rw [calls_unsupported hnull hstring hobject, granted_of_le (Nat.succ_le_succ hfit),
        ofJson_unsupported hnull hstring hobject]
      rfl
    | case11 left _ hnull hstring hobject hdeep =>
      rw [calls_unsupported hnull hstring hobject, granted_of_lt (by omega)]

end TypeRef

/-! ## Members -/

namespace Catalog

/-- How many calls it takes to read the parameters of a member. -/
def callsOfParameters (fields : Fields) : Nat :=
  callsUpTo TypeRef.ofJson TypeRef.calls (parameterReferences fields) + 3

/-- How many calls it takes to read a member. -/
def callsOfMember : MemberKind → Fields → Nat
  | .constructors, fields => callsOfParameters fields
  | .properties, fields => TypeRef.calls (get fields "type")
  | .methods, fields =>
    callsThen (TypeRef.ofJson (get fields "return_type")) (TypeRef.calls (get fields "return_type"))
      (callsOfParameters fields)

variable (limit : Nat) (fields : Fields)

theorem ParameterEntry.listWithin_eq :
    listWithin limit fields =
      granted limit (callsOfParameters fields) (listOf TypeRef.ofJson fields) := by
  fun_cases listWithin limit fields with
  | case1 left =>
    have hone (parameter : Fields) : ofFields (TypeRef.ofJsonWithin left) parameter =
        granted left (TypeRef.calls (get parameter "type")) (ofFields TypeRef.ofJson parameter) := by
      rw [ofFields, TypeRef.ofJsonWithin_eq, map_granted, ofFields]
    have hcalls : callsUpTo TypeRef.ofJson TypeRef.calls (parameterReferences fields) =
        callsUpTo (ofFields TypeRef.ofJson) (fun parameter => TypeRef.calls (get parameter "type"))
          ((get fields "parameters").items.filterMap fields?) := by
      refine (callsUpTo_map (get · "type") (fun parameter => ?_) _ _).symm
      rw [ofFields]
      cases TypeRef.ofJson (get parameter "type") <;> rfl
    rw [callsOfParameters, granted_add (rfl : left.succ.succ.succ = left + 3), listOf, listOf,
      mapM_granted fun x _ => hone x, hcalls]
  | case2 _ _ hfew =>
    have hlt : limit < 3 := Nat.lt_of_not_ge fun hle => hfew (limit - 3) (by omega)
    rw [callsOfParameters, granted_of_lt (by omega)]

theorem ConstructorEntry.ofFieldsWithin_eq :
    ofFieldsWithin limit fields =
      granted limit (callsOfMember .constructors fields) (ofFields fields) := by
  rw [ofFieldsWithin, ParameterEntry.listWithin_eq, ofParts, map_granted, ofFields, ofParts,
    callsOfMember]

theorem PropertyEntry.ofFieldsWithin_eq :
    ofFieldsWithin limit fields =
      granted limit (callsOfMember .properties fields) (ofFields fields) := by
  rw [ofFieldsWithin, TypeRef.ofJsonWithin_eq, ofParts, map_granted, ofFields, ofParts,
    callsOfMember]

theorem MethodEntry.ofFieldsWithin_eq :
    ofFieldsWithin limit fields =
      granted limit (callsOfMember .methods fields) (ofFields fields) := by
  rw [ofFieldsWithin, TypeRef.ofJsonWithin_eq, ParameterEntry.listWithin_eq, ofParts, ofFields,
    ofParts, callsOfMember]
  simp only [granted_bind_pure]
  exact granted_bind _ _

end Catalog
end HaxeBindings
