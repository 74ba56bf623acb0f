import HaxeBindings.Proofs.Catalog.Calls
import HaxeBindings.Proofs.Catalog.Screening

/-!
# Dumps that are too deep

A malformed entry costs nothing but itself, with one exception: an entry of a member that takes
more calls than there are.  It is not refused and reported, but ends the load.

* `Limited.Meets` --- limited loading has the result and the log of full loading when there are
  calls enough, and otherwise no result and the front of that log;
* `MembersFit` --- there are calls enough for each object among the entries of members;
* `ofJsonWithin_screened` --- an object with a list of assemblies is loaded exactly when there
  are, and then as `ofJson_screened` says;
* `exists_not_loaded` --- no number of calls is enough for all dumps.

Whether a limit is kept is asked of one member at a time, so all levels above are the same
argument: two steps meet what they should if each of them does (`Limited.Meets.bind`), and so does
a list of entries (`Limited.Meets.collect`).
-/

namespace HaxeBindings

open Text Schema

/-! ## Loading with a limit and without -/

/-- With enough calls the result and the log are the full ones.  With fewer there is no result, and
the log breaks off. -/
structure Limited.Meets {α : Type} (enough : Prop) (limited : Limited α) (full : Logged α) :
    Prop where
  complete : enough → limited = ⟨some full.value, full.log⟩
  stopped : ¬enough → limited.value = none ∧ limited.log <+: full.log

namespace Limited.Meets

variable {α β : Type} {p q : Prop} {limited : Limited α} {full : Logged α}

protected theorem pure (x : α) : Meets True (pure x : Limited α) (.silent x) :=
  ⟨fun _ => rfl, fun h => (h trivial).elim⟩

/-- What does not read anything is complete. -/
theorem of_eq (h : limited = ⟨some full.value, full.log⟩) (hp : p) : Meets p limited full :=
  ⟨fun _ => h, fun hnot => (hnot hp).elim⟩

theorem congr (h : Meets p limited full) (hpq : p ↔ q) : Meets q limited full :=
  ⟨fun hq => h.complete (hpq.mpr hq), fun hq => h.stopped (mt hpq.mp hq)⟩

/-- **There is a result exactly when there are calls enough.** -/
theorem isSome_iff (h : Meets p limited full) : (∃ x, limited.value = some x) ↔ p := by
  by_cases hp : p
  · rw [h.complete hp]
    exact iff_of_true ⟨_, rfl⟩ hp
  · rw [(h.stopped hp).1]
    exact iff_of_false (fun ⟨_, hnone⟩ => nomatch hnone) hp

/-- **Two steps**, of which the second is only taken with the full result of the first. -/
theorem bind {next : α → Limited β} {y : β} {log : List Event} (h : Meets p limited full)
    (hnext : Meets q (next full.value) ⟨y, log⟩) :
    Meets (p ∧ q) (limited >>= next) ⟨y, full.log ++ log⟩ := by
  have hbind : limited >>= next = limited.bind next := rfl
  rw [hbind]
  by_cases hp : p
  · have hfull : limited.bind next = ⟨(next full.value).value, full.log ++ (next full.value).log⟩ := by
      rw [h.complete hp]
      rfl
    rw [hfull]
    refine ⟨fun hboth => by rw [hnext.complete hboth.2], fun hnot => ?_⟩
    obtain ⟨hnone, hlog⟩ := hnext.stopped fun hq => hnot ⟨hp, hq⟩
    exact ⟨hnone, (List.prefix_append_right_inj _).mpr hlog⟩
  · obtain ⟨hnone, hlog⟩ := h.stopped hp
    rw [Limited.bind, hnone]
    exact ⟨fun hboth => absurd hboth.1 hp, fun _ => ⟨rfl, hlog.trans (List.prefix_append _ _)⟩⟩

/-- What is made of a result takes no calls. -/
theorem map (h : Meets p limited full) (f : α → β) :
    Meets p (limited >>= fun x => pure (f x)) ⟨f full.value, full.log⟩ := by
  have hboth : Meets (p ∧ True) (limited >>= fun x => pure (f x)) ⟨f full.value, full.log ++ []⟩ :=
    h.bind (Meets.pure (f full.value))
  rw [List.append_nil] at hboth
  exact hboth.congr (and_iff_left trivial)

/-- **A list of entries**, each by itself. -/
protected theorem collect {load : Json → Limited (Option α)} {whole : Json → Logged (Option α)}
    {enough : Json → Prop} {items : List Json}
    (h : ∀ item ∈ items, Meets (enough item) (load item) (whole item)) :
    Meets (∀ item ∈ items, enough item) (Limited.collect load items)
      (Logged.collect (items.map whole)) := by
  induction items with
  | nil => exact (Meets.pure []).congr (iff_of_true trivial fun _ h => absurd h List.not_mem_nil)
  | cons item items ih =>
    obtain ⟨hitem, hitems⟩ := List.forall_mem_cons.mp h
    have hfull : Logged.collect ((item :: items).map whole) =
        ⟨(whole item).value.toList ++ (Logged.collect (items.map whole)).value,
          (whole item).log ++ (Logged.collect (items.map whole)).log⟩ := by
      cases hvalue : (whole item).value with
      | none => simp [Logged.collect, hvalue]
      | some x => simp [Logged.collect, hvalue]
    rw [hfull]
    exact (hitem.bind ((ih hitems).map _)).congr List.forall_mem_cons.symm

end Limited.Meets

namespace Catalog

variable {limit : Nat}

/-! ## Members -/

section

variable {α : Type} {kind : MemberKind} {readWithin : Fields → Except ReadStop α}
  {read : Fields → Except RefError α}
  (hread : ∀ fields, readWithin fields = granted limit (callsOfMember kind fields) (read fields))

include hread

theorem loadMemberWithin_meets (owner : Text) (item : Json) :
    Limited.Meets (∀ fields, item = .object fields → callsOfMember kind fields ≤ limit)
      (loadMemberWithin kind owner readWithin item) (loadMember kind owner read item) := by
  unfold loadMemberWithin loadMember
  cases hfields : fields? item with
  | none =>
    refine .of_eq rfl fun fields heq => ?_
    rw [heq] at hfields
    exact nomatch hfields
  | some fields =>
    obtain rfl := eq_object_of_fields?_eq_some hfields
    have hcalls : callsOfMember kind fields ≤ limit ↔
        ∀ fields', Json.object fields = .object fields' → callsOfMember kind fields' ≤ limit :=
      ⟨fun h _ heq => Json.object.inj heq ▸ h, fun h => h fields rfl⟩
    refine .congr ?_ hcalls
    simp only [hread]
    rcases Nat.lt_or_ge limit (callsOfMember kind fields) with hlt | hle
    · rw [granted_of_lt hlt]
      exact ⟨fun h => absurd h (Nat.not_le.mpr hlt), fun _ => ⟨rfl, List.nil_prefix⟩⟩
    · rw [granted_of_le hle]
      cases read fields with
      | error cause => exact .of_eq rfl hle
      | ok entry => exact .of_eq rfl hle

theorem loadMembersWithin_meets (fields : Fields) (owner : Text) :
    Limited.Meets (∀ member, .object member ∈ (get fields kind.word).items →
      callsOfMember kind member ≤ limit)
      (loadMembersWithin fields kind owner readWithin) (loadMembers fields kind owner read) := by
  refine (Limited.Meets.collect fun item _ => loadMemberWithin_meets hread owner item).congr ?_
  exact ⟨fun h member hmember => h _ hmember member rfl,
    fun h item hitem member heq => h member (heq ▸ hitem)⟩

end

/-! ## Types -/

/-- There are calls enough for the members of the types among some entries. -/
def MembersFit (limit : Nat) (types : List Json) : Prop :=
  ∀ kind member, .object member ∈ memberItems kind types → callsOfMember kind member ≤ limit

theorem mem_memberItems {kind : MemberKind} {types : List Json} {item : Json} :
    item ∈ memberItems kind types ↔
      ∃ t ∈ types, IsType t ∧ ∃ fields, t = .object fields ∧ item ∈ (get fields kind.word).items := by
  simp only [memberItems, List.mem_flatMap, List.mem_filterMap, List.mem_filter,
    decide_eq_true_eq]
  constructor
  · rintro ⟨fields, ⟨t, ⟨ht, htype⟩, hfields⟩, hitem⟩
    exact ⟨t, ht, htype, fields, eq_object_of_fields?_eq_some hfields, hitem⟩
  · rintro ⟨t, ht, htype, fields, rfl, hitem⟩
    exact ⟨fields, ⟨_, ⟨ht, htype⟩, rfl⟩, hitem⟩

theorem membersFit_iff {types : List Json} :
    (∀ t ∈ types, MembersFit limit [t]) ↔ MembersFit limit types := by
  constructor
  · intro h kind member hmember
    obtain ⟨t, ht, hitem⟩ := mem_memberItems.mp hmember
    exact h t ht kind member (mem_memberItems.mpr ⟨t, List.mem_singleton_self t, hitem⟩)
  · intro h t ht kind member hmember
    obtain ⟨t', ht', hitem⟩ := mem_memberItems.mp hmember
    obtain rfl := List.mem_singleton.mp ht'
    exact h kind member (mem_memberItems.mpr ⟨t', ht, hitem⟩)

theorem membersFit_of_refused {t : Json} (h : ¬IsType t) : MembersFit limit [t] := by
  intro kind member hmember
  rw [memberItems_singleton_of_refused kind h] at hmember
  exact absurd hmember List.not_mem_nil

/-- **A type is loaded in full exactly when there are calls enough for each of its members.** -/
theorem loadTypeWithin_meets (assembly : Text) (item : Json) :
    Limited.Meets (MembersFit limit [item]) (loadTypeWithin limit assembly item)
      (loadType assembly item) := by
  by_cases hitem : IsType item
  · obtain ⟨fields, rfl, -⟩ := id hitem
    have hname : ¬(TypeEntry.fullNameOf fields).isEmpty = true :=
      List.isEmpty_iff.not.mpr (isType_object_iff.mp hitem)
    simp only [loadTypeWithin, loadType, fields?, if_neg hname]
    rw [List.append_assoc]
    refine .congr (.bind (loadMembersWithin_meets (ConstructorEntry.ofFieldsWithin_eq limit) fields _)
      (.bind (loadMembersWithin_meets (PropertyEntry.ofFieldsWithin_eq limit) fields _)
        (.map (loadMembersWithin_meets (MethodEntry.ofFieldsWithin_eq limit) fields _) _))) ?_
    constructor
    · rintro ⟨hconstructors, hproperties, hmethods⟩ kind member hmember
      rw [memberItems_singleton kind hitem] at hmember
      cases kind with
      | constructors => exact hconstructors member hmember
      | properties => exact hproperties member hmember
      | methods => exact hmethods member hmember
    · intro h
      have hkind (kind : MemberKind) (member : Fields)
          (hmember : .object member ∈ (get fields kind.word).items) :
          callsOfMember kind member ≤ limit :=
        h kind member (memberItems_singleton kind hitem ▸ hmember)
      exact ⟨hkind .constructors, hkind .properties, hkind .methods⟩
  · refine .of_eq ?_ (membersFit_of_refused hitem)
    cases item with
    | object fields =>
      have hname : (TypeEntry.fullNameOf fields).isEmpty = true :=
        List.isEmpty_iff.mpr (not_not.mp (isType_object_iff.not.mp hitem))
      simp only [loadTypeWithin, loadType, fields?, hname, if_true]
    | null | bool _ | int _ | float _ | string _ | array _ => rfl

/-! ## Assemblies -/

theorem mem_typeItems {items : List Json} {t : Json} :
    t ∈ typeItems items ↔ ∃ a, .object a ∈ items ∧ t ∈ (get a "types").items := by
  simp only [typeItems, List.mem_flatMap, List.mem_filterMap]
  constructor
  · rintro ⟨a, ⟨item, hitem, ha⟩, ht⟩
    exact ⟨a, eq_object_of_fields?_eq_some ha ▸ hitem, ht⟩
  · rintro ⟨a, ha, ht⟩
    exact ⟨a, ⟨_, ha, rfl⟩, ht⟩

theorem membersFit_typeItems_iff {items : List Json} :
    (∀ item ∈ items, MembersFit limit (typeItems [item])) ↔ MembersFit limit (typeItems items) := by
  constructor
  · intro h
    refine membersFit_iff.mp fun t ht => ?_
    obtain ⟨a, ha, hta⟩ := mem_typeItems.mp ht
    have hmem : t ∈ typeItems [.object a] := mem_typeItems.mpr ⟨a, List.mem_singleton_self _, hta⟩
    exact membersFit_iff.mpr (h _ ha) t hmem
  · intro h item hitem
    refine membersFit_iff.mp fun t ht => ?_
    obtain ⟨a, ha, hta⟩ := mem_typeItems.mp ht
    have hmem : t ∈ typeItems items := mem_typeItems.mpr ⟨a, List.mem_singleton.mp ha ▸ hitem, hta⟩
    exact membersFit_iff.mpr h t hmem

theorem loadAssemblyWithin_meets (item : Json) :
    Limited.Meets (MembersFit limit (typeItems [item])) (loadAssemblyWithin limit item)
      (loadAssembly item) := by
  cases item with
  | object fields =>
    have htypes : typeItems [.object fields] = (get fields "types").items :=
      List.flatMap_singleton _ _
    rw [htypes]
    have hnote (events : List Event) : Limited.Meets True ⟨some (), events⟩ ⟨(), events⟩ :=
      .of_eq rfl trivial
    refine .congr (.bind (hnote _) (.map (.collect fun t _ => loadTypeWithin_meets _ t) _)) ?_
    exact (and_iff_right trivial).trans membersFit_iff
  | null | bool _ | int _ | float _ | string _ | array _ =>
    exact .of_eq rfl fun _ _ hmember => absurd hmember List.not_mem_nil

/-! ## Dumps -/

/-- **A dump is loaded in full exactly when there are calls enough for each of its members.** -/
theorem ofJsonWithin_meets {fields : Fields} {items : List Json}
    (hitems : get fields "assemblies" = .array items) (limit : Nat) :
    ∃ limited full, ofJsonWithin limit (.object fields) = .ok limited ∧
      ofJson (.object fields) = .ok full ∧
      limited.Meets (MembersFit limit (typeItems items)) full := by
  refine ⟨Limited.collect (loadAssemblyWithin limit) items,
    Logged.collect (items.map loadAssembly), ?_, ?_, ?_⟩
  · simp only [ofJsonWithin, assemblyItems?, fields?, hitems]
  · simp only [ofJson, assemblyItems?, fields?, hitems]
  · exact (Limited.Meets.collect fun item _ => loadAssemblyWithin_meets item).congr
      membersFit_typeItems_iff

/-- **Malformed entries are left out one by one, unless one of them is too deep.**  An object with a
list of assemblies is loaded exactly when there are calls enough for each object among the entries
of members, those that are refused included.  Then exactly the accepted entries of each list are
loaded, in order and each as it says by itself, the warnings are as many as the refused entries and
the assemblies with an error, and refused entries may be put in everywhere, as long as the dump is
still loaded. -/
theorem ofJsonWithin_screened {fields : Fields} {items : List Json}
    (hitems : get fields "assemblies" = .array items) (limit : Nat) :
    ∃ limited, ofJsonWithin limit (.object fields) = .ok limited ∧
      ((∃ catalog, limited.value = some catalog) ↔ MembersFit limit (typeItems items)) ∧
      (∀ catalog, limited.value = some catalog →
        List.Forall₂ (fun item a => IsObjectWith (IsAssemblyOf · a) item)
          (items.filter IsAssembly) catalog ∧
        warnings limited.log = refusals IsAssembly items +
          (items.filterMap fields?).countP (fun a => HasError a) +
          refusals IsType (typeItems items) + refusedMembers (typeItems items) ∧
        ∀ fields' items' limited' catalog', get fields' "assemblies" = .array items' →
          Inserted (fun item => ¬IsAssembly item) (ObjectExtended AssemblyFieldsPadded) items items' →
            ofJsonWithin limit (.object fields') = .ok limited' → limited'.value = some catalog' →
              catalog' = catalog) ∧
      ∀ j calls, TypeRef.calls j ≤ calls →
        (TypeRef.IsReadable j ↔ ∃ ref, TypeRef.ofJsonWithin calls j = .ok ref) := by
  obtain ⟨limited, full, hlimited, hfull, hmeets⟩ := ofJsonWithin_meets hitems limit
  obtain ⟨full', hfull', hloaded, hwarnings, hinserted, -⟩ := ofJson_screened hitems
  obtain rfl := Except.ok.inj (hfull.symm.trans hfull')
  have hwhole {limited : Limited (List Assembly)} {full : Logged (List Assembly)} {enough : Prop}
      (h : limited.Meets enough full) {catalog : List Assembly}
      (hcatalog : limited.value = some catalog) : catalog = full.value ∧ limited.log = full.log := by
    have hcomplete := h.complete (h.isSome_iff.mp ⟨catalog, hcatalog⟩)
    rw [hcomplete] at hcatalog ⊢
    exact ⟨(Option.some_inj.mp hcatalog).symm, rfl⟩
  refine ⟨limited, hlimited, hmeets.isSome_iff, fun catalog hcatalog => ?_, fun j calls hcalls => ?_⟩
  · obtain ⟨rfl, hlog⟩ := hwhole hmeets hcatalog
    refine ⟨hloaded, hlog ▸ hwarnings,
      fun fields' items' limited' catalog' hitems' hpadded hload' hcatalog' => ?_⟩
    obtain ⟨more, hmore, hsame⟩ := hinserted fields' items' hitems' hpadded
    obtain ⟨_, full', hload'', hfull', hmeets'⟩ := ofJsonWithin_meets hitems' limit
    obtain rfl := Except.ok.inj (hload'.symm.trans hload'')
    obtain rfl := Except.ok.inj (hmore.symm.trans hfull')
    rw [(hwhole hmeets' hcatalog').1, hsame]
  · rw [TypeRef.ofJsonWithin_eq, granted_of_le hcalls, ← TypeRef.ofJson_isOk_iff]
    cases TypeRef.ofJson j with
    | error e => exact iff_of_false not_exists_ok not_exists_ok
    | ok ref => exact iff_of_true ⟨ref, rfl⟩ ⟨ref, rfl⟩

/-- An assembly with an error and one user, and the same one beside an entry of the wrong shape, with
such entries also among its types and methods, a type without a full name, a method whose reference
has an unknown kind, and a property whose element is no reference.  Reading the array takes two
calls, so with one call neither is loaded. -/
theorem ofJsonWithin_screened_user :
    let user (properties methods : List Json) : Json := .object [
      ("full_name".toList, .string "Sandbox.User".toList),
      ("properties".toList, .array properties), ("methods".toList, .array methods)]
    let engine (types : List Json) : Json := .object [
      ("name".toList, .string "Sandbox.Engine".toList),
      ("error".toList, .string "missing".toList), ("types".toList, .array types)]
    let dump (assemblies : List Json) : Fields := [("assemblies".toList, .array assemblies)]
    let array (element : Json) : Json :=
      .object [("kind".toList, .string "array".toList), ("element".toList, element)]
    let load : Json := .object [("return_type".toList, array (.string "Sandbox.Pool".toList))]
    let unknown : Json :=
      .object [("return_type".toList, .object [("kind".toList, .string "unknown".toList)])]
    let odd : Json := .object [("type".toList, array (.bool true))]
    let nameless : Json := .object [("name".toList, .string "NoFullName".toList)]
    let items := [engine [user [] [load]]]
    let items' := [.int 7,
      engine [.string "garbage".toList, user [odd] [unknown, load, .int 7], nameless]]
    get (dump items) "assemblies" = .array items ∧ ¬MembersFit 1 (typeItems items) ∧
      ∃ catalog log log', ofJsonWithin 20 (.object (dump items)) = .ok ⟨some catalog, log⟩ ∧
        ofJsonWithin 20 (.object (dump items')) = .ok ⟨some catalog, log'⟩ ∧
        warnings log = 1 ∧ warnings log' = 7 ∧ catalog.length = 1 := by
  intro user engine dump array load unknown odd nameless items items'
  have hget (items : List Json) : get (dump items) "assemblies" = .array items := rfl
  have huser : ObjectExtended TypeFieldsPadded (user [] [load])
      (user [odd] [unknown, load, .int 7]) := by
    refine .object ⟨?_, fun kind => ?_⟩
    · exact (((AgreeOutside.refl _ []).cons_of_mem (by decide) _ _).cons_of_mem
        (by decide) _ _).cons _
    · cases kind with
      | constructors => exact .nil
      | properties => exact .insert (by decide +kernel) .nil
      | methods =>
        exact .insert (by decide +kernel) (.keep rfl (.insert (by decide +kernel) .nil))
  have hengine : ObjectExtended AssemblyFieldsPadded (engine [user [] [load]])
      (engine [.string "garbage".toList, user [odd] [unknown, load, .int 7], nameless]) := by
    refine .object ⟨?_,
      .insert (by decide +kernel) (.keep huser (.insert (by decide +kernel) .nil))⟩
    exact (((AgreeOutside.refl _ []).cons_of_mem (by decide) _ _).cons _).cons _
  have hinserted : Inserted (fun item => ¬IsAssembly item) (ObjectExtended AssemblyFieldsPadded)
      items items' := .insert (by decide +kernel) (.keep hengine .nil)
  -- whether a dump is loaded is found out by loading it
  have hloads (limit : Nat) (items : List Json) {limited : Limited (List Assembly)}
      (h : ofJsonWithin limit (.object (dump items)) = .ok limited) :
      limited.value.isSome = (Limited.collect (loadAssemblyWithin limit) items).value.isSome :=
    congrArg (·.value.isSome) (Except.ok.inj h).symm
  obtain ⟨short, hshort, hfits, -⟩ := ofJsonWithin_screened (hget items) 1
  have hnone : short.value.isSome = false := (hloads 1 items hshort).trans (by decide +kernel)
  obtain ⟨limited, hlimited, -, hloaded, -⟩ := ofJsonWithin_screened (hget items) 20
  obtain ⟨limited', hlimited', -, hloaded', -⟩ := ofJsonWithin_screened (hget items') 20
  obtain ⟨catalog, hcatalog⟩ := Option.isSome_iff_exists.mp <|
    (hloads 20 items hlimited).trans (by decide +kernel : _ = true)
  obtain ⟨catalog', hcatalog'⟩ := Option.isSome_iff_exists.mp <|
    (hloads 20 items' hlimited').trans (by decide +kernel : _ = true)
  obtain ⟨hentries, hwarnings, hpadded⟩ := hloaded catalog hcatalog
  obtain ⟨-, hwarnings', -⟩ := hloaded' catalog' hcatalog'
  obtain rfl := hpadded _ _ limited' catalog' (hget items') hinserted hlimited' hcatalog'
  refine ⟨hget items, fun h => ?_, catalog', limited.log, limited'.log, ?_, ?_,
    hwarnings.trans (by decide +kernel), hwarnings'.trans (by decide +kernel), ?_⟩
  · obtain ⟨catalog, hsome⟩ := hfits.mpr h
    rw [hsome] at hnone
    exact nomatch hnone
  · rw [hlimited, ← hcatalog]
  · rw [hlimited', ← hcatalog']
  · rw [← hentries.length_eq]
    decide +kernel

/-! ## Dumps that are not loaded -/

/-- A reference whose arguments are nested `n` deep. -/
def nestedReference : Nat → Json
  | 0 => .string "System.Int32".toList
  | n + 1 => .object [("full_name".toList, .string "Sandbox.Cell".toList),
      ("arguments".toList, .array [nestedReference n])]

theorem calls_nestedReference (n : Nat) : TypeRef.calls (nestedReference n) = 3 * n + 1 := by
  induction n with
  | zero => rw [nestedReference, TypeRef.calls]
  | succ n ih =>
    have hone (j : Json) : callsUpTo TypeRef.ofJson TypeRef.calls [j] = TypeRef.calls j := by
      rw [callsUpTo, callsUpTo, callsThen, ite_self, Nat.max_zero]
    have harguments : Json.field "arguments".toList
        [("full_name".toList, .string "Sandbox.Cell".toList),
          ("arguments".toList, .array [nestedReference n])] = .array [nestedReference n] := rfl
    rw [nestedReference, TypeRef.calls_named rfl, harguments, Json.items, hone, ih]
    omega

/-- **No number of calls is enough for all dumps.**  A property whose type is nested deep enough keeps
any dump from being loaded. -/
theorem exists_not_loaded (limit : Nat) :
    ∃ fields items limited, get fields "assemblies" = .array items ∧
      ofJsonWithin limit (.object fields) = .ok limited ∧ limited.value = none := by
  let property : Fields := [("type".toList, nestedReference limit)]
  let user : Json := .object [("full_name".toList, .string "Sandbox.User".toList),
    ("properties".toList, .array [.object property])]
  let items : List Json := [.object [("types".toList, .array [user])]]
  let dump : Fields := [("assemblies".toList, .array items)]
  have hitems : get dump "assemblies" = .array items := rfl
  obtain ⟨limited, _, hlimited, -, hmeets⟩ := ofJsonWithin_meets hitems limit
  refine ⟨dump, items, limited, hitems, hlimited, (hmeets.stopped fun hfits => ?_).1⟩
  have hname : strip "Sandbox.User".toList ≠ [] := by decide
  have huser : IsType user := isType_object_iff.mpr hname
  have hmember : .object property ∈ memberItems .properties (typeItems items) :=
    mem_memberItems.mpr ⟨user, List.mem_singleton_self _, huser, _, rfl, List.mem_singleton_self _⟩
  have hcalls : callsOfMember .properties property = 3 * limit + 1 := calls_nestedReference limit
  have hle := hfits .properties property hmember
  omega

end Catalog
end HaxeBindings
