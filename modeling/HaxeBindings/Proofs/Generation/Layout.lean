import HaxeBindings.Proofs.Generation.Isolation
import HaxeBindings.Proofs.Generation.Lines
import HaxeBindings.Proofs.Generation.OutputPath
import HaxeBindings.Proofs.Member.Lines

/-!
# The layout of an extern file

`ExternFile.lines_write` says which lines a file is written from.  Here the text of the file is cut
at its line breaks, and what comes out are these lines: names and types without line breaks leave
none in the head and in the declarations, and doc comments never have one.

* `ExternFile.IsLaidOut` --- the head, the groups with their doc comments, the closing brace and an
  empty piece behind it; as many declarations as are announced; and no doc comment that ends before
  its line does;
* `render_layout` --- every file that a descriptor is rendered to is laid out in this way.
-/

namespace HaxeBindings

open Text Schema Name

namespace ExternFile

/-- The text of the file, cut at its line breaks, is made of these pieces: the package, an empty
line, the host name and the class; for each group its doc comment, unless its summary is blank, and
its declarations, all of them indented; and the closing brace, which ends with a line break. -/
structure IsLaidOut (d : Descriptor) (groups : List MemberGroup) (r : Rendered) : Prop where
  pieces : pieces '\n' r.text =
    ["package ".toList ++ r.package.name ++ ";".toList, [],
      "@:native(\"".toList ++ escapeLiteral (nativeName d) ++ "\")".toList,
      "extern class ".toList ++ r.className ++ genericList d.typeParameters ++ " \x7b".toList] ++
    groups.flatMap (fun g => (Writer.docLines g ++ g.lines).map ("  ".toList ++ ·)) ++
    ["\x7d".toList, []]
  count : (groups.flatMap MemberGroup.lines).length = r.memberCount
  /-- A doc comment is opened and closed on its line, and nothing closes it earlier. -/
  comments : ∀ g ∈ groups, ∀ comment ∈ Writer.docLines g,
    (∃ inner, comment = "/** ".toList ++ inner ++ " */".toList) ∧
      ∀ front behind, "  ".toList ++ comment = front ++ "*/".toList ++ behind → behind = []

/-! ## The head -/

section

variable {d : Descriptor}

theorem isLine_nativeLine (h : d.IsLined) : IsLine (nativeLine d) := by
  have hopen : IsLine "@:native(\"".toList := by decide
  have hclose : IsLine "\")".toList := by decide
  have hname : IsLine (nativeName d) := by
    unfold nativeName
    split
    · exact h.name
    · exact h.fullName
  exact isLine_append.mpr ⟨isLine_append.mpr ⟨hopen, isLine_escapeLiteral hname⟩, hclose⟩

theorem isLine_of_mem_typeParameters (h : d.IsLined) : ∀ g ∈ d.typeParameters, IsLine g := by
  intro g hg
  exact h.fullName.of_subset fun c => mem_of_mem_arguments (List.mem_filter.mp hg).1

theorem isLine_packageName (h : d.IsLined) : IsLine (Package.ofType {} d.namespaceName).name := by
  have hroot : IsLine ({} : Options).rootPackageText := by decide
  rcases Package.ofType_cases {} d.namespaceName with ⟨hofType, -⟩ | ⟨rest, hrest, hofType⟩
  · rw [hofType]
    exact hroot
  · rw [hofType, Package.name_below]
    intro hc
    rcases Package.mem_nameOf hc with hc | hc | ⟨piece, hpiece, hc⟩ | hc
    · exact hroot hc
    · exact absurd hc (by decide)
    · have hnamespace : '\n' ∈ d.namespaceName := by
        rw [hrest]
        exact List.mem_append_right _ (List.mem_cons_of_mem _ (mem_of_mem_pieces hpiece hc))
      exact h.fullName (mem_of_mem_base (mem_of_mem_namespaceOf hnamespace))
    · exact absurd hc (by decide)

/-- The lines in front of the members have no line breaks. -/
theorem isLine_of_mem_headLines {className : Text}
    (hclass : ∀ c ∈ className, isIdentifierChar c = true) (h : d.IsLined) :
    ∀ t ∈ headLines className d (Package.ofType {} d.namespaceName).name, IsLine t := by
  have hword : IsLine "package ".toList := by decide
  have hend : IsLine ";".toList := by decide
  have hwords : IsLine "extern class ".toList := by decide
  have hbrace : IsLine " \x7b".toList := by decide
  have hpackage : IsLine
      ("package ".toList ++ (Package.ofType {} d.namespaceName).name ++ ";".toList) :=
    isLine_append.mpr ⟨isLine_append.mpr ⟨hword, isLine_packageName h⟩, hend⟩
  have hnamed : IsLine ("extern class ".toList ++ className) :=
    isLine_append.mpr ⟨hwords, isLine_of_identifier hclass⟩
  have hparameters : IsLine (genericList d.typeParameters) :=
    isLine_genericList (isLine_of_mem_typeParameters h)
  have hclassLine : IsLine (classLine className d) :=
    isLine_append.mpr ⟨isLine_append.mpr ⟨hnamed, hparameters⟩, hbrace⟩
  intro t ht
  simp only [headLines, List.mem_cons, List.not_mem_nil, or_false] at ht
  rcases ht with rfl | rfl | rfl | rfl
  · exact hpackage
  · exact isLine_nil
  · exact isLine_nativeLine h
  · exact hclassLine

/-! ## The groups -/

/-- Doc comments and declarations are lines that are not empty. -/
theorem isDeclared_of_mem_docLines {g : MemberGroup} : ∀ t ∈ Writer.docLines g, IsDeclared t := by
  intro t ht
  unfold Writer.docLines at ht
  split at ht
  · exact absurd ht List.not_mem_nil
  · rw [List.mem_singleton.mp ht]
    refine ⟨?_, isLine_docComment _⟩
    rw [docComment, List.append_assoc]
    exact List.append_ne_nil_of_left_ne_nil (by decide) _

theorem isDeclared_of_mem_group {g : MemberGroup} (h : ∀ t ∈ g.lines, IsDeclared t) :
    ∀ t ∈ Writer.docLines g ++ g.lines, IsDeclared t :=
  List.forall_mem_append.mpr ⟨isDeclared_of_mem_docLines, h⟩

/-- Lines that are not empty are all indented. -/
theorem groupLines_eq_map {unit : Text} {g : MemberGroup} (h : ∀ t ∈ g.lines, IsDeclared t) :
    groupLines unit g = (Writer.docLines g ++ g.lines).map (unit ++ ·) := by
  refine List.map_congr_left fun t ht => if_neg fun hempty => ?_
  exact (isDeclared_of_mem_group h t ht).ne_nil (List.isEmpty_iff.mp hempty)

theorem isLine_of_mem_groupLines {unit : Text} (hunit : IsLine unit) {g : MemberGroup}
    (h : ∀ t ∈ g.lines, IsDeclared t) : ∀ t ∈ groupLines unit g, IsLine t := by
  rw [groupLines_eq_map h]
  intro t ht
  obtain ⟨line, hline, rfl⟩ := List.mem_map.mp ht
  exact isLine_append.mpr ⟨hunit, (isDeclared_of_mem_group h line hline).isLine⟩

theorem length_flatMap_lines (groups : List MemberGroup) :
    (groups.flatMap MemberGroup.lines).length = groups.foldr (fun g n => g.size + n) 0 := by
  induction groups with
  | nil => rfl
  | cons g groups ih => rw [List.flatMap_cons, List.length_append, ih, List.foldr_cons]; rfl

/-- Doc comments close where their lines end. -/
theorem closes_of_mem_docLines {g : MemberGroup} : ∀ comment ∈ Writer.docLines g,
    (∃ inner, comment = "/** ".toList ++ inner ++ " */".toList) ∧
      ∀ front behind, "  ".toList ++ comment = front ++ "*/".toList ++ behind → behind = [] := by
  intro comment hcomment
  unfold Writer.docLines at hcomment
  split at hcomment
  · exact absurd hcomment List.not_mem_nil
  · rw [List.mem_singleton.mp hcomment]
    exact ⟨⟨_, rfl⟩, fun front behind => eq_nil_of_docComment⟩

/-! ## The file -/

/-- **The pieces of a file** are the lines it is written from. -/
theorem pieces_write {className : Text} (hclass : ∀ c ∈ className, isIdentifierChar c = true)
    (h : d.IsLined) {groups : List MemberGroup} (hgroups : ∀ g ∈ groups, ∀ t ∈ g.lines, IsDeclared t) :
    Text.pieces '\n' (write "  ".toList className d (Package.ofType {} d.namespaceName).name
      groups).text =
      headLines className d (Package.ofType {} d.namespaceName).name ++
        groups.flatMap (fun g => (Writer.docLines g ++ g.lines).map ("  ".toList ++ ·)) ++
        ["\x7d".toList, []] := by
  have hbody : groups.flatMap (groupLines "  ".toList) =
      groups.flatMap fun g => (Writer.docLines g ++ g.lines).map ("  ".toList ++ ·) :=
    List.flatMap_congr fun g hg => groupLines_eq_map (hgroups g hg)
  rw [text_write, pieces_lines, hbody, List.append_assoc, List.append_assoc, List.append_assoc]
  · rfl
  · intro t ht
    rcases List.mem_append.mp ht with ht | ht
    · rcases List.mem_append.mp ht with ht | ht
      · exact isLine_of_mem_headLines hclass h t ht
      · obtain ⟨g, hg, ht⟩ := List.mem_flatMap.mp ht
        exact isLine_of_mem_groupLines (by decide) (hgroups g hg) t ht
    · rw [List.mem_singleton.mp ht]
      decide

end

end ExternFile

/-- **An extern file has the announced layout.**  With the default options, a descriptor whose names
and types have no line break is rendered to a file that is laid out from its groups, whatever its
summaries are. -/
theorem render_layout {index : ArityIndex} {d : Descriptor} {r : Rendered} (h : d.IsLined)
    (hr : (⟨index, {}⟩ : Mapping).render d = .file r) :
    ∃ groups, memberGroups (⟨index, {}⟩ : Mapping).map ⟨index, {}⟩ d = .ok groups ∧
      ExternFile.IsLaidOut d groups r := by
  obtain ⟨hmaps, className, hclassName, rfl⟩ := of_render_eq_file hr
  have hdefault : ∀ c ∈ ({} : Options).defaultTypeName, isIdentifierChar c = true :=
    forall_mem_of_all (by decide)
  obtain ⟨-, hclass⟩ := isIdentifierChar_of_typeIdentifier? hdefault hclassName
  have hgroups : ∀ g ∈ (⟨index, {}⟩ : Mapping).allGroupsOf d, ∀ t ∈ g.lines, IsDeclared t :=
    fun g hg => isDeclared_of_mem_lines h hg
  refine ⟨(⟨index, {}⟩ : Mapping).allGroupsOf d,
    (asks_memberGroups ⟨index, {}⟩ d).isOk_iff.mpr hmaps, ?_, ?_, ?_⟩
  · exact ExternFile.pieces_write hclass h hgroups
  · exact ExternFile.length_flatMap_lines _
  · exact fun g _ => ExternFile.closes_of_mem_docLines

/-- A summary with line breaks and comment ends in it, between other members. -/
theorem render_layout_panel :
    let d : Descriptor :=
      { fullName := "Sandbox.UI.Panel".toList
        properties := [{ name := "Title".toList, type := "System.String".toList,
                         summary := some "Ends */ here,\n*/ and here.".toList }]
        methods := [{ name := "Add".toList, parameters := [{ name := "c".toList, type := ['T'] }] }] }
    ∃ r, (⟨{}, {}⟩ : Mapping).render d = .file r ∧ d.IsLined ∧
      ∃ groups, memberGroups (⟨{}, {}⟩ : Mapping).map ⟨{}, {}⟩ d = .ok groups ∧
        ExternFile.IsLaidOut d groups r := by
  intro d
  let r : Rendered :=
    { nativeName := "Sandbox.UI.Panel".toList
      className := "Panel".toList
      package := ⟨"sbox.ui".toList, "ui".toList⟩
      text := ("package sbox.ui;\n\n@:native(\"Sandbox.UI.Panel\")\nextern class Panel \x7b\n" ++
        "  /** Ends * / here, * / and here. */\n  var Title(get,set):String;\n" ++
        "  function Add<T>(c:T):Void;\n\x7d\n").toList
      memberCount := 2 }
  have hr : (⟨{}, {}⟩ : Mapping).render d = .file r :=
    Rendering.file?_eq_some_iff.mp (by decide +kernel)
  have hd : d.IsLined := by
    refine ⟨by decide, by decide, fun c hc => absurd hc List.not_mem_nil, fun p hp => ?_,
      fun method hmethod => ?_⟩
    · rw [List.mem_singleton.mp hp]
      exact ⟨by decide, by decide⟩
    · rw [List.mem_singleton.mp hmethod]
      refine ⟨by decide, by decide, fun g hg => absurd hg List.not_mem_nil, fun p hp => ?_⟩
      rw [List.mem_singleton.mp hp]
      exact ⟨by decide, by decide⟩
  exact ⟨r, hr, hd, render_layout hd hr⟩

end HaxeBindings
