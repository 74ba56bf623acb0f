import HaxeBindings.Proofs.Files.Path
import HaxeBindings.Proofs.Generation.Independence
import HaxeBindings.Proofs.Mapping.Referral

/-!
# Where an extern is written

The path of an extern is the output root, joined by the directory of its package and
then by its file name.  The file name is an identifier with an extension.  The
directory is made from raw segments of the host's namespace, and these may be empty
or hold slashes.

* `Package.no_dot_directory` --- no dot is left in a directory, so its names never lead
  back up;
* `Package.IsAnchored` --- the namespaces whose directory starts with a slash, and so
  replaces the output root it is joined to (`Package.head?_directory_eq_slash_iff`);
* `renderTypes_outputPath_iff` --- the path of an extern goes on from a relative output
  root by entries and the file name exactly when the namespace of its type is not of
  that kind, and otherwise it does not depend on the output root at all;
* `renderTypes_outputPath_anchored` --- a name with an empty component, whose extern
  is written elsewhere.
-/

namespace HaxeBindings

open Text Schema Name

/-! ## The directory of a package -/

namespace Package

variable {o : Options}

/-- Namespaces below the root whose first segment starts with a slash, or is empty while another
segment follows. -/
def IsAnchored (o : Options) (ns : Text) : Prop :=
  ∃ rest, ns = o.rootNamespace ++ '.' :: rest ∧ (rest.head? = some '/' ∨ rest.head? = some '.')

theorem ofType_cases (o : Options) (ns : Text) :
    (ofType o ns = root o ∧ ¬∃ rest, ns = o.rootNamespace ++ '.' :: rest) ∨
      ∃ rest, ns = o.rootNamespace ++ '.' :: rest ∧
        ofType o ns = below o ((pieces '.' rest).map lower) := by
  by_cases hbelow : ∃ rest, ns = o.rootNamespace ++ '.' :: rest
  · obtain ⟨rest, rfl⟩ := hbelow
    exact .inr ⟨rest, rfl, ofType_append rest⟩
  · refine .inl ⟨?_, hbelow⟩
    have hforeign : (o.rootNamespace ++ ['.']).isPrefixOf ns = false := by
      rw [Bool.eq_false_iff, ne_eq, List.isPrefixOf_iff_prefix]
      rintro ⟨rest, rfl⟩
      exact hbelow ⟨rest, by simp⟩
    unfold ofType ofNamespace? segmentsBelow?
    split
    · rfl
    · simp [hforeign]

/-- The segments of a namespace are cut at its dots, and lowering brings in none. -/
theorem no_dot_directory (o : Options) (ns : Text) : '.' ∉ (ofType o ns).directory := by
  rcases ofType_cases o ns with ⟨hroot, -⟩ | ⟨rest, -, hbelow⟩
  · rw [hroot]
    exact List.not_mem_nil
  · rw [hbelow]
    intro hdot
    rcases mem_join hdot with hseparator | ⟨segment, hsegment, hdot⟩
    · exact absurd hseparator (by decide)
    · obtain ⟨piece, hpiece, rfl⟩ := List.mem_map.mp hsegment
      rcases mem_lower hdot with hdot | hlowered
      · exact not_mem_of_mem_pieces hpiece hdot
      · exact absurd hlowered (by decide)

theorem exists_join_cons (separator t : Text) (ts : List Text) :
    ∃ tail, join separator (t :: ts) = t ++ tail := by
  cases ts with
  | nil => exact ⟨[], by rw [join, List.intercalate_singleton, List.append_nil]⟩
  | cons u ts => exact ⟨_, by rw [join, List.intercalate_cons_cons, List.append_assoc]⟩

/-- The segments of a text, joined by slashes, start with one when the text does or when an empty
segment comes first. -/
theorem head?_join_eq_slash_iff (rest : Text) :
    (join ['/'] ((pieces '.' rest).map lower)).head? = some '/' ↔
      rest.head? = some '/' ∨ rest.head? = some '.' := by
  cases rest with
  | nil => decide
  | cons c tail =>
    obtain ⟨first, others, hpieces⟩ := List.exists_cons_of_ne_nil (pieces_ne_nil '.' tail)
    rw [pieces]
    split
    · next hdot =>
      subst hdot
      rw [hpieces, List.map_cons, List.map_cons, join, List.intercalate_cons_cons]
      exact iff_of_true rfl (.inr rfl)
    · next hdot =>
      rw [hpieces, consFirst, List.map_cons]
      obtain ⟨end', hjoin⟩ := exists_join_cons ['/'] (lower (c :: first)) (others.map lower)
      have hne : lower (c :: first) ≠ [] := lower_ne_nil (List.cons_ne_nil _ _)
      rw [hjoin, List.head?_append_of_ne_nil _ hne, head?_lower_eq_slash_iff]
      simp [hdot]

/-- **The directories that start with a slash.** -/
theorem head?_directory_eq_slash_iff (o : Options) (ns : Text) :
    (ofType o ns).directory.head? = some '/' ↔ IsAnchored o ns := by
  rcases ofType_cases o ns with ⟨hroot, hforeign⟩ | ⟨rest, rfl, hbelow⟩
  · rw [hroot]
    refine iff_of_false (fun hhead => nomatch hhead) ?_
    rintro ⟨rest, hns, -⟩
    exact hforeign ⟨rest, hns⟩
  · rw [hbelow, below, head?_join_eq_slash_iff]
    constructor
    · exact fun hhead => ⟨rest, rfl, hhead⟩
    · rintro ⟨other, hother, hhead⟩
      obtain rfl := (List.cons.inj (List.append_cancel_left hother)).2
      exact hhead

end Package

/-! ## The path of an extern -/

/-- The package and the class name of an extern are those of its descriptor. -/
theorem Mapping.render_eq_file {m : Mapping} {d : Descriptor} {r : Rendered}
    (h : m.render d = .file r) :
    r.package = Package.ofType m.options d.namespaceName ∧
      d.className? m.options.defaultTypeName = some r.className := by
  obtain ⟨-, className, hclass, rfl⟩ := of_render_eq_file h
  exact ⟨rfl, hclass⟩

namespace Rendered

/-- The name of the file of an extern. -/
def fileName (r : Rendered) (extension : Text) : Text := r.className ++ '.' :: extension

/-- The path of an extern, when the parts of its file name hold no slash. -/
theorem outputPath_eq {r : Rendered} {extension : Text} (hne : r.className ≠ [])
    (hclass : '/' ∉ r.className) (hextension : '/' ∉ extension) (root : Path) :
    r.outputPath root extension =
      ⟨(root.join r.package.directory).anchor,
        (root.join r.package.directory).names ++ [r.fileName extension]⟩ := by
  have hfile := Path.ofText_fileName hne hclass hextension
  have hrelative : (r.className ++ '.' :: extension).head? ≠ some '/' := by
    rw [← Path.ofText_anchor_eq_current_iff, hfile]
  rw [outputPath, Path.join_of_relative hrelative, hfile]
  rfl

/-- The extern of a type without members, whose class is declared as given. -/
def bare (package : Package) (nativeName className declaration : Text) : Rendered :=
  { nativeName
    className
    package
    text := "package ".toList ++ package.name ++ ";\n\n@:native(\"".toList ++ nativeName ++
      "\")\nextern class ".toList ++ declaration ++ " \x7b\n\x7d\n".toList
    memberCount := 0 }

/-- The extern's path goes on from a directory by entries and the name of its file. -/
def LiesBelow (r : Rendered) (root : Path) (extension : Text) : Prop :=
  ∃ directories, (∀ name ∈ directories, Path.IsEntry name) ∧ Path.IsEntry (r.fileName extension) ∧
    r.outputPath root extension = ⟨root.anchor, root.names ++ directories ++ [r.fileName extension]⟩

end Rendered

/-- With the default options a class name is an identifier, so its file has a name that leads to an
entry. -/
theorem Mapping.isEntry_fileName {m : Mapping} (hm : m.options = {}) {d : Descriptor} {r : Rendered}
    (h : m.render d = .file r) :
    r.className ≠ [] ∧ '/' ∉ r.className ∧ Path.IsEntry (r.fileName ({} : Options).extension) := by
  obtain ⟨-, hclass⟩ := Mapping.render_eq_file h
  rw [hm] at hclass
  obtain ⟨hne, hchars⟩ := isIdentifierChar_of_typeIdentifier? (forall_mem_of_all (by decide)) hclass
  have hslash : '/' ∉ r.className := fun hmem => absurd (hchars '/' hmem) (by decide)
  have hextension : '/' ∉ ({} : Options).extension := by decide
  have hfile := Path.ofText_fileName hne hslash hextension
  have hmem : r.fileName ({} : Options).extension ∈
      (Path.ofText (r.className ++ '.' :: ({} : Options).extension)).names := by
    rw [hfile]
    exact List.mem_singleton_self _
  obtain ⟨hname, hplain, -⟩ := Path.mem_names_ofText hmem
  refine ⟨hne, hslash, hname, fun hup => ?_, hplain⟩
  obtain ⟨c, rest, hcons⟩ := List.exists_cons_of_ne_nil hne
  rw [Rendered.fileName, hcons] at hup
  have hdot : c = '.' := (List.cons.inj hup).1
  have hc := hchars c (hcons ▸ List.mem_cons_self)
  rw [hdot] at hc
  exact absurd hc (by decide)

/-- **Where externs are written.**  With the default options the path of an extern goes on from a
relative output root by entries and its file name exactly when the namespace of its type is not
anchored.  Where it is, the path is absolute and the same for every output root. -/
theorem renderTypes_outputPath_iff {types : List Descriptor} {externs : List Rendered}
    (h : (renderTypes {} types).result = .ok externs) :
    let extension := ({} : Options).extension
    ∃ m, Mapping.ofTypes {} types = .ok m ∧
      externs = types.filterMap (fun d => (m.render d).file?) ∧
      ∀ d ∈ types, ∀ r, m.render d = .file r → ∀ out : Path, out.anchor = .current →
        (r.LiesBelow out extension ↔ ¬Package.IsAnchored {} d.namespaceName) ∧
        (Package.IsAnchored {} d.namespaceName →
          (r.outputPath out extension).anchor ≠ .current ∧
            ∀ other, r.outputPath other extension = r.outputPath out extension) := by
  intro extension
  obtain ⟨m, hm, hexterns⟩ := renderTypes_eq_ok h
  refine ⟨m, hm, hexterns, fun d hd r hr out hout => ?_⟩
  have hoptions : m.options = {} := options_of_ofTypes hm
  obtain ⟨hne, hslash, hentry⟩ := Mapping.isEntry_fileName hoptions hr
  have hextension : '/' ∉ extension := by decide
  have hpath := Rendered.outputPath_eq hne hslash hextension
  have hdirectory : r.package.directory = (Package.ofType {} d.namespaceName).directory := by
    rw [(Mapping.render_eq_file hr).1, hoptions]
  have hanchored := Package.head?_directory_eq_slash_iff {} d.namespaceName
  rw [← hdirectory] at hanchored
  have hleaves (hhead : r.package.directory.head? = some '/') :
      (r.outputPath out extension).anchor ≠ .current := by
    rw [hpath, Path.join_of_anchored hhead]
    exact fun hcurrent => Path.ofText_anchor_eq_current_iff.mp hcurrent hhead
  rw [← hanchored]
  refine ⟨⟨?_, fun hrelative => ?_⟩, fun hhead => ⟨hleaves hhead, fun other => ?_⟩⟩
  · rintro ⟨directories, -, -, hbelow⟩ hhead
    exact hleaves hhead (by rw [hbelow, hout])
  · refine ⟨(Path.ofText r.package.directory).names, fun name hname => ?_, hentry, ?_⟩
    · refine Path.isEntry_of_mem_names ?_ hname
      rw [hdirectory]
      exact Package.no_dot_directory {} d.namespaceName
    · rw [hpath, Path.join_of_relative hrelative]
  · rw [hpath, hpath, Path.join_of_anchored hhead, Path.join_of_anchored hhead]

/-- Slashes inside a segment make more directories, below any relative output root. -/
theorem renderTypes_outputPath_iff_slashes :
    let types : List Descriptor := [{ fullName := "Sandbox.Ui//Kit.Button".toList }]
    let out : Path := ⟨.current, [Location.up, "out".toList]⟩
    ∃ r, (renderTypes {} types).result = .ok [r] ∧
      ¬Package.IsAnchored {} "Sandbox.Ui//Kit".toList ∧
      r.LiesBelow out ({} : Options).extension := by
  intro types out
  let r := Rendered.bare ⟨"sbox.ui//kit".toList, "ui//kit".toList⟩
    "Sandbox.Ui//Kit.Button".toList "Button".toList "Button".toList
  have hrun : (renderTypes {} types).result = .ok [r] := by decide +kernel
  have hrelative : ¬Package.IsAnchored {} "Sandbox.Ui//Kit".toList := by
    rw [← Package.head?_directory_eq_slash_iff]
    decide +kernel
  obtain ⟨m, -, hexterns, hpaths⟩ := renderTypes_outputPath_iff hrun
  have hmem : r ∈ types.filterMap fun d => (m.render d).file? := hexterns ▸ List.mem_cons_self
  obtain ⟨d, hd, hfile⟩ := List.mem_filterMap.mp hmem
  have hnamespace : d.namespaceName = "Sandbox.Ui//Kit".toList := by
    rw [List.mem_singleton.mp hd]
    decide +kernel
  refine ⟨r, hrun, hrelative, (hpaths d hd r (Rendering.file?_eq_some_iff.mp hfile) out rfl).1.mpr ?_⟩
  rwa [hnamespace]

/-- **An empty component in a host name takes its extern out of the output root.** -/
theorem renderTypes_outputPath_anchored :
    let types : List Descriptor := [{ fullName := "Sandbox..Etc.Foo".toList }]
    let out : Path := ⟨.current, ["out".toList]⟩
    let extension := ({} : Options).extension
    ∃ r, (renderTypes {} types).result = .ok [r] ∧
      r.outputPath out extension = ⟨.root, ["etc".toList, "Foo.hx".toList]⟩ ∧
      ¬r.LiesBelow out extension := by
  intro types out extension
  let r := Rendered.bare ⟨"sbox..etc".toList, "/etc".toList⟩
    "Sandbox..Etc.Foo".toList "Foo".toList "Foo".toList
  have hpath : r.outputPath out extension = ⟨.root, ["etc".toList, "Foo.hx".toList]⟩ := by decide
  refine ⟨r, by decide +kernel, hpath, ?_⟩
  rintro ⟨directories, -, -, hbelow⟩
  have hanchor : Anchor.root = .current := congrArg Path.anchor (hpath.symm.trans hbelow)
  exact absurd hanchor (by decide)

end HaxeBindings
