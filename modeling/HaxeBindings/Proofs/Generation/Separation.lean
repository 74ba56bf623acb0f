import HaxeBindings.Proofs.Files.Making
import HaxeBindings.Proofs.Generation.OutputPath
import HaxeBindings.Proofs.Generation.Placement

/-!
# Files that are in no directory's way

The names of package directories have no dot in them, since namespaces are cut at their dots, and
the name of an extern file has one in front of its extension.  So below the output root no file
stands where a directory has to be, nor a directory where a file has to be, and a run that starts
with an empty tree makes and writes everything.

* `FileTree.IsApart` --- directories and files, told apart by their names;
* `Written.place_of_isApart`, `Written.addAll_of_isApart` --- one file is placed and keeps them
  apart, and so are all files of a run;
* `generate_succeeds` --- a run returns once its externs are rendered, in whatever order.

The output root itself may have names with dots, also one that an extern could have.  It is shorter
than the path of any extern.
-/

namespace HaxeBindings

open Text

/-! ## Names of directories and files -/

/-- The names of a directory: the output root, one above it or one below it. -/
def OfDirectory (root names : List Text) : Prop :=
  names <+: root ∨ ∃ below, names = root ++ below ∧ ∀ name ∈ below, '.' ∉ name

/-- The names of a file below the output root. -/
def OfFile (root names : List Text) : Prop :=
  ∃ below name, names = root ++ below ++ [name] ∧ '.' ∈ name ∧ name ≠ Location.up

section

variable {root names below : List Text}

/-- **No names are those of a file and of a directory.** -/
theorem OfFile.not_ofDirectory (h : OfFile root names) : ¬OfDirectory root names := by
  obtain ⟨front, last, rfl, hdot, -⟩ := h
  rintro (habove | ⟨below, hbelow, hplain⟩)
  · have hlength := habove.length_le
    simp only [List.length_append, List.length_singleton] at hlength
    omega
  · rw [List.append_assoc] at hbelow
    obtain rfl := List.append_cancel_left hbelow
    exact hplain last (List.mem_append_right _ (List.mem_singleton_self _)) hdot

/-- What stands above a directory are directories. -/
theorem ofDirectory_of_prefix (hplain : ∀ name ∈ below, '.' ∉ name) (h : names <+: root ++ below) :
    OfDirectory root names := by
  rcases List.prefix_or_prefix_of_prefix h (List.prefix_append root below) with habove | ⟨rest, rfl⟩
  · exact .inl habove
  · have hrest : rest <+: below := (List.prefix_append_right_inj root).mp h
    exact .inr ⟨rest, rfl, fun name hname => hplain name (hrest.subset hname)⟩

/-- The place of names that do not lead up. -/
theorem Path.place_of_ne_up (h : ∀ name ∈ names, name ≠ Location.up) :
    Path.place ⟨.current, names⟩ = { names } :=
  Path.foldl_child_of_ne_up h _

end

/-! ## Trees -/

/-- Below the output root directories have names without a dot and files have names with one, and
nothing is refused. -/
structure FileTree.IsApart (root : List Text) (tree : FileTree) : Prop where
  directories : ∀ l ∈ tree.directories, OfDirectory root l.names
  files : ∀ l, (tree.file? l).isSome = true → OfFile root l.names
  willing : ∀ access, tree.refusal? access = none

/-- The path of an extern file below the output root, in a directory whose names have no dot. -/
structure Path.IsExternPath (root : List Text) (p : Path) : Prop where
  anchor : p.anchor = .current
  above : ∃ below, p.parent.names = root ++ below ∧ ∀ name ∈ below, '.' ∉ name
  last : ∃ name, p.names = p.parent.names ++ [name] ∧ '.' ∈ name
  noUp : ∀ name ∈ p.names, name ≠ Location.up
  plain : ∀ name ∈ p.names, Char.ofNat 0 ∉ name

namespace Path.IsExternPath

variable {root : List Text} {p : Path}

theorem ofFile (h : p.IsExternPath root) : OfFile root p.names := by
  obtain ⟨below, hbelow, -⟩ := h.above
  obtain ⟨name, hname, hdot⟩ := h.last
  refine ⟨below, name, by rw [← hbelow, hname], hdot, h.noUp name ?_⟩
  rw [hname]
  exact List.mem_append_right _ (List.mem_singleton_self _)

theorem ofDirectory (h : p.IsExternPath root) {names : List Text}
    (hnames : names <+: p.parent.names) : OfDirectory root names := by
  obtain ⟨below, hbelow, hplain⟩ := h.above
  exact ofDirectory_of_prefix hplain (hbelow ▸ hnames)

theorem mem_names_of_prefix (h : p.IsExternPath root) {names : List Text}
    (hnames : names <+: p.parent.names) : ∀ name ∈ names, name ∈ p.names := by
  obtain ⟨last, hlast, -⟩ := h.last
  rw [hlast]
  exact fun name hname => List.mem_append_left _ (hnames.subset hname)

theorem place_eq (h : p.IsExternPath root) {names : List Text}
    (hnames : ∀ name ∈ names, name ∈ p.names) : Path.place ⟨p.anchor, names⟩ = { names } := by
  rw [h.anchor]
  exact Path.place_of_ne_up fun name hname => h.noUp name (hnames name hname)

/-- No file is in the way of the directory of an extern. -/
theorem isClear {tree : FileTree} (h : p.IsExternPath root) (htree : tree.IsApart root) :
    tree.IsClear p.parent where
  plain name hname := h.plain name (h.mem_names_of_prefix (List.prefix_refl _) name hname)
  free names hnames := by
    rw [← Option.not_isSome_iff_eq_none]
    intro hfile
    have hplace : Path.place ⟨p.parent.anchor, names⟩ = { names } :=
      h.place_eq (h.mem_names_of_prefix hnames)
    have hof := htree.files _ hfile
    rw [hplace] at hof
    exact hof.not_ofDirectory (h.ofDirectory hnames)
  willing := htree.willing

end Path.IsExternPath

/-! ## One file and all files -/

namespace Written

variable {root : Path} {extension : Text} {externs : List Rendered}

/-- **A file is placed, and directories and files stay apart.** -/
theorem place_of_isApart {root : List Text} {tree : FileTree} {p : Path}
    (htree : tree.IsApart root) (hp : p.IsExternPath root) (t : Text) :
    ∃ next, place tree p t = ⟨next, none⟩ ∧ next.IsApart root := by
  obtain ⟨made, hmade, hadded⟩ := FileTree.makeDirectories_of_isClear (hp.isClear htree)
  obtain ⟨hfiles, hgrows⟩ : made.files = tree.files ∧ tree.Grows made := by
    have hgrows := tree.makeDirectories_grows p.parent
    rwa [hmade] at hgrows
  have hwilling : ∀ access, made.refusal? access = none := hgrows.refusals ▸ htree.willing
  have hthere : made.isDirectoryPath p.parent = true := by
    have hparent := FileTree.isDirectoryPath_makeDirectories (congrArg FileTree.Change.error hmade)
    rwa [hmade] at hparent
  have hdirectories : ∀ l ∈ made.directories, OfDirectory root l.names := by
    intro l hl
    rcases hadded l hl with hl | ⟨names, hnames, rfl⟩
    · exact htree.directories l hl
    · have hplace : Path.place ⟨p.parent.anchor, names⟩ = { names } :=
        hp.place_eq (hp.mem_names_of_prefix hnames)
      rw [hplace]
      exact hp.ofDirectory hnames
  have hplace : p.place = { names := p.names } := hp.place_eq fun _ h => h
  have hfree : ¬made.isDirectory p.place = true := by
    obtain ⟨name, hname, -⟩ := hp.last
    have hmem : name ∈ p.names := by
      rw [hname]
      exact List.mem_append_right _ (List.mem_singleton_self _)
    rw [FileTree.isDirectory, Bool.or_eq_true, hplace]
    rintro (hgiven | hdirectory)
    · exact hp.noUp name hmem (beq_iff_eq.mp (List.all_eq_true.mp hgiven name hmem))
    · exact hp.ofFile.not_ofDirectory (hdirectories _ (List.contains_iff_mem.mp hdirectory))
  have hlocate : made.locate p = .ok p.place := by
    obtain ⟨name, hname, -⟩ := hp.last
    have hnames : p = ⟨p.anchor, p.parent.names ++ [name]⟩ := by rw [← hname]
    rw [hnames]
    exact FileTree.locate_concat hthere (hname ▸ hp.plain) hwilling
  refine ⟨made.put p.place (.text t), ?_, hdirectories, fun l hl => ?_, hwilling⟩
  · rw [place, hmade]
    simp only
    rw [FileTree.write, hlocate]
    simp only
    rw [if_neg hfree, hwilling]
    exact FileTree.attempt_ok made _
  · rw [FileTree.file?_put] at hl
    split at hl
    · next heq =>
      rw [heq, hplace]
      exact hp.ofFile
    · rw [FileTree.file?, hfiles] at hl
      exact htree.files l hl

/-- **All externs are written**, by one step for each. -/
theorem addAll_of_isApart {w : Written} (htree : w.tree.IsApart root.names)
    (hpaths : ∀ r ∈ externs, (r.outputPath root extension).IsExternPath root.names) :
    ∃ w', addAll root extension w externs = (w', none) ∧ w'.tree.IsApart root.names := by
  induction externs generalizing w with
  | nil => exact ⟨w, rfl, htree⟩
  | cons r rest ih =>
    obtain ⟨hr, hrest⟩ := List.forall_mem_cons.mp hpaths
    obtain ⟨next, hplace, hnext⟩ := place_of_isApart htree hr r.text
    obtain ⟨w', hall, hw'⟩ := @ih
      ⟨next, own (r.outputPath root extension) r.nativeName w.owners,
        w.log ++ w.replacementNote (r.outputPath root extension) r.nativeName⟩ hnext hrest
    refine ⟨w', ?_, hw'⟩
    rw [addAll, add, hplace]
    exact hall

end Written

/-! ## Runs -/

namespace Package

/-- Namespaces whose directory goes on from the output root and has no character that ends a path. -/
structure IsMakeable (o : Options) (ns : Text) : Prop where
  relative : ¬IsAnchored o ns
  plain : ∀ rest, ns = o.rootNamespace ++ '.' :: rest → Char.ofNat 0 ∉ rest

theorem IsMakeable.not_mem_directory {o : Options} {ns : Text} (h : IsMakeable o ns) :
    Char.ofNat 0 ∉ (ofType o ns).directory := by
  rcases ofType_cases o ns with ⟨hroot, -⟩ | ⟨rest, hrest, hbelow⟩
  · rw [hroot]
    exact List.not_mem_nil
  · rw [hbelow]
    intro hmem
    rcases mem_join hmem with hseparator | ⟨segment, hsegment, hmem⟩
    · exact absurd hseparator (by decide)
    · obtain ⟨piece, hpiece, rfl⟩ := List.mem_map.mp hsegment
      rcases mem_lower hmem with hmem | hlowered
      · exact h.plain rest hrest (mem_of_mem_pieces hpiece hmem)
      · exact absurd hlowered (by decide)

end Package

/-- An output root that is named by a relative path, which does not lead up and can be made. -/
structure IsPlainRoot (out : Text) : Prop where
  notBlank : isBlankText out = false
  relative : out.head? ≠ some '/'
  noUp : Location.up ∉ (Path.ofText out).names
  plain : Char.ofNat 0 ∉ out

namespace IsPlainRoot

variable {out : Text}

theorem anchor_eq (h : IsPlainRoot out) : (Path.ofText out).anchor = .current :=
  Path.ofText_anchor_eq_current_iff.mpr h.relative

theorem not_mem_name (h : IsPlainRoot out) :
    ∀ name ∈ (Path.ofText out).names, Char.ofNat 0 ∉ name := by
  intro name hname hends
  exact h.plain ((Path.mem_names_ofText hname).2.2 _ hends)

/-- In an empty tree the output root is made. -/
theorem makeDirectories (h : IsPlainRoot out) :
    ∃ made, ({} : FileTree).makeDirectories (Path.ofText out) = ⟨made, none⟩ ∧
      made.IsApart (Path.ofText out).names := by
  have hclear : ({} : FileTree).IsClear (Path.ofText out) :=
    ⟨h.not_mem_name, fun _ _ => rfl, fun _ => rfl⟩
  obtain ⟨made, hmade, hadded⟩ := FileTree.makeDirectories_of_isClear hclear
  obtain ⟨hfiles, hgrows⟩ : made.files = [] ∧ ({} : FileTree).Grows made := by
    have hgrows := ({} : FileTree).makeDirectories_grows (Path.ofText out)
    rwa [hmade] at hgrows
  refine ⟨made, hmade, fun l hl => ?_, fun l hl => ?_, fun _ => hgrows.refusals ▸ rfl⟩
  · rcases hadded l hl with hl | ⟨names, hnames, rfl⟩
    · exact absurd hl List.not_mem_nil
    · have hup : ∀ name ∈ names, name ≠ Location.up :=
        fun name hname heq => h.noUp (heq ▸ hnames.subset hname)
      rw [h.anchor_eq, Path.place_of_ne_up hup]
      exact .inl hnames
  · rw [FileTree.file?, hfiles] at hl
    exact absurd hl Bool.false_ne_true

end IsPlainRoot

/-- With the default options the path of an extern is that of an extern file, when its namespace
has a directory that can be made. -/
theorem Mapping.isExternPath_outputPath {m : Mapping} (hm : m.options = {}) {d : Descriptor}
    {r : Rendered} (h : m.render d = .file r) (hd : Package.IsMakeable {} d.namespaceName)
    {out : Text} (hout : IsPlainRoot out) :
    (r.outputPath (Path.ofText out) ({} : Options).extension).IsExternPath
      (Path.ofText out).names := by
  obtain ⟨hne, hslash, hentry⟩ := Mapping.isEntry_fileName hm h
  obtain ⟨hpackage, hclass⟩ := Mapping.render_eq_file h
  rw [hm] at hpackage hclass
  have hdirectory : r.package.directory = (Package.ofType {} d.namespaceName).directory := by
    rw [hpackage]
  have hrelative : r.package.directory.head? ≠ some '/' := by
    rw [hdirectory, ne_eq, Package.head?_directory_eq_slash_iff]
    exact hd.relative
  have hdot : '.' ∉ r.package.directory := hdirectory ▸ Package.no_dot_directory {} d.namespaceName
  have hends : Char.ofNat 0 ∉ r.package.directory := hdirectory ▸ hd.not_mem_directory
  have hpath := Rendered.outputPath_eq hne hslash (by decide : '/' ∉ ({} : Options).extension)
    (Path.ofText out)
  rw [Path.join_of_relative hrelative] at hpath
  rw [hpath]
  have hbelow (name : Text) (hname : name ∈ (Path.ofText r.package.directory).names) :=
    (Path.mem_names_ofText hname).2.2
  have hfile : Char.ofNat 0 ∉ r.fileName ({} : Options).extension := by
    obtain ⟨-, hchars⟩ := isIdentifierChar_of_typeIdentifier? (forall_mem_of_all (by decide)) hclass
    rw [Rendered.fileName, List.mem_append, List.mem_cons]
    rintro (hmem | hmem | hmem)
    · exact absurd (hchars _ hmem) (by decide)
    · exact absurd hmem (by decide)
    · exact absurd hmem (by decide)
  constructor
  · exact hout.anchor_eq
  · refine ⟨_, List.dropLast_concat, fun name hname hmem => ?_⟩
    exact hdot (hbelow name hname _ hmem)
  · refine ⟨r.fileName ({} : Options).extension, ?_, ?_⟩
    · rw [Path.parent_names, List.dropLast_concat]
    · exact List.mem_append_right _ List.mem_cons_self
  · intro name hname
    rcases List.mem_append.mp hname with hname | hname
    · rcases List.mem_append.mp hname with hname | hname
      · exact fun heq => hout.noUp (heq ▸ hname)
      · exact (Path.isEntry_of_mem_names hdot hname).ne_up
    · exact List.mem_singleton.mp hname ▸ hentry.ne_up
  · intro name hname
    rcases List.mem_append.mp hname with hname | hname
    · rcases List.mem_append.mp hname with hname | hname
      · exact hout.not_mem_name name hname
      · exact fun hmem => hends (hbelow name hname _ hmem)
    · exact List.mem_singleton.mp hname ▸ hfile

/-- The paths of the externs of a run are those of extern files. -/
theorem isExternPath_of_renderTypes {types : List Descriptor} {externs : List Rendered} {out : Text}
    (h : (renderTypes {} types).result = .ok externs)
    (htypes : ∀ d ∈ types, Package.IsMakeable {} d.namespaceName) (hout : IsPlainRoot out) :
    ∀ r ∈ externs, (r.outputPath (Path.ofText out) ({} : Options).extension).IsExternPath
      (Path.ofText out).names := by
  obtain ⟨m, hm, rfl⟩ := renderTypes_eq_ok h
  intro r hr
  obtain ⟨d, hd, hfile⟩ := List.mem_filterMap.mp hr
  exact Mapping.isExternPath_outputPath (options_of_ofTypes hm)
    (Rendering.file?_eq_some_iff.mp hfile) (htypes d hd) hout

/-- A run whose externs are rendered returns. -/
theorem exists_generate {types : List Descriptor} {externs : List Rendered} {out : Text}
    (h : (renderTypes {} types).result = .ok externs)
    (htypes : ∀ d ∈ types, Package.IsMakeable {} d.namespaceName) (hout : IsPlainRoot out) :
    ∃ s, (generate {} types out {}).result = .ok s := by
  obtain ⟨made, hmade, hapart⟩ := hout.makeDirectories
  obtain ⟨w, hall, -⟩ := Written.addAll_of_isApart (w := { tree := made }) hapart
    (isExternPath_of_renderTypes h htypes hout)
  rw [generate_of_addAll hout.notBlank hmade h hall]
  exact ⟨_, rfl⟩

/-- **Externs never stand in the way of each other's directories.**  Let namespaces have
directories that can be made, and let the output root be a relative path that does not lead up.  No
path of an extern is that of a directory of an extern, and a run that starts with an empty tree
returns once its externs are rendered, in whatever order the types come. -/
theorem generate_succeeds {types : List Descriptor} {externs : List Rendered} {out : Text}
    (hrendered : (renderTypes {} types).result = .ok externs)
    (htypes : ∀ d ∈ types, Package.IsMakeable {} d.namespaceName) (hout : IsPlainRoot out) :
    let path (r : Rendered) := r.outputPath (Path.ofText out) ({} : Options).extension
    (∀ r ∈ externs, ∀ e ∈ externs, ¬(path e).parent.Continues (path r)) ∧
      ∀ order : List Descriptor, order.Perm types →
        ∃ s, (generate {} order out {}).result = .ok s := by
  intro path
  have hpaths := isExternPath_of_renderTypes hrendered htypes hout
  refine ⟨fun r hr e he => ?_, fun order horder => ?_⟩
  · rintro ⟨names, hnames⟩
    have habove : (path r).names <+: (path e).parent.names :=
      ⟨names, (congrArg Path.names hnames).symm⟩
    exact (hpaths r hr).ofFile.not_ofDirectory ((hpaths e he).ofDirectory habove)
  · obtain ⟨m, hm, -⟩ := renderTypes_eq_ok hrendered
    obtain ⟨m', hm', -, hrender⟩ := exists_ofTypes_of_perm hm horder
    obtain ⟨others, hothers⟩ : ∃ others, (renderTypes {} order).result = .ok others := by
      refine (renderTypes_isOk_iff hm').mpr fun d hd cause => ?_
      rw [hrender]
      exact (renderTypes_isOk_iff hm).mp ⟨externs, hrendered⟩ d (horder.mem_iff.mp hd) cause
    exact exists_generate hothers (fun d hd => htypes d (horder.mem_iff.mp hd)) hout

/-- A class and a namespace of the same name, below an output root that has the name of a file. -/
theorem generate_succeeds_namesakes :
    let types : List Descriptor :=
      [{ fullName := "Sandbox.Kit.Button".toList }, { fullName := "Sandbox.Kit".toList }]
    let out := "Kit.hx".toList
    (∃ externs, (renderTypes {} types).result = .ok externs) ∧ IsPlainRoot out ∧
      (∀ d ∈ types, Package.IsMakeable {} d.namespaceName) ∧
      ∃ s, (generate {} types out {}).result = .ok s := by
  intro types out
  let externs := [
    Rendered.bare ⟨"sbox.kit".toList, "kit".toList⟩ "Sandbox.Kit.Button".toList "Button".toList
      "Button".toList,
    Rendered.bare ⟨"sbox".toList, []⟩ "Sandbox.Kit".toList "Kit".toList "Kit".toList]
  have hrendered : (renderTypes {} types).result = .ok externs := by decide +kernel
  have hout : IsPlainRoot out := ⟨by decide +kernel, by decide, by decide, by decide⟩
  have htypes : ∀ d ∈ types, Package.IsMakeable {} d.namespaceName := by
    have hplain (d : Descriptor) (hends : Char.ofNat 0 ∉ d.namespaceName)
        (hrelative : ¬Package.IsAnchored {} d.namespaceName) :
        Package.IsMakeable {} d.namespaceName := by
      refine ⟨hrelative, fun rest hrest hmem => hends ?_⟩
      rw [hrest]
      exact List.mem_append_right _ (List.mem_cons_of_mem _ hmem)
    refine List.forall_mem_cons.mpr ⟨hplain _ (by decide +kernel) ?_,
      List.forall_mem_singleton.mpr (hplain _ (by decide +kernel) ?_)⟩
    · rw [← Package.head?_directory_eq_slash_iff]
      decide +kernel
    · rw [← Package.head?_directory_eq_slash_iff]
      decide +kernel
  exact ⟨⟨externs, hrendered⟩, hout, htypes,
    (generate_succeeds hrendered htypes hout).2 types (List.Perm.refl _)⟩

end HaxeBindings
