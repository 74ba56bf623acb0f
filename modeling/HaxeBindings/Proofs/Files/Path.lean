import HaxeBindings.Files.Tree
import HaxeBindings.Proofs.Text.Characters

/-!
# Paths below a directory

A path that is joined to a directory continues it (`Path.Continues`) unless it has an
anchor of its own, which a text has when it starts with a slash.  To stay below the
directory takes more than that: the names that follow have to be names of entries
(`Path.IsEntry`), so that none of them leads back up.
-/

namespace HaxeBindings

open Text

namespace Path

/-- A name that leads to an entry of the directory in which it is looked up. -/
structure IsEntry (name : Text) : Prop where
  isName : isName name = true
  ne_up : name ≠ Location.up
  no_slash : '/' ∉ name

/-- A path continues another one when it starts with all of its names. -/
def Continues (p root : Path) : Prop := ∃ names, p = ⟨root.anchor, root.names ++ names⟩

/-! ## Reading a path -/

theorem ofText_anchor_eq_current_iff {t : Text} :
    (ofText t).anchor = .current ↔ t.head? ≠ some '/' := by
  rw [ofText, Anchor.ofText.eq_def]
  split
  · simp
  · simp
  · simp
  · next hslash =>
    refine iff_of_true rfl fun hhead => ?_
    obtain ⟨rest, rfl⟩ := List.head?_eq_some_iff.mp hhead
    exact hslash rest rfl

theorem mem_names_ofText {t name : Text} (h : name ∈ (ofText t).names) :
    isName name = true ∧ '/' ∉ name ∧ ∀ c ∈ name, c ∈ t := by
  obtain ⟨hpiece, hname⟩ := List.mem_filter.mp h
  exact ⟨hname, not_mem_of_mem_pieces hpiece, fun c hc => mem_of_mem_pieces hpiece hc⟩

/-- The names of a text without a dot are names of entries. -/
theorem isEntry_of_mem_names {t name : Text} (hdot : '.' ∉ t) (h : name ∈ (ofText t).names) :
    IsEntry name := by
  obtain ⟨hname, hslash, hchars⟩ := mem_names_ofText h
  refine ⟨hname, ?_, hslash⟩
  rintro rfl
  exact hdot (hchars '.' (by decide))

/-- A file name is a path of one name. -/
theorem ofText_fileName {base extension : Text} (hne : base ≠ []) (hbase : '/' ∉ base)
    (hextension : '/' ∉ extension) :
    ofText (base ++ '.' :: extension) = ⟨.current, [base ++ '.' :: extension]⟩ := by
  have hslash : '/' ∉ base ++ '.' :: extension := by simp [hbase, hextension]
  obtain ⟨c, rest, rfl⟩ := List.exists_cons_of_ne_nil hne
  have hname : isName (c :: rest ++ '.' :: extension) = true := by
    cases rest with
    | nil => simp [isName]
    | cons d rest => simp [isName]
  have hanchor : (ofText (c :: rest ++ '.' :: extension)).anchor = .current := by
    refine ofText_anchor_eq_current_iff.mpr fun hhead => hbase ?_
    rw [← Option.some_inj.mp hhead]
    exact List.mem_cons_self
  have hnames : (ofText (c :: rest ++ '.' :: extension)).names = [c :: rest ++ '.' :: extension] := by
    rw [ofText, pieces_eq_singleton hslash, List.filter_cons_of_pos hname, List.filter_nil]
  rw [← hanchor, ← hnames]

/-! ## Joining -/

theorem join_of_relative {t : Text} (h : t.head? ≠ some '/') (p : Path) :
    p.join t = ⟨p.anchor, p.names ++ (ofText t).names⟩ := by
  rw [join, if_pos (ofText_anchor_eq_current_iff.mpr h)]

theorem join_of_anchored {t : Text} (h : t.head? = some '/') (p : Path) : p.join t = ofText t := by
  rw [join, if_neg]
  exact fun hcurrent => ofText_anchor_eq_current_iff.mp hcurrent h

end Path
end HaxeBindings
