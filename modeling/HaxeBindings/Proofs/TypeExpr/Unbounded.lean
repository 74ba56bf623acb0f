import HaxeBindings.Proofs.TypeExpr.Cut
import HaxeBindings.Proofs.TypeExpr.Nodes

/-!
# Reading to any depth

The reader stops at a depth, and nothing but that stops it early: a string below the
root is shorter than the text it was taken from.  So the same reading without a bound
comes to an end too (`parseUnbounded`), and the bounded one is to be compared with it.

* `length_lt_of_mem_below` --- the strings below the root are shorter.  For an element
  and for arguments this is plain.  The nullable wrapper without an argument puts in a
  string of its own, the name of the root object type, and is longer than that name;
* `parseWithin_eq_cut` --- on every text, at every depth, the bounded reader gives the
  unbounded tree cut off;
* `parse_eq_cut` --- the same at the depth of the reader, where a tree that is not too
  high is whole;
* `parse_eq_ofShape` --- so the reader, which goes one level less deep below the root,
  does not show it as long as the trees there are not too high themselves.

The texts are arbitrary, malformed ones included, and so is the vocabulary.
-/

namespace HaxeBindings

open Text Schema

/-! ## Lengths -/

namespace Schema

theorem length_le_of_mem_segments {d : Int} {t s : Text} (h : s ∈ segments d t) :
    s.length ≤ t.length := by
  induction t generalizing d s with
  | nil => rw [List.mem_singleton.mp h]
  | cons c rest ih =>
    rw [List.length_cons]
    unfold segments at h
    split at h
    · rcases List.mem_cons.mp h with rfl | h
      · exact Nat.zero_le _
      · exact Nat.le_succ_of_le (ih h)
    · obtain ⟨first, others, hsegments⟩ :=
        List.exists_cons_of_ne_nil (segments_ne_nil (depthBehind d c) rest)
      rw [hsegments, consFirst] at h
      rcases List.mem_cons.mp h with rfl | h
      · rw [List.length_cons]
        exact Nat.succ_le_succ (ih (hsegments ▸ List.mem_cons_self))
      · exact Nat.le_succ_of_le (ih (hsegments ▸ List.mem_cons_of_mem first h))

theorem mem_of_mem_dropEmptyLast {ts : List Text} {t : Text} (h : t ∈ dropEmptyLast ts) :
    t ∈ ts := by
  unfold dropEmptyLast at h
  split at h
  · exact (List.dropLast_sublist ts).subset h
  · exact h

theorem length_le_of_mem_argumentsOf {inner a : Text} (h : a ∈ argumentsOf inner) :
    a.length ≤ inner.length := by
  obtain ⟨segment, hsegment, rfl⟩ := List.mem_map.mp (mem_of_mem_dropEmptyLast h)
  exact Nat.le_trans (length_strip_le segment) (length_le_of_mem_segments hsegment)

theorem length_afterFirst_lt {c : Char} {t : Text} (h : t ≠ []) :
    (afterFirst c t).length < t.length := by
  have hrest := (List.dropWhile_suffix (· != c) (l := t)).length_le
  have hpos := List.length_pos_iff.mpr h
  rw [afterFirst, List.length_drop]
  omega

/-- An argument is shorter than the text it is taken from, since the brackets are not in it. -/
theorem length_lt_of_mem_arguments {text a : Text} (h : a ∈ (split text).arguments) :
    a.length < text.length := by
  cases hbracketed : isBracketed (strip text) with
  | false =>
    rw [split_of_not_bracketed hbracketed] at h
    exact absurd h List.not_mem_nil
  | true =>
    rw [split_of_bracketed hbracketed] at h
    have hne : strip text ≠ [] := by
      rintro hnil
      rw [hnil] at hbracketed
      exact Bool.false_ne_true hbracketed
    have hargument := length_le_of_mem_argumentsOf h
    have hafter := length_afterFirst_lt (c := '<') hne
    have hstrip := length_strip_le text
    rw [List.length_dropLast] at hargument
    omega

theorem length_base_split_le (text : Text) : (split text).base.length ≤ text.length := by
  cases hbracketed : isBracketed (strip text) with
  | false =>
    rw [split_of_not_bracketed hbracketed]
    exact length_strip_le text
  | true =>
    rw [split_of_bracketed hbracketed]
    have hbefore := (List.takeWhile_prefix (· != '<') (l := strip text)).length_le
    exact Nat.le_trans (length_strip_le _) (Nat.le_trans hbefore (length_strip_le text))

end Schema

namespace TypeExpr

variable {vocabulary : List Text}

theorem length_lt_of_mem_below_application {text t : Text}
    (h : t ∈ (shapeOfApplication text (split text)).below) : t.length < text.length := by
  unfold shapeOfApplication at h
  split at h
  · exact absurd h List.not_mem_nil
  · split at h
    · next hnullable =>
      rw [Shape.below, List.mem_singleton] at h
      cases harguments : (split text).arguments with
      | nil =>
        -- there is no argument, and the wrapper is longer than what it wraps instead
        have hlonger : objectName.length < nullableName.length := by decide
        have hbase := length_base_split_le text
        rw [hnullable.1] at hbase
        rw [h, harguments, List.headD_nil]
        exact Nat.lt_of_lt_of_le hlonger hbase
      | cons first others =>
        rw [h, harguments, List.headD_cons]
        exact length_lt_of_mem_arguments (harguments ▸ List.mem_cons_self)
    · exact length_lt_of_mem_arguments h

/-- **The strings below the root are shorter than the text.** -/
theorem length_lt_of_mem_below {text t : Text} (h : t ∈ (shape vocabulary text).below) :
    t.length < text.length := by
  have hstrip := length_strip_le text
  unfold shape at h
  simp only at h
  split at h
  · exact absurd h List.not_mem_nil
  · next hne =>
    split at h
    · exact absurd h List.not_mem_nil
    · split at h
      · have hpos := List.length_pos_iff.mpr hne
        have hsuffix : arraySuffix.length = 2 := rfl
        rw [Shape.below, List.mem_singleton] at h
        rw [h, elementText, List.length_take, hsuffix]
        omega
      · exact Nat.lt_of_lt_of_le (length_lt_of_mem_below_application h) hstrip

/-- Reading asks for shorter and shorter strings, so it comes to an end on every text. -/
theorem wellFounded_below (vocabulary : List Text) :
    WellFounded fun t text => t ∈ (shape vocabulary text).below :=
  Subrelation.wf length_lt_of_mem_below (InvImage.wf List.length Nat.lt_wfRel.wf)

/-! ## Reading without a bound -/

/-- Reads a schema string relative to a target vocabulary, to any depth. -/
def parseUnbounded (vocabulary : List Text) (text : Text) : TypeExpr :=
  match _ : shape vocabulary text with
  | .object => object
  | .primitive keyword => .primitive keyword
  | .array element => .array (parseUnbounded vocabulary element)
  | .parameter name => .parameter name
  | .nullable inner => .nullable (parseUnbounded vocabulary inner)
  | .named name arguments =>
    .named name (arguments.attach.map fun t => parseUnbounded vocabulary t.val)
termination_by text.length
decreasing_by
  all_goals
    refine @length_lt_of_mem_below vocabulary _ _ ?_
    rw [‹shape vocabulary text = _›]
  · exact List.mem_singleton_self _
  · exact List.mem_singleton_self _
  · exact t.property

/-- The unbounded reader looks at the root and reads the strings below it. -/
theorem parseUnbounded_eq (vocabulary : List Text) (text : Text) :
    parseUnbounded vocabulary text =
      ofShape (parseUnbounded vocabulary) (shape vocabulary text) := by
  rw [parseUnbounded]
  split
  · next hshape => rw [hshape, ofShape]
  · next hshape => rw [hshape, ofShape]
  · next hshape => rw [hshape, ofShape]
  · next hshape => rw [hshape, ofShape]
  · next hshape => rw [hshape, ofShape]
  · next hshape => rw [hshape, ofShape, List.attach_map_val]

theorem cut_ofShape (read : Text → TypeExpr) (levels : Nat) (s : Shape) :
    cut (levels + 1) (ofShape read s) = ofShape (fun t => cut levels (read t)) s := by
  cases s with
  | named name arguments =>
    rw [ofShape, ofShape, cut, List.map_map]
    rfl
  | _ => rfl

/-- **The bounded reader gives the unbounded tree cut off**, whatever the text is. -/
theorem parseWithin_eq_cut (vocabulary : List Text) (levels : Nat) (text : Text) :
    parseWithin vocabulary levels text = cut levels (parseUnbounded vocabulary text) := by
  induction levels generalizing text with
  | zero => rfl
  | succ levels ih =>
    rw [parseWithin_succ, parseUnbounded_eq, cut_ofShape]
    exact congrArg (fun read => ofShape read (shape vocabulary text)) (funext ih)

/-- A tree that is lower than the levels it was read within is the unbounded one. -/
theorem parseWithin_eq_parseUnbounded {levels : Nat} {text : Text}
    (h : (parseWithin vocabulary levels text).height < levels) :
    parseWithin vocabulary levels text = parseUnbounded vocabulary text := by
  rw [parseWithin_eq_cut] at h ⊢
  exact cut_eq_self (height_cut_lt_iff.mp h)

/-! ## The depth of the reader -/

theorem ofShape_congr {read read' : Text → TypeExpr} {s : Shape}
    (h : ∀ t ∈ s.below, read t = read' t) : ofShape read s = ofShape read' s := by
  cases s with
  | array element => exact congrArg array (h element (List.mem_singleton_self _))
  | nullable inner => exact congrArg nullable (h inner (List.mem_singleton_self _))
  | named name arguments => exact congrArg (named name) (List.map_congr_left h)
  | _ => rfl

/-- **Above the depth of the reader the strings below the root are read as they are read alone.** -/
theorem parse_eq_ofShape {text : Text}
    (h : ∀ t ∈ (shape vocabulary text).below, (parse vocabulary t).height < maxDepth) :
    parse vocabulary text = ofShape (parse vocabulary) (shape vocabulary text) := by
  rw [parse, parseWithin_succ]
  refine ofShape_congr fun t ht => ?_
  have hheight := h t ht
  have hwhole : parse vocabulary t = parseUnbounded vocabulary t :=
    parseWithin_eq_parseUnbounded (Nat.lt_succ_of_lt hheight)
  rw [hwhole] at hheight ⊢
  rw [parseWithin_eq_cut, cut_eq_self hheight]

/-- **Reading to a depth is reading to any depth, cut off.**  Reading without a bound comes to an end
on every text, since it asks for shorter and shorter strings.  The reader gives its tree with the
root object type in place of every subtree at the depth behind the last that is kept, so no node is
deeper than that, and it gives the tree itself when there is none. -/
theorem parse_eq_cut (vocabulary : List Text) :
    (WellFounded fun t text => t ∈ (shape vocabulary text).below) ∧
    ∀ text,
      parseUnbounded vocabulary text =
        ofShape (parseUnbounded vocabulary) (shape vocabulary text) ∧
      parse vocabulary text = cut (maxDepth + 1) (parseUnbounded vocabulary text) ∧
      (parse vocabulary text).height ≤ maxDepth + 1 ∧
      ((parseUnbounded vocabulary text).height ≤ maxDepth →
        parse vocabulary text = parseUnbounded vocabulary text) := by
  refine ⟨wellFounded_below vocabulary, fun text => ?_⟩
  have hcut : parse vocabulary text = cut (maxDepth + 1) (parseUnbounded vocabulary text) :=
    parseWithin_eq_cut vocabulary (maxDepth + 1) text
  refine ⟨parseUnbounded_eq vocabulary text, hcut, ?_, fun hheight => ?_⟩
  · rw [hcut]
    exact height_cut_le _ _
  · rw [hcut, cut_eq_self (Nat.lt_succ_of_le hheight)]

/-- As many arrays in each other as the reader keeps are read in full, and with one more the element
type is lost. -/
theorem parse_eq_cut_arrays :
    let arrays (n : Nat) : Text := "System.Int32".toList ++ (List.replicate n arraySuffix).flatten
    (parseUnbounded [] (arrays 64)).height ≤ maxDepth ∧
      parse [] (arrays 64) = parseUnbounded [] (arrays 64) ∧
      parse [] (arrays 65) ≠ parseUnbounded [] (arrays 65) := by
  intro arrays
  have hwhole : parseWithin [] 65 (arrays 64) = parseUnbounded [] (arrays 64) :=
    parseWithin_eq_parseUnbounded (by decide +kernel)
  have hdeeper : parseWithin [] 66 (arrays 65) = parseUnbounded [] (arrays 65) :=
    parseWithin_eq_parseUnbounded (by decide +kernel)
  have hheight : (parseUnbounded [] (arrays 64)).height ≤ maxDepth := by
    rw [← hwhole]
    decide +kernel
  obtain ⟨-, hparse⟩ := parse_eq_cut []
  obtain ⟨-, -, -, hagree⟩ := hparse (arrays 64)
  refine ⟨hheight, hagree hheight, fun hsame => ?_⟩
  exact absurd (congrArg schema (hsame.trans hdeeper.symm)) (by decide +kernel)

end TypeExpr
end HaxeBindings
