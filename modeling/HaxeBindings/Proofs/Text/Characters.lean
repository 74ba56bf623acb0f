import HaxeBindings.Name.Identifier
import HaxeBindings.Text.Blank
import HaxeBindings.Text.Lowercase
import Mathlib.Data.List.Basic
import Mathlib.Data.List.TakeWhile

/-!
# Where the characters of a name come from

Mapped types and packages are put together from pieces of host names.  This file says,
for each operation they go through, which characters can be in the result.  Cutting
and joining bring in nothing but the separator; an identifier holds identifier
characters only; and lowering brings in letters (`mem_lower`).

The last of these is read off the table of lower-case forms: a run of the table is
moved into one of a few stretches of code points (`IsLetterCode`) in which there is
no punctuation of schema strings and no blank (`isBlank_of_isLowered`).
-/

namespace HaxeBindings
namespace Text

open Schema Name

/-- A statement about the characters of a text is decided on the text: left to itself the search
would try all characters there are. -/
theorem forall_mem_of_all {p : Char → Prop} [DecidablePred p] {t : Text}
    (h : t.all (fun c => decide (p c)) = true) : ∀ c ∈ t, p c := fun c hc =>
  of_decide_eq_true (List.all_eq_true.mp h c hc)

/-! ## Cutting and joining -/

theorem mem_of_mem_simpleName {c : Char} {name : Text} (h : c ∈ simpleName name) : c ∈ name := by
  rw [simpleName, afterLast, List.mem_reverse] at h
  exact List.mem_reverse.mp ((List.takeWhile_prefix _).subset h)

theorem bne_of_mem_reverse {c d : Char} {t : Text} (h : c ∉ t) (hd : d ∈ t.reverse) :
    (d != c) = true := by
  rw [bne_iff_ne]
  rintro rfl
  exact h (List.mem_reverse.mp hd)

/-- What stands behind the last dot goes to the simple name as a whole. -/
theorem simpleName_append {t : Text} (h : '.' ∉ t) (s : Text) :
    simpleName (s ++ t) = simpleName s ++ t := by
  rw [simpleName, simpleName, afterLast, afterLast, List.reverse_append,
    List.takeWhile_append_of_pos fun _ => bne_of_mem_reverse h, List.reverse_append,
    List.reverse_reverse]

/-- A name without a dot is its own simple name. -/
theorem simpleName_eq_self {name : Text} (h : '.' ∉ name) : simpleName name = name :=
  simpleName_append h []

theorem mem_of_mem_namespaceOf {c : Char} {name : Text} (h : c ∈ namespaceOf name) : c ∈ name := by
  rw [namespaceOf, beforeLast, List.mem_reverse] at h
  exact List.mem_reverse.mp ((List.dropWhile_suffix _).subset (List.mem_of_mem_drop h))

theorem namespaceOf_append_cons {t : Text} (h : '.' ∉ t) (s : Text) :
    namespaceOf (s ++ '.' :: t) = s := by
  rw [namespaceOf, beforeLast, List.reverse_append, List.reverse_cons, List.append_assoc,
    List.dropWhile_append_of_pos fun _ => bne_of_mem_reverse h, List.singleton_append,
    List.dropWhile_cons_of_neg (by simp), List.drop_one, List.tail_cons, List.reverse_reverse]

/-- Behind the last dot nothing belongs to the namespace. -/
theorem namespaceOf_append {t : Text} (h : '.' ∉ t) (s : Text) :
    namespaceOf (s ++ t) = namespaceOf s := by
  rw [namespaceOf, namespaceOf, beforeLast, beforeLast, List.reverse_append,
    List.dropWhile_append_of_pos fun _ => bne_of_mem_reverse h]

/-- A name without a dot has no namespace. -/
theorem namespaceOf_eq_nil {name : Text} (h : '.' ∉ name) : namespaceOf name = [] :=
  namespaceOf_append h []

/-- A text is cut at the last occurrence of a character. -/
theorem exists_last_of_mem {c : Char} {t : Text} (h : c ∈ t) :
    ∃ front last, t = front ++ c :: last ∧ c ∉ last := by
  obtain ⟨behind, before, hcut, hbehind⟩ := List.eq_append_cons_of_mem (List.mem_reverse.mpr h)
  refine ⟨before.reverse, behind.reverse, ?_, fun hc => hbehind (List.mem_reverse.mp hc)⟩
  rw [← List.reverse_reverse t, hcut]
  simp

theorem mem_of_mem_pieces {c d : Char} {t piece : Text} (h : piece ∈ pieces d t) (hc : c ∈ piece) :
    c ∈ t := by
  induction t generalizing piece with
  | nil =>
    rw [pieces_nil, List.mem_singleton] at h
    exact absurd (h ▸ hc) List.not_mem_nil
  | cons x rest ih =>
    unfold pieces at h
    split at h
    · rcases List.mem_cons.mp h with rfl | h
      · exact absurd hc List.not_mem_nil
      · exact List.mem_cons_of_mem x (ih h hc)
    · obtain ⟨first, others, hpieces⟩ := List.exists_cons_of_ne_nil (pieces_ne_nil d rest)
      rw [hpieces, consFirst] at h
      rw [hpieces] at ih
      rcases List.mem_cons.mp h with rfl | h
      · rcases List.mem_cons.mp hc with rfl | hc
        · exact List.mem_cons_self
        · exact List.mem_cons_of_mem x (ih List.mem_cons_self hc)
      · exact List.mem_cons_of_mem x (ih (List.mem_cons_of_mem first h) hc)

theorem not_mem_of_mem_pieces {c : Char} {t piece : Text} (h : piece ∈ pieces c t) :
    c ∉ piece := by
  induction t generalizing piece with
  | nil =>
    rw [List.mem_singleton.mp h]
    exact List.not_mem_nil
  | cons x rest ih =>
    unfold pieces at h
    split at h
    · rcases List.mem_cons.mp h with rfl | h
      · exact List.not_mem_nil
      · exact ih h
    · next hx =>
      obtain ⟨first, others, hpieces⟩ := List.exists_cons_of_ne_nil (pieces_ne_nil c rest)
      rw [hpieces, consFirst] at h
      rw [hpieces] at ih
      rcases List.mem_cons.mp h with rfl | h
      · rw [List.mem_cons, not_or]
        exact ⟨fun heq => hx heq.symm, ih List.mem_cons_self⟩
      · exact ih (List.mem_cons_of_mem first h)

theorem pieces_eq_singleton {c : Char} {t : Text} (h : c ∉ t) : pieces c t = [t] := by
  induction t with
  | nil => rfl
  | cons x rest ih =>
    obtain ⟨hx, hrest⟩ := not_or.mp (mt List.mem_cons.mpr h)
    rw [pieces, if_neg fun heq => hx heq.symm, ih hrest, consFirst]

theorem pieces_append_cons {c : Char} {t : Text} (h : c ∉ t) (rest : Text) :
    pieces c (t ++ c :: rest) = t :: pieces c rest := by
  induction t with
  | nil => rw [List.nil_append, pieces, if_pos rfl]
  | cons x t ih =>
    obtain ⟨hx, ht⟩ := not_or.mp (mt List.mem_cons.mpr h)
    rw [List.cons_append, pieces, if_neg fun heq => hx heq.symm, ih ht, consFirst]

/-- Texts without the separator are the pieces of what they are joined to. -/
theorem pieces_append_flatMap {c : Char} {t : Text} {ts : List Text} (ht : c ∉ t)
    (hts : ∀ s ∈ ts, c ∉ s) : pieces c (t ++ ts.flatMap (c :: ·)) = t :: ts := by
  induction ts generalizing t with
  | nil => rw [List.flatMap_nil, List.append_nil, pieces_eq_singleton ht]
  | cons s ts ih =>
    rw [List.forall_mem_cons] at hts
    rw [List.flatMap_cons, List.cons_append, pieces_append_cons ht, ih hts.1 hts.2]

/-- The pieces of a text are joined to the text. -/
theorem exists_pieces (c : Char) (t : Text) :
    ∃ first others, pieces c t = first :: others ∧ t = first ++ others.flatMap (c :: ·) := by
  induction t with
  | nil => exact ⟨[], [], rfl, rfl⟩
  | cons x rest ih =>
    obtain ⟨first, others, hpieces, hrest⟩ := ih
    rw [pieces, hpieces]
    split
    · next hx =>
      refine ⟨[], first :: others, rfl, ?_⟩
      rw [List.flatMap_cons, List.nil_append, List.cons_append, ← hrest, hx]
    · exact ⟨x :: first, others, rfl, by rw [List.cons_append, ← hrest]⟩

/-- Joining puts the separator in front of every text but the first. -/
theorem join_cons (c : Char) (t : Text) (ts : List Text) :
    join [c] (t :: ts) = t ++ ts.flatMap (c :: ·) := by
  induction ts generalizing t with
  | nil => rw [join, List.intercalate_singleton, List.flatMap_nil, List.append_nil]
  | cons u ts ih =>
    rw [join, List.intercalate_cons_cons, ← join, ih, List.flatMap_cons, List.append_assoc]
    rfl

theorem mem_join {c : Char} {separator : Text} {ts : List Text} (h : c ∈ join separator ts) :
    c ∈ separator ∨ ∃ t ∈ ts, c ∈ t := by
  induction ts with
  | nil => exact absurd h List.not_mem_nil
  | cons t ts ih =>
    cases ts with
    | nil =>
      rw [join, List.intercalate_singleton] at h
      exact .inr ⟨t, List.mem_cons_self, h⟩
    | cons u ts =>
      rw [join, List.intercalate_cons_cons, List.mem_append, List.mem_append] at h
      rcases h with (h | h) | h
      · exact .inr ⟨t, List.mem_cons_self, h⟩
      · exact .inl h
      · rcases ih h with h | ⟨v, hv, h⟩
        · exact .inl h
        · exact .inr ⟨v, List.mem_cons_of_mem t hv, h⟩

/-! ## Lowering -/

/-- Code points without punctuation of schema strings and without blanks: the small letters of
ASCII, and the stretches between the spacing characters and the surrogates. -/
def IsLetterCode (n : Nat) : Prop :=
  0x61 ≤ n ∧ n ≤ 0x7A ∨ 0xC0 ≤ n ∧ n < 0x1680 ∨ 0x1681 ≤ n ∧ n < 0x2000 ∨
    0x2060 ≤ n ∧ n < 0x3000 ∨ 0x3001 ≤ n ∧ n < 0xD800 ∨ 0xE000 ≤ n ∧ n < 0x110000

instance (n : Nat) : Decidable (IsLetterCode n) := inferInstanceAs (Decidable (_ ∨ _))

/-- A character that lowering can bring in. -/
def IsLowered (c : Char) : Prop := IsLetterCode c.toNat

instance (c : Char) : Decidable (IsLowered c) := inferInstanceAs (Decidable (IsLetterCode _))

/-- Both ends of a run are moved into one stretch. -/
def IsLetterRun (run : Nat × Nat × Nat × Int) : Prop :=
  let first := run.1 + run.2.2.2
  let last := run.2.1 + run.2.2.2
  0x61 ≤ first ∧ last ≤ 0x7A ∨ 0xC0 ≤ first ∧ last < 0x1680 ∨ 0x1681 ≤ first ∧ last < 0x2000 ∨
    0x2060 ≤ first ∧ last < 0x3000 ∨ 0x3001 ≤ first ∧ last < 0xD800 ∨
    0xE000 ≤ first ∧ last < 0x110000

instance (run : Nat × Nat × Nat × Int) : Decidable (IsLetterRun run) :=
  inferInstanceAs (Decidable (_ ∨ _))

theorem isLetterRun_of_mem : ∀ run ∈ lowercaseRuns, IsLetterRun run := by decide +kernel

theorem IsLetterCode.isValidChar {n : Nat} (h : IsLetterCode n) : n.isValidChar := by
  unfold IsLetterCode at h
  unfold Nat.isValidChar
  omega

theorem isLowered_ofNat {n : Nat} (h : IsLetterCode n) : IsLowered (Char.ofNat n) := by
  have htoNat : (Char.ofNat n).toNat = n := by
    rw [Char.ofNat, dif_pos h.isValidChar]
    rfl
  rw [IsLowered, htoNat]
  exact h

theorem lowerChar_eq_or (c : Char) : lowerChar c = c ∨ IsLowered (lowerChar c) := by
  unfold lowerChar
  split
  · next first last step shift hfound =>
    have hrun := isLetterRun_of_mem _ (List.mem_of_find?_eq_some hfound)
    have hin := List.find?_some hfound
    simp only [Bool.and_eq_true, decide_eq_true_eq] at hin
    refine .inr (isLowered_ofNat ?_)
    simp only [IsLetterRun] at hrun
    unfold IsLetterCode
    omega
  · exact .inl rfl

theorem mem_lowerIn {c d : Char} {front behind : Text} (h : d ∈ lowerIn front c behind) :
    d = c ∨ IsLowered d := by
  unfold lowerIn at h
  split at h
  · rw [List.mem_singleton.mp h]
    refine .inr (isLowered_ofNat ?_)
    split
    · decide
    · decide
  · split at h
    · refine .inr ?_
      rcases List.mem_cons.mp h with rfl | h
      · decide
      · rw [List.mem_singleton.mp h]
        exact isLowered_ofNat (by decide)
    · rw [List.mem_singleton.mp h]
      exact lowerChar_eq_or c

/-- **A character of a lowered text is one of the text, or a letter.** -/
theorem mem_lower {c : Char} {t : Text} (h : c ∈ lower t) : c ∈ t ∨ IsLowered c := by
  have hfrom : ∀ (behind front : Text), c ∈ lowerFrom front behind → c ∈ behind ∨ IsLowered c := by
    intro behind
    induction behind with
    | nil => exact fun _ h => absurd h List.not_mem_nil
    | cons d rest ih =>
      intro front h
      rw [lowerFrom, List.mem_append] at h
      rcases h with h | h
      · rcases mem_lowerIn h with rfl | h
        · exact .inl List.mem_cons_self
        · exact .inr h
      · exact (ih _ h).imp_left (List.mem_cons_of_mem d)
  exact hfrom t [] h

/-- Without the two letters that are lowered otherwise, a text is lowered letter by letter. -/
theorem lower_eq_map {t : Text} (h : ∀ c ∈ t, c ≠ capitalSigma ∧ c ≠ dottedCapitalI) :
    lower t = t.map lowerChar := by
  have hfrom : ∀ (behind front : Text), (∀ c ∈ behind, c ≠ capitalSigma ∧ c ≠ dottedCapitalI) →
      lowerFrom front behind = behind.map lowerChar := by
    intro behind
    induction behind with
    | nil => exact fun _ _ => rfl
    | cons c rest ih =>
      intro front h
      rw [List.forall_mem_cons] at h
      rw [lowerFrom, lowerIn, if_neg h.1.1, if_neg h.1.2, ih _ h.2, List.map_cons,
        List.singleton_append]
  exact hfrom t [] h

theorem lowerIn_ne_nil (front : Text) (c : Char) (behind : Text) :
    lowerIn front c behind ≠ [] := by
  unfold lowerIn
  split
  · exact List.cons_ne_nil _ _
  · split
    · exact List.cons_ne_nil _ _
    · exact List.cons_ne_nil _ _

theorem lower_ne_nil {t : Text} (h : t ≠ []) : lower t ≠ [] := by
  obtain ⟨c, rest, rfl⟩ := List.exists_cons_of_ne_nil h
  exact List.append_ne_nil_of_left_ne_nil (lowerIn_ne_nil [] c rest) _

/-- Lowering neither brings a slash to the front nor takes one away from there. -/
theorem head?_lower_eq_slash_iff {t : Text} :
    (lower t).head? = some '/' ↔ t.head? = some '/' := by
  cases t with
  | nil => rfl
  | cons c rest =>
    change (lowerIn [] c rest ++ lowerFrom [c] rest).head? = some '/' ↔ some c = some '/'
    constructor
    · intro h
      have hmem : '/' ∈ lowerIn [] c rest := by
        refine List.mem_of_mem_head? ?_
        rwa [List.head?_append_of_ne_nil _ (lowerIn_ne_nil [] c rest)] at h
      rcases mem_lowerIn hmem with rfl | hlowered
      · rfl
      · exact absurd hlowered (by decide)
    · intro h
      rw [Option.some_inj.mp h]
      rfl

/-- A dot behind a text has no case, so it changes nothing for a sigma in front of the text. -/
theorem meetsCased_concat_dot (t : Text) : meetsCased (t ++ ['.']) = meetsCased t := by
  unfold meetsCased
  rw [List.dropWhile_append]
  cases hdrop : t.dropWhile isIgnorable with
  | nil => decide
  | cons c rest => rfl

/-- A dot behind a text is lowered on its own. -/
theorem lower_concat_dot (t : Text) : lower (t ++ ['.']) = lower t ++ ['.'] := by
  have hfrom : ∀ t front : Text, lowerFrom front (t ++ ['.']) = lowerFrom front t ++ ['.'] := by
    intro t
    induction t with
    | nil =>
      intro front
      have hdot : lowerIn front '.' [] = ['.'] := by
        rw [lowerIn, if_neg (by decide), if_neg (by decide)]
        decide
      show lowerIn front '.' [] ++ [] = ['.']
      rw [hdot, List.append_nil]
    | cons c rest ih =>
      intro front
      rw [List.cons_append, lowerFrom, lowerFrom, ih, lowerIn, lowerIn, meetsCased_concat_dot,
        List.append_assoc]
  exact hfrom t []

/-! ## Identifiers -/

/-- The identifier of a type is not empty, and its characters are identifier characters or come from
the default. -/
theorem mem_of_typeIdentifier? {default name identifier : Text}
    (h : typeIdentifier? default name = some identifier) :
    identifier ≠ [] ∧ ∀ c ∈ identifier, isIdentifierChar c = true ∨ c ∈ default := by
  have hguard : ∀ t : Text, (∀ c ∈ t, isIdentifierChar c = true ∨ c ∈ default) →
      guardDigit t = some identifier →
        identifier ≠ [] ∧ ∀ c ∈ identifier, isIdentifierChar c = true ∨ c ∈ default := by
    intro t ht hsome
    cases t with
    | nil => exact nomatch hsome
    | cons c rest =>
      rw [guardDigit] at hsome
      rw [← Option.some_inj.mp hsome]
      split
      · refine ⟨List.cons_ne_nil _ _, ?_⟩
        rw [List.forall_mem_cons]
        exact ⟨.inl (by decide), ht⟩
      · exact ⟨List.cons_ne_nil _ _, ht⟩
  unfold typeIdentifier? at h
  simp only at h
  split at h
  · exact hguard _ (fun c hc => .inr hc) h
  · exact hguard _ (fun c hc => .inl (List.mem_filter.mp hc).2) h

/-- With a default of identifier characters the identifier of a type holds no others. -/
theorem isIdentifierChar_of_typeIdentifier? {default name identifier : Text}
    (hdefault : ∀ c ∈ default, isIdentifierChar c = true)
    (h : typeIdentifier? default name = some identifier) :
    identifier ≠ [] ∧ ∀ c ∈ identifier, isIdentifierChar c = true := by
  obtain ⟨hne, hmem⟩ := mem_of_typeIdentifier? h
  exact ⟨hne, fun c hc => (hmem c hc).elim id (hdefault c)⟩

/-- Letters and digits stand in identifiers. -/
theorem isIdentifierChar_of_isAlphanum {c : Char} (h : c.isAlphanum = true) :
    isIdentifierChar c = true := by
  rw [isIdentifierChar, h, Bool.true_or]

theorem isIdentifierChar_of_isDigit {c : Char} (h : c.isDigit = true) : isIdentifierChar c = true :=
  isIdentifierChar_of_isAlphanum (by rw [Char.isAlphanum, h, Bool.or_true])

theorem toNat_of_isIdentifierChar {c : Char} (h : isIdentifierChar c = true) :
    0x30 ≤ c.toNat ∧ c.toNat ≤ 0x7A := by
  have hstretch {first last : UInt32} (hfirst : first ≤ c.val) (hlast : c.val ≤ last) :
      first.toNat ≤ c.toNat ∧ c.toNat ≤ last.toNat :=
    ⟨UInt32.le_iff_toNat_le.mp hfirst, UInt32.le_iff_toNat_le.mp hlast⟩
  change (c.isUpper || c.isLower || c.isDigit || c == '_') = true at h
  rw [Bool.or_eq_true, Bool.or_eq_true, Bool.or_eq_true, beq_iff_eq] at h
  rcases h with ((h | h) | h) | rfl
  · obtain ⟨hfirst, hlast⟩ := of_decide_eq_true h
    have hcode : 65 ≤ c.toNat ∧ c.toNat ≤ 90 := hstretch hfirst hlast
    omega
  · obtain ⟨hfirst, hlast⟩ := Bool.and_eq_true_iff.mp h
    have hcode : 97 ≤ c.toNat ∧ c.toNat ≤ 122 :=
      hstretch (of_decide_eq_true hfirst) (of_decide_eq_true hlast)
    omega
  · obtain ⟨hfirst, hlast⟩ := Bool.and_eq_true_iff.mp h
    have hcode : 48 ≤ c.toNat ∧ c.toNat ≤ 57 :=
      hstretch (of_decide_eq_true hfirst) (of_decide_eq_true hlast)
    omega
  · decide

/-- Identifier characters are lowered to identifier characters. -/
theorem isIdentifierChar_lowerChar {c : Char} (h : isIdentifierChar c = true) :
    isIdentifierChar (lowerChar c) = true := by
  have hcodes : ∀ n < 0x7B, isIdentifierChar (Char.ofNat n) = true →
      isIdentifierChar (lowerChar (Char.ofNat n)) = true := by decide +kernel
  have hc := hcodes c.toNat (Nat.lt_succ_of_le (toNat_of_isIdentifierChar h).2)
  rw [Char.ofNat_toNat] at hc
  exact hc h

/-! ## Numbers -/

/-- A number is written in digits, behind a sign when it is negative. -/
theorem isDigit_of_mem_ofInt {c : Char} {n : Int} (h : c ∈ ofInt n) : c.isDigit = true ∨ c = '-' := by
  have hdigits {k : Nat} (h : c ∈ ofNat k) : c.isDigit = true :=
    Nat.isDigit_of_mem_toDigits (by decide) (by decide) h
  cases n with
  | ofNat k => exact .inl (hdigits h)
  | negSucc k =>
    rcases List.mem_cons.mp h with rfl | h
    · exact .inr rfl
    · exact .inl (hdigits h)

/-! ## Blanks -/

theorem isBlank_eq_false_iff {c : Char} :
    isBlank c = false ↔ ¬(9 ≤ c.toNat ∧ c.toNat ≤ 0xD) ∧ ¬(0x1C ≤ c.toNat ∧ c.toNat ≤ 0x20) ∧
      c.toNat ≠ 0x85 ∧ c.toNat ≠ 0xA0 ∧ c.toNat ≠ 0x1680 ∧
      ¬(0x2000 ≤ c.toNat ∧ c.toNat ≤ 0x200A) ∧ c.toNat ≠ 0x2028 ∧ c.toNat ≠ 0x2029 ∧
      c.toNat ≠ 0x202F ∧ c.toNat ≠ 0x205F ∧ c.toNat ≠ 0x3000 := by
  simp only [isBlank, Bool.or_eq_false_iff, Bool.and_eq_false_iff, decide_eq_false_iff_not,
    beq_eq_false_iff_ne]
  omega

theorem isBlank_of_isIdentifierChar {c : Char} (h : isIdentifierChar c = true) :
    isBlank c = false := by
  have hrange := toNat_of_isIdentifierChar h
  rw [isBlank_eq_false_iff]
  omega

theorem isBlank_of_isLowered {c : Char} (h : IsLowered c) : isBlank c = false := by
  unfold IsLowered IsLetterCode at h
  rw [isBlank_eq_false_iff]
  omega

end Text
end HaxeBindings
