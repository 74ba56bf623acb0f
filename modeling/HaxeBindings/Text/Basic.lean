/-!
# Text as a list of characters

Schema strings, names and emitted lines are all lists of characters.  A list
has an induction principle, so every rule of this library that scans text is a
plain recursion on it, and its laws are inductions.

## Cutting

A name is cut at one character: everything before the first occurrence
(`Text.before`), everything after the last one (`Text.afterLast`), everything
before the last one (`Text.beforeLast`).  Only the last of the three needs the
character to occur; without it there is nothing in front, and the answer is
empty.

## Order

Texts are compared by code point, shorter prefixes first.  `Text.le` is the test,
and it is a total order.
-/

namespace HaxeBindings

/-- A text is the list of its characters. -/
abbrev Text := List Char

namespace Text

/-- Texts that test as equal are equal, so a membership test decides membership. -/
instance : LawfulBEq Text := inferInstance

/-- The character that separates a base name from its arity marker. -/
def arityMark : Char := Char.ofNat 96

/-- The text in front of the first `c`, or all of it when `c` does not occur. -/
def before (c : Char) (t : Text) : Text := t.takeWhile (· != c)

/-- The text behind the first `c`; empty when `c` does not occur. -/
def afterFirst (c : Char) (t : Text) : Text := (t.dropWhile (· != c)).drop 1

/-- The text behind the last `c`, or all of it when `c` does not occur. -/
def afterLast (c : Char) (t : Text) : Text := (t.reverse.takeWhile (· != c)).reverse

/-- The text in front of the last `c`; empty when `c` does not occur. -/
def beforeLast (c : Char) (t : Text) : Text := ((t.reverse.dropWhile (· != c)).drop 1).reverse

/-- Whether `part` occurs in the text without a gap. -/
def hasPart (part : Text) : Text → Bool
  | [] => part.isEmpty
  | c :: rest => part.isPrefixOf (c :: rest) || hasPart part rest

/-- Writes `new` in place of every `old`. -/
def replaceChar (old new : Char) (t : Text) : Text := t.map fun c => if c = old then new else c

/-- Puts a character in front of the first text of a list. -/
def consFirst (c : Char) : List Text → List Text
  | [] => [[c]]
  | t :: ts => (c :: t) :: ts

/-- The pieces between the occurrences of `c`; there is one more of them than of `c`. -/
def pieces (c : Char) : Text → List Text
  | [] => [[]]
  | x :: rest => if x = c then [] :: pieces c rest else consFirst x (pieces c rest)

/-- The texts one after the other with `separator` between neighbours. -/
def join (separator : Text) (ts : List Text) : Text := separator.intercalate ts

/-- The digits of a natural number, most significant first. -/
def ofNat (n : Nat) : Text := Nat.toDigits 10 n

/-- The digits of an integer, behind a minus sign when it is negative. -/
def ofInt : Int → Text
  | .ofNat n => ofNat n
  | .negSucc n => '-' :: ofNat (n + 1)

/-- The order of texts by code point, as a test. -/
def le : Text → Text → Bool
  | [], _ => true
  | _ :: _, [] => false
  | c :: s, d :: t => c.toNat < d.toNat || (c == d && le s t)

@[simp] theorem before_nil (c : Char) : before c [] = [] := rfl

@[simp] theorem pieces_nil (c : Char) : pieces c [] = [[]] := rfl

@[simp] theorem consFirst_ne_nil (c : Char) (ts : List Text) : consFirst c ts ≠ [] := by
  cases ts <;> simp [consFirst]

theorem pieces_ne_nil (c : Char) (t : Text) : pieces c t ≠ [] := by
  cases t with
  | nil => simp
  | cons x rest => unfold pieces; split <;> simp

theorem not_mem_before (c : Char) (t : Text) : c ∉ before c t := by
  intro h
  have := List.all_takeWhile (p := (· != c)) (l := t)
  rw [List.all_eq_true] at this
  simpa using this c h

theorem before_eq_self {c : Char} {t : Text} (h : c ∉ t) : before c t = t := by
  induction t with
  | nil => rfl
  | cons x rest ih =>
    have hx : (x != c) = true := by
      simp only [bne_iff_ne]
      rintro rfl
      exact h List.mem_cons_self
    simp only [before, List.takeWhile_cons, hx, if_true]
    exact congrArg _ (ih fun hr => h (List.mem_cons_of_mem _ hr))

theorem afterFirst_eq_nil {c : Char} {t : Text} (h : c ∉ t) : afterFirst c t = [] := by
  induction t with
  | nil => rfl
  | cons x rest ih =>
    have hx : (x != c) = true := by
      simp only [bne_iff_ne]
      rintro rfl
      exact h List.mem_cons_self
    simp only [afterFirst, List.dropWhile_cons, hx, if_true]
    exact ih fun hr => h (List.mem_cons_of_mem _ hr)

@[simp] theorem nil_le (t : Text) : le [] t = true := by simp [le]

@[simp] protected theorem le_refl (t : Text) : le t t = true := by
  induction t with
  | nil => rfl
  | cons c t ih => simp [le, ih]

protected theorem le_total (s t : Text) : le s t = true ∨ le t s = true := by
  induction s generalizing t with
  | nil => simp
  | cons c s ih =>
    cases t with
    | nil => simp
    | cons d t =>
      simp only [le, Bool.or_eq_true, decide_eq_true_eq, Bool.and_eq_true, beq_iff_eq]
      rcases Nat.lt_trichotomy c.toNat d.toNat with h | h | h
      · exact .inl (.inl h)
      · have hcd : c = d := Char.toNat_inj.mp h
        rcases ih t with hst | hts
        · exact .inl (.inr ⟨hcd, hst⟩)
        · exact .inr (.inr ⟨hcd.symm, hts⟩)
      · exact .inr (.inl h)

protected theorem le_trans {s t u : Text} (hst : le s t = true) (htu : le t u = true) :
    le s u = true := by
  induction s generalizing t u with
  | nil => simp
  | cons c s ih =>
    cases t with
    | nil => simp [le] at hst
    | cons d t =>
      cases u with
      | nil => simp [le] at htu
      | cons e u =>
        simp only [le, Bool.or_eq_true, decide_eq_true_eq, Bool.and_eq_true, beq_iff_eq] at *
        rcases hst with h | ⟨rfl, h⟩ <;> rcases htu with k | ⟨rfl, k⟩
        · exact .inl (Nat.lt_trans h k)
        · exact .inl h
        · exact .inl k
        · exact .inr ⟨rfl, ih h k⟩

protected theorem le_antisymm {s t : Text} (hst : le s t = true) (hts : le t s = true) : s = t := by
  induction s generalizing t with
  | nil =>
    cases t with
    | nil => rfl
    | cons d t => simp [le] at hts
  | cons c s ih =>
    cases t with
    | nil => simp [le] at hst
    | cons d t =>
      simp only [le, Bool.or_eq_true, decide_eq_true_eq, Bool.and_eq_true, beq_iff_eq] at *
      rcases hst with h | ⟨rfl, h⟩ <;> rcases hts with k | ⟨hc, k⟩
      · exact absurd (Nat.lt_trans h k) (Nat.lt_irrefl _)
      · exact absurd (hc ▸ h) (Nat.lt_irrefl _)
      · exact absurd k (Nat.lt_irrefl _)
      · rw [ih h k]

end Text

end HaxeBindings
