import Mathlib.Data.List.DropRight

/-!
# Text as Python Sees It

The string methods of Python that take text apart: blanks, `strip`, `split`, and the lines of a file
opened in text mode, where a carriage return ends a line as well.

## Main results

* `strip_eq_self`, `splitOnce_eq`: what `strip` and `split(None, 1)` do to words.
* `lines_append`: a line without line ends is read back.
-/

namespace PyString

/-- `str.isspace` -/
def isSpace (c : Char) : Bool :=
  let n := c.toNat
  (9 ≤ n && n ≤ 13) || (28 ≤ n && n ≤ 32) || n = 0x85 || n = 0xa0 || n = 0x1680 ||
    (0x2000 ≤ n && n ≤ 0x200a) || n = 0x2028 || n = 0x2029 || n = 0x202f || n = 0x205f || n = 0x3000

/-- `s.strip()` -/
def strip (s : List Char) : List Char := (s.dropWhile isSpace).rdropWhile isSpace

/-- `s.split(None, 1)` -/
def splitOnce (s : List Char) : List (List Char) :=
  let s := s.dropWhile isSpace
  let word := s.takeWhile fun c => !isSpace c
  let rest := (s.dropWhile fun c => !isSpace c).dropWhile isSpace
  if word = [] then [] else if rest = [] then [word] else [word, rest]

/-- `s.replace(old, new)`: the first argument counts the characters of a match that are still to be
passed over. -/
def replaceFrom (old new : List Char) : ℕ → List Char → List Char
  | _, [] => []
  | skip + 1, _ :: s => replaceFrom old new skip s
  | 0, c :: s =>
      if old.isPrefixOf (c :: s) then new ++ replaceFrom old new (old.length - 1) s
      else c :: replaceFrom old new 0 s

/-- `str.replace`. -/
def replace (old new s : List Char) : List Char := replaceFrom old new 0 s

/-- `s < t`: strings are compared character by character. -/
def lt : List Char → List Char → Bool
  | _, [] => false
  | [], _ :: _ => true
  | a :: s, b :: t => a.toNat < b.toNat || (a = b && lt s t)

/-- `s.rstrip(c)` -/
def rstrip (c : Char) (s : List Char) : List Char := s.rdropWhile (· = c)

/-- Line ends as a file opened in text mode has them. -/
def universalNewlines : List Char → List Char
  | [] => []
  | '\r' :: '\n' :: s => '\n' :: universalNewlines s
  | c :: s => (if c = '\r' then '\n' else c) :: universalNewlines s

/-- The lines of a file opened in text mode, without their ends. -/
def lines (s : List Char) : List (List Char) := (universalNewlines s).splitOn '\n'

/-! ### Replacing -/

/-- Text without the first character of what is replaced stays as it is. -/
theorem replace_of_notMem {c : Char} {s : List Char} (h : c ∉ s) (old new : List Char) :
    replace (c :: old) new s = s := by
  rw [replace]
  induction s with
  | nil => rfl
  | cons d s ih =>
      rw [List.mem_cons, not_or] at h
      have hnot : (c :: old).isPrefixOf (d :: s) = false := by
        rw [List.isPrefixOf, beq_eq_false_iff_ne.mpr h.1, Bool.false_and]
      rw [replaceFrom, hnot, if_neg Bool.false_ne_true, ih h.2]

/-! ### Words -/

/-- Where the first character stays, all do. -/
theorem dropWhile_eq_self {p : Char → Bool} {s : List Char} (h : ∀ c ∈ s.head?, p c = false) :
    s.dropWhile p = s := by
  cases s with
  | nil => rfl
  | cons c s => rw [List.dropWhile_cons_of_neg (by simp [h c rfl])]

/-- Text without blanks at its ends. -/
theorem strip_eq_self {s : List Char} (hhead : ∀ c ∈ s.head?, isSpace c = false)
    (hlast : ∀ c ∈ s.getLast?, isSpace c = false) : strip s = s := by
  rw [strip, dropWhile_eq_self hhead, List.rdropWhile_eq_self_iff]
  intro hne
  rw [hlast _ (List.getLast?_eq_some_getLast hne)]
  simp

/-- **A word, blanks, and more.** -/
theorem splitOnce_eq {word blanks rest : List Char} (hword : word ≠ [])
    (hplain : ∀ c ∈ word, isSpace c = false) (hblanks : blanks ≠ [])
    (hspaces : ∀ c ∈ blanks, isSpace c = true) (hrest : rest ≠ [])
    (hhead : ∀ c ∈ rest.head?, isSpace c = false) :
    splitOnce (word ++ blanks ++ rest) = [word, rest] := by
  have hfront : (word ++ blanks ++ rest).dropWhile isSpace = word ++ (blanks ++ rest) := by
    rw [List.append_assoc]
    refine dropWhile_eq_self fun c hc => hplain c ?_
    rw [List.head?_append_of_ne_nil _ hword] at hc
    exact List.mem_of_head? hc
  have hstop : ∀ c ∈ (blanks ++ rest).head?, (!isSpace c) = false := by
    intro c hc
    rw [List.head?_append_of_ne_nil _ hblanks] at hc
    rw [hspaces c (List.mem_of_head? hc)]
    rfl
  have htake : (word ++ (blanks ++ rest)).takeWhile (fun c => !isSpace c) = word := by
    rw [List.takeWhile_append_of_pos fun c hc => by rw [hplain c hc]; rfl]
    cases hmore : blanks ++ rest with
    | nil => simp
    | cons c more =>
        rw [List.takeWhile_cons_of_neg (by simp [hstop c (by rw [hmore]; rfl)]), List.append_nil]
  have hdrop : (word ++ (blanks ++ rest)).dropWhile (fun c => !isSpace c) = blanks ++ rest := by
    rw [List.dropWhile_append_of_pos fun c hc => by rw [hplain c hc]; rfl]
    exact dropWhile_eq_self hstop
  simp only [splitOnce, hfront]
  rw [htake, hdrop, List.dropWhile_append_of_pos hspaces, dropWhile_eq_self hhead, if_neg hword,
    if_neg hrest]

/-! ### Lines -/

/-- A text without carriage returns stays as it is. -/
theorem universalNewlines_append {line s : List Char} (hplain : '\r' ∉ line) :
    universalNewlines (line ++ s) = line ++ universalNewlines s := by
  induction line with
  | nil => rfl
  | cons c line ih =>
      rw [List.mem_cons, not_or] at hplain
      rw [List.cons_append, universalNewlines, if_neg (Ne.symm hplain.1), ih hplain.2]
      · rfl
      · rintro s' rfl
        exact absurd rfl hplain.1

/-- **A line without line ends** is read back. -/
theorem lines_append {line s : List Char} (hreturn : '\r' ∉ line) (hnewline : '\n' ∉ line) :
    lines (line ++ '\n' :: s) = line :: lines s := by
  rw [lines, universalNewlines_append hreturn, universalNewlines, if_neg (by decide)]
  · rw [List.splitOn_append_cons_self, List.splitOn_eq_singleton hnewline]
    rfl
  · rintro s' h
    exact absurd h (by decide)

end PyString
