import DataDiode.Decimal
import DataDiode.Files
import DataDiode.Proto
import DataDiode.Utf8
import Mathlib.Data.List.DropRight

/-!
# Pieces of a File

How the pieces of a large file are called. `split` appends suffixes to a name: two letters as long
as these last, and in an order in which a shell lists them. What it does when the two-letter
suffixes have run out differs: GNU `split` goes on with longer ones, others fail.

## Main results

* `Splitter.chunkName_strictMono`: the shell lists the pieces in the order they were written.
* `Splitter.chunkName_inj`: the name of a piece tells the file and the number.
* `gnuSplit`: the suffixes of GNU `split`.
-/

namespace DataDiode

open Files

/-! ### Names -/

/-- Size of the pieces: `-b 10m`. -/
def pieceSize : ℕ := 10 * 1024 * 1024

/-- `SPLIT_THRESHOLD` -/
def splitThreshold : ℕ := 10485760

/-- What stands between the name of a file and the suffix of its piece. -/
def chunkInfix : Bytes := Utf8.encode ['_', 'c', 'h', 'u', 'n', 'k', '_']

/-- The name of the manifest. -/
def manifestName : Bytes := Utf8.encode ['S', 'H', 'A', '2', '5', '6']

/-- The name under which the shell `pid` writes the manifest. -/
def tmpManifestName (pid : ℕ) : Bytes :=
  manifestName ++ Utf8.encode ['.', 't', 'm', 'p', '.'] ++ Decimal.decimal pid

/-- `[a-z][a-z]` -/
def isTwoLetters : Bytes → Bool
  | [x, y] => 97 ≤ x && x ≤ 122 && (97 ≤ y && y ≤ 122)
  | _ => false

/-- Two letters. -/
theorem length_of_isTwoLetters {n : Bytes} (h : isTwoLetters n = true) : n.length = 2 := by
  rw [isTwoLetters.eq_def] at h
  split at h
  · rfl
  · exact absurd h (by simp)

/-- The suffixes that `split` numbers its pieces with: in order, two letters as long as these
last. -/
structure Splitter where
  suffix : ℕ → Bytes
  strictMono : StrictMono suffix
  first : suffix 0 = [97, 97]
  lower : ∀ i, ∀ b ∈ suffix i, 97 ≤ b ∧ b ≤ 122
  /-- How many suffixes have two letters. -/
  letters : ℕ
  isTwoLetters_suffix : ∀ i, isTwoLetters (suffix i) = true ↔ i < letters

/-- The name of a piece. -/
def Splitter.chunkName (tool : Splitter) (base : Bytes) (i : ℕ) : Bytes :=
  base ++ chunkInfix ++ tool.suffix i

/-- `_chunk_` has seven characters. -/
theorem length_chunkInfix : chunkInfix.length = 7 := by decide

/-- A piece is not under the name of the file. -/
theorem Splitter.chunkName_ne (tool : Splitter) (base : Bytes) (i : ℕ) :
    tool.chunkName base i ≠ base := by
  intro h
  have hlen := congrArg List.length h
  rw [Splitter.chunkName, List.length_append, List.length_append, length_chunkInfix] at hlen
  omega

/-- The names of pieces are in the order of their numbers. -/
theorem Splitter.chunkName_strictMono (tool : Splitter) (base : Bytes) :
    StrictMono (tool.chunkName base) := by
  intro i j hij
  exact List.append_left_lt (tool.strictMono hij)

/-- A suffix without underscores is told from the name in front of it. -/
theorem append_chunkInfix_inj {base base' suffix suffix' : Bytes} (hsuffix : 95 ∉ suffix)
    (hsuffix' : 95 ∉ suffix') (h : base ++ chunkInfix ++ suffix = base' ++ chunkInfix ++ suffix') :
    base = base' ∧ suffix = suffix' := by
  have hdrop : ∀ base suffix : Bytes, 95 ∉ suffix →
      (base ++ chunkInfix ++ suffix).rdropWhile (· ≠ 95) = base ++ chunkInfix := by
    intro base suffix hsuffix
    have hlast : base ++ chunkInfix = base ++ chunkInfix.dropLast ++ [95] := by
      rw [List.append_assoc]
      rfl
    rw [List.rdropWhile, List.reverse_append, List.dropWhile_append_of_pos fun b hb => ?_]
    · rw [hlast, List.reverse_append, List.reverse_singleton, List.singleton_append,
        List.dropWhile_cons_of_neg (by simp), List.reverse_cons, List.reverse_reverse]
    · have hb : b ≠ 95 := fun heq => hsuffix (heq ▸ List.mem_reverse.mp hb)
      simpa using hb
  have hfront := (hdrop base suffix hsuffix).symm.trans (h ▸ hdrop base' suffix' hsuffix')
  exact ⟨List.append_cancel_right hfront, List.append_cancel_left (hfront ▸ h)⟩

/-- The suffix of a piece has no underscore. -/
theorem Splitter.underscore_notMem_suffix (tool : Splitter) (i : ℕ) : 95 ∉ tool.suffix i :=
  fun h => absurd (tool.lower i 95 h).1 (by decide)

/-- The name of a piece tells the file and the number. -/
theorem Splitter.chunkName_inj (tool : Splitter) {base base' : Bytes} {i j : ℕ}
    (h : tool.chunkName base i = tool.chunkName base' j) : base = base' ∧ i = j := by
  obtain ⟨hbase, hsuffix⟩ := append_chunkInfix_inj (tool.underscore_notMem_suffix i)
    (tool.underscore_notMem_suffix j) h
  exact ⟨hbase, tool.strictMono.injective hsuffix⟩

/-! ### A splitter -/

/-- The letters of a number below `26 ^ w`, most significant first. -/
def letters : ℕ → ℕ → Bytes
  | 0, _ => []
  | w + 1, i => UInt8.ofNat (97 + i / 26 ^ w % 26) :: letters w (i % 26 ^ w)

/-- The letters of a number fill their field. -/
theorem length_letters (w i : ℕ) : (letters w i).length = w := by
  induction w generalizing i with
  | zero => rfl
  | succ w ih => rw [letters, List.length_cons, ih]

/-- Letters are in the order of their values. -/
theorem letter_lt {d e : ℕ} (h : d < e) (he : e < 26) :
    UInt8.ofNat (97 + d) < UInt8.ofNat (97 + e) := by
  rw [UInt8.lt_iff_toNat_lt, UInt8.toNat_ofNat', UInt8.toNat_ofNat']
  omega

/-- Numbers written in letters are in the order of their values. -/
theorem letters_lt {w : ℕ} : ∀ {i j : ℕ}, i < j → j < 26 ^ w → letters w i < letters w j := by
  induction w with
  | zero => exact fun hij hj => by simp at hj; omega
  | succ w ih =>
      intro i j hij hj
      have hpos : 0 < 26 ^ w := Nat.pow_pos (by decide)
      have hdiv : j / 26 ^ w < 26 := Nat.div_lt_of_lt_mul (by rwa [pow_succ] at hj)
      have hle : i / 26 ^ w ≤ j / 26 ^ w := Nat.div_le_div_right hij.le
      rw [letters, letters, Nat.mod_eq_of_lt hdiv, Nat.mod_eq_of_lt (hle.trans_lt hdiv),
        List.cons_lt_cons_iff]
      rcases hle.lt_or_eq with hlt | heq
      · exact Or.inl (letter_lt hlt hdiv)
      · refine Or.inr ⟨by rw [heq], ih ?_ (Nat.mod_lt _ hpos)⟩
        have hi := Nat.div_add_mod i (26 ^ w)
        have hj := Nat.div_add_mod j (26 ^ w)
        rw [heq] at hi
        omega

/-- The suffixes of GNU `split` from some width on: the first letter is below `z`, and behind a `z`
they are one longer. -/
def gnuSuffix (w i : ℕ) : Bytes :=
  if i < 25 * 26 ^ w then letters (w + 1) i else 122 :: gnuSuffix (w + 1) (i - 25 * 26 ^ w)
  termination_by i
  decreasing_by
    have hpos : 0 < 26 ^ w := Nat.pow_pos (by decide)
    omega

/-- The suffix is longer than the letters it starts with. -/
theorem lt_length_gnuSuffix (w i : ℕ) : w < (gnuSuffix w i).length := by
  fun_induction gnuSuffix w i with
  | case1 w i h => rw [length_letters]; omega
  | case2 w i h ih => rw [List.length_cons]; omega

/-- Suffixes are in the order of their numbers. -/
theorem gnuSuffix_lt (w i : ℕ) : ∀ {j : ℕ}, i < j → gnuSuffix w i < gnuSuffix w j := by
  fun_induction gnuSuffix w i with
  | case1 w i h =>
      intro j hij
      rw [gnuSuffix]
      split
      · exact letters_lt hij (by rw [pow_succ]; omega)
      · have hdiv : i / 26 ^ w < 25 := Nat.div_lt_of_lt_mul (by rwa [Nat.mul_comm] at h)
        rw [letters, List.cons_lt_cons_iff, Nat.mod_eq_of_lt (by omega)]
        exact Or.inl (letter_lt hdiv (by decide))
  | case2 w i h ih =>
      intro j hij
      rw [gnuSuffix.eq_def w j, if_neg (by omega), List.cons_lt_cons_iff]
      exact Or.inr ⟨rfl, ih (by omega)⟩

/-- The letters are lower case. -/
theorem lower_letter (d : ℕ) :
    (97 : UInt8) ≤ UInt8.ofNat (97 + d % 26) ∧ UInt8.ofNat (97 + d % 26) ≤ 122 := by
  rw [UInt8.le_iff_toNat_le, UInt8.le_iff_toNat_le, UInt8.toNat_ofNat']
  have hd := Nat.mod_lt d (show 0 < 26 by decide)
  simp
  omega

/-- The letters of a number are lower case. -/
theorem lower_letters {w i : ℕ} {b : UInt8} (h : b ∈ letters w i) : 97 ≤ b ∧ b ≤ 122 := by
  induction w generalizing i with
  | zero => exact absurd h List.not_mem_nil
  | succ w ih =>
      rcases List.mem_cons.mp h with rfl | h
      · exact lower_letter _
      · exact ih h

/-- The letters of a suffix are lower case. -/
theorem lower_gnuSuffix (w i : ℕ) : ∀ b ∈ gnuSuffix w i, 97 ≤ b ∧ b ≤ 122 := by
  fun_induction gnuSuffix w i with
  | case1 w i h => exact fun b hb => lower_letters hb
  | case2 w i h ih =>
      intro b hb
      rcases List.mem_cons.mp hb with rfl | hb
      · decide
      · exact ih b hb

/-- Two letters are what the first pieces have. -/
theorem isTwoLetters_letters (i : ℕ) : isTwoLetters (letters 2 i) = true := by
  simp only [letters, isTwoLetters, Bool.and_eq_true, decide_eq_true_eq]
  exact ⟨lower_letter _, lower_letter _⟩

/-- GNU `split`: `aa` to `yz`, then `zaaa` and so on. -/
def gnuSplit : Splitter where
  suffix := gnuSuffix 1
  strictMono := fun i _ hij => gnuSuffix_lt 1 i hij
  first := by rw [gnuSuffix]; decide
  lower := lower_gnuSuffix 1
  letters := 650
  isTwoLetters_suffix := by
    intro i
    rw [gnuSuffix]
    split
    · exact iff_of_true (isTwoLetters_letters i) (by omega)
    · refine iff_of_false (fun h => ?_) (by omega)
      have hlen := lt_length_gnuSuffix (1 + 1) (i - 25 * 26 ^ 1)
      have htwo := length_of_isTwoLetters h
      rw [List.length_cons] at htwo
      omega

end DataDiode
