import Mathlib.Data.Nat.Digits.Lemmas

/-!
# Zero-Padded Decimal Fields

Headers of text-framed binary protocols carry numbers as ASCII decimals, zero-padded to
a minimum width on the writing side and cut out at a fixed width on the reading side.
This module is the arithmetic of such fields: `decimal n` is the shortest ASCII decimal
of `n`, `zeroPadded w n` pads it to *at least* `w` digits, and `parseDigits` reads a run
of digits back. `parseUnsigned` adds the conventions of a strict integer parser: no
empty input, an optional leading `+`, no sign on its own, and an overflow bound.

## Main results

* `parseDigits_zeroPadded`: the padded field reads back as the number, at every width.
* `length_zeroPadded_eq_iff`: the field is exactly `w` digits wide if and only if
  `n < 10 ^ w` — the padding width is a minimum, so larger numbers widen the field.
* `parseUnsigned_zeroPadded`: the strict parser reads every padded field back within its
  bound.
* `parseDigits_lt`: a run of `k` digits denotes a number below `10 ^ k`.
* `zeroPadded_parseUnsigned_iff`: writing what was parsed gives the field back unless it starts
  with a plus sign.
-/

namespace Decimal

/-- The ASCII digit of `d`. -/
def digit (d : ℕ) : UInt8 := UInt8.ofNat (48 + d)

/-- Whether a byte is an ASCII digit. -/
def isDigit (b : UInt8) : Bool := 48 ≤ b.toNat && b.toNat ≤ 57

/-- The value of a digit byte. -/
def digitVal (b : UInt8) : ℕ := b.toNat - 48

/-- The shortest ASCII decimal of `n`, most significant digit first. -/
def decimal (n : ℕ) : List UInt8 :=
  if n = 0 then [digit 0] else ((Nat.digits 10 n).map digit).reverse

/-- The ASCII decimal of `n`, padded with zeros on the left to at least `w` digits. -/
def zeroPadded (w n : ℕ) : List UInt8 :=
  List.replicate (w - (decimal n).length) (digit 0) ++ decimal n

/-- The value of a digit string, or `none` if a byte is not a digit. -/
def parseDigits (bs : List UInt8) : Option ℕ :=
  if bs.all isDigit then some (bs.foldl (fun acc b => 10 * acc + digitVal b) 0) else none

/-- Drop one leading `+`. -/
def stripPlus (bs : List UInt8) : List UInt8 :=
  if bs.head? = some 43 then bs.tail else bs

/-- The strict unsigned parser: at least one digit, one optional leading `+`, and a value
below `bound`. -/
def parseUnsigned (bound : ℕ) (bs : List UInt8) : Option ℕ :=
  if stripPlus bs = [] then none else (parseDigits (stripPlus bs)).filter (· < bound)

/-! ### Digits -/

/-- The code of a digit. -/
theorem toNat_digit {d : ℕ} (h : d < 10) : (digit d).toNat = 48 + d := by
  simp only [digit, UInt8.toNat_ofNat']
  omega

/-- A digit is one. -/
theorem isDigit_digit {d : ℕ} (h : d < 10) : isDigit (digit d) = true := by
  simp only [isDigit, toNat_digit h, Bool.and_eq_true, decide_eq_true_eq]
  omega

/-- A digit is read back. -/
theorem digitVal_digit {d : ℕ} (h : d < 10) : digitVal (digit d) = d := by
  simp only [digitVal, toNat_digit h]
  omega

/-- No digit is worth more than nine. -/
theorem digitVal_lt_of_isDigit {b : UInt8} (h : isDigit b = true) : digitVal b < 10 := by
  simp only [isDigit, Bool.and_eq_true, decide_eq_true_eq] at h
  simp only [digitVal]
  omega

/-- The plus sign is not a digit. -/
theorem isDigit_plus : isDigit 43 = false := by decide

/-! ### Values of digit strings -/

/-- Horner evaluation of a digit string on top of an accumulator. -/
theorem foldl_digitVal (bs : List UInt8) (acc : ℕ) :
    bs.foldl (fun acc b => 10 * acc + digitVal b) acc =
      10 ^ bs.length * acc + bs.foldl (fun acc b => 10 * acc + digitVal b) 0 := by
  induction bs generalizing acc with
  | nil => simp
  | cons b bs ih =>
      rw [List.foldl_cons, List.foldl_cons, ih (10 * acc + digitVal b),
        ih (10 * 0 + digitVal b), List.length_cons, pow_succ]
      ring

/-- The value of a digit string, written as an accumulation. -/
def value (bs : List UInt8) : ℕ := bs.foldl (fun acc b => 10 * acc + digitVal b) 0

/-- Nothing is worth zero. -/
@[simp] theorem value_nil : value [] = 0 := rfl

/-- The digits in front are worth more by a power of ten. -/
theorem value_append (as bs : List UInt8) :
    value (as ++ bs) = 10 ^ bs.length * value as + value bs := by
  simp only [value, List.foldl_append]
  exact foldl_digitVal bs _

/-- One digit. -/
@[simp] theorem value_singleton (b : UInt8) : value [b] = digitVal b := by
  simp [value]

/-- A number is read if there are only digits, and it is their value. -/
theorem parseDigits_eq_some_iff {bs : List UInt8} {n : ℕ} :
    parseDigits bs = some n ↔ bs.all isDigit = true ∧ value bs = n := by
  by_cases h : bs.all isDigit = true <;> simp [parseDigits, value, h]

/-- Leading zeros do not change the value. -/
theorem value_replicate_zero (k : ℕ) : value (List.replicate k (digit 0)) = 0 := by
  induction k with
  | zero => rfl
  | succ k ih =>
      rw [List.replicate_succ', value_append, ih, value_singleton, digitVal_digit (by omega),
        Nat.mul_zero]

/-- A run of `k` digits denotes a number below `10 ^ k`. -/
theorem value_lt {bs : List UInt8} (h : bs.all isDigit = true) : value bs < 10 ^ bs.length := by
  induction bs using List.reverseRecOn with
  | nil => simp
  | append_singleton bs b ih =>
      simp only [List.all_append, List.all_cons, List.all_nil, Bool.and_true,
        Bool.and_eq_true] at h
      have hb := digitVal_lt_of_isDigit h.2
      have hbs := ih h.1
      rw [value_append, value_singleton, List.length_append, List.length_singleton, pow_one,
        pow_succ]
      omega

/-- Digits of the same worth are the same. -/
theorem eq_of_digitVal_eq {b b' : UInt8} (hb : isDigit b = true) (hb' : isDigit b' = true)
    (h : digitVal b = digitVal b') : b = b' := by
  simp only [isDigit, Bool.and_eq_true, decide_eq_true_eq] at hb hb'
  rw [digitVal, digitVal] at h
  exact UInt8.toNat_inj.mp (by omega)

/-- Equally long digit strings of one value are equal. -/
theorem eq_of_value_eq {as bs : List UInt8} (ha : as.all isDigit = true)
    (hb : bs.all isDigit = true) (hlen : as.length = bs.length) (h : value as = value bs) :
    as = bs := by
  induction as using List.reverseRecOn generalizing bs with
  | nil => exact (List.length_eq_zero_iff.mp hlen.symm).symm
  | append_singleton as a ih =>
      have hne : bs ≠ [] := by
        rintro rfl
        simp at hlen
      obtain ⟨bs, b, rfl⟩ : ∃ init last, bs = init ++ [last] :=
        ⟨_, _, (List.dropLast_append_getLast hne).symm⟩
      simp only [List.all_append, List.all_cons, List.all_nil, Bool.and_true,
        Bool.and_eq_true] at ha hb
      simp only [List.length_append, List.length_singleton, Nat.add_right_cancel_iff] at hlen
      simp only [value_append, value_singleton, List.length_singleton, pow_one] at h
      have hva := digitVal_lt_of_isDigit ha.2
      have hvb := digitVal_lt_of_isDigit hb.2
      rw [ih ha.1 hb.1 hlen (by omega), eq_of_digitVal_eq ha.2 hb.2 (by omega)]

/-- A number of so many digits is below that power of ten. -/
theorem parseDigits_lt {bs : List UInt8} {n : ℕ} (h : parseDigits bs = some n) :
    n < 10 ^ bs.length := by
  obtain ⟨hdig, rfl⟩ := parseDigits_eq_some_iff.mp h
  exact value_lt hdig

/-! ### Decimals -/

/-- A number has at least one digit. -/
theorem decimal_ne_nil (n : ℕ) : decimal n ≠ [] := by
  by_cases h : n = 0
  · simp [decimal, h]
  · simp [decimal, h, Nat.digits_ne_nil_iff_ne_zero]

/-- A number has nothing but digits. -/
theorem all_isDigit_decimal (n : ℕ) : (decimal n).all isDigit = true := by
  rw [List.all_eq_true]
  intro b hb
  by_cases h : n = 0
  · simp only [decimal, h, if_true, List.mem_singleton] at hb
    rw [hb]
    exact isDigit_digit (by omega)
  · simp only [decimal, h, if_false, List.mem_reverse, List.mem_map] at hb
    obtain ⟨d, hd, rfl⟩ := hb
    exact isDigit_digit (Nat.digits_lt_base (by omega) hd)

/-- The value of a reversed little-endian digit list is `Nat.ofDigits`. -/
theorem value_reverse_map_digit (ds : List ℕ) (h : ∀ d ∈ ds, d < 10) :
    value (ds.map digit).reverse = Nat.ofDigits 10 ds := by
  induction ds with
  | nil => rfl
  | cons d ds ih =>
      have hd : d < 10 := h d List.mem_cons_self
      have hds : ∀ d ∈ ds, d < 10 := fun e he => h e (List.mem_cons_of_mem _ he)
      rw [List.map_cons, List.reverse_cons, value_append, value_singleton, ih hds,
        digitVal_digit hd, Nat.ofDigits_cons, List.length_singleton, pow_one]
      exact Nat.add_comm _ _

/-- **A number is read back** from its digits. -/
theorem value_decimal (n : ℕ) : value (decimal n) = n := by
  by_cases h : n = 0
  · simp [decimal, h, digitVal_digit]
  · have hlt : ∀ d ∈ Nat.digits 10 n, d < 10 := fun d hd => Nat.digits_lt_base (by omega) hd
    rw [decimal, if_neg h, value_reverse_map_digit _ hlt, Nat.ofDigits_digits]

/-- The decimal of `n` fits in `w ≥ 1` digits exactly when `n < 10 ^ w`. -/
theorem length_decimal_le_iff {n w : ℕ} (hw : 0 < w) :
    (decimal n).length ≤ w ↔ n < 10 ^ w := by
  by_cases h : n = 0
  · simp only [decimal, h, if_true, List.length_singleton]
    exact ⟨fun _ => by positivity, fun _ => hw⟩
  · rw [decimal, if_neg h, List.length_reverse, List.length_map]
    exact Nat.digits_length_le_iff (by omega) n

/-! ### Padded fields -/

/-- Padding consists of digits. -/
theorem all_isDigit_zeroPadded (w n : ℕ) : (zeroPadded w n).all isDigit = true := by
  rw [zeroPadded, List.all_append, all_isDigit_decimal, Bool.and_true, List.all_replicate]
  simp [isDigit_digit]

/-- Zeros in front add nothing to a number. -/
theorem value_zeroPadded (w n : ℕ) : value (zeroPadded w n) = n := by
  rw [zeroPadded, value_append, value_replicate_zero, value_decimal]
  omega

/-- **Read-back**: a padded field denotes the number it was written from. -/
theorem parseDigits_zeroPadded (w n : ℕ) : parseDigits (zeroPadded w n) = some n :=
  parseDigits_eq_some_iff.mpr ⟨all_isDigit_zeroPadded w n, value_zeroPadded w n⟩

/-- **The width is a minimum**: the field is `w` digits wide exactly when the number fits. -/
theorem length_zeroPadded_eq_iff {w n : ℕ} (hw : 0 < w) :
    (zeroPadded w n).length = w ↔ n < 10 ^ w := by
  rw [← length_decimal_le_iff hw, zeroPadded, List.length_append, List.length_replicate]
  omega

/-- A padded number fills its field. -/
theorem le_length_zeroPadded (w n : ℕ) : w ≤ (zeroPadded w n).length := by
  rw [zeroPadded, List.length_append, List.length_replicate]
  omega

/-- There is at least one digit. -/
theorem zeroPadded_ne_nil (w n : ℕ) : zeroPadded w n ≠ [] := by
  simp [zeroPadded, decimal_ne_nil]

/-- Different numbers have different fields. -/
theorem zeroPadded_injective (w : ℕ) : Function.Injective (zeroPadded w) := by
  intro m n h
  have hm := parseDigits_zeroPadded w m
  rw [h, parseDigits_zeroPadded] at hm
  exact (Option.some.inj hm).symm

/-- **A digit string is the padded field** of its value. -/
theorem zeroPadded_value {bs : List UInt8} (h : bs.all isDigit = true) (hne : bs ≠ []) :
    zeroPadded bs.length (value bs) = bs :=
  eq_of_value_eq (all_isDigit_zeroPadded _ _) h
    ((length_zeroPadded_eq_iff (List.length_pos_iff.mpr hne)).mpr (value_lt h))
    (value_zeroPadded _ _)

/-- Digits end at the first byte that is not a digit. -/
theorem append_cons_inj {as bs xs ys : List UInt8} {sep : UInt8} (ha : as.all isDigit = true)
    (hb : bs.all isDigit = true) (hsep : isDigit sep = false)
    (h : as ++ sep :: xs = bs ++ sep :: ys) : as = bs ∧ xs = ys := by
  have htake : ∀ (cs zs : List UInt8), cs.all isDigit = true →
      (cs ++ sep :: zs).takeWhile isDigit = cs := fun cs zs hc => by
    rw [List.takeWhile_append_of_pos (List.all_eq_true.mp hc),
      List.takeWhile_cons_of_neg (by rw [hsep]; exact Bool.false_ne_true), List.append_nil]
  have heq : as = bs := by rw [← htake as xs ha, h, htake bs ys hb]
  subst heq
  exact ⟨rfl, List.tail_eq_of_cons_eq (List.append_cancel_left h)⟩

/-! ### The strict parser -/

/-- Taking off a plus makes a text no longer. -/
theorem length_stripPlus_le (bs : List UInt8) : (stripPlus bs).length ≤ bs.length := by
  rw [stripPlus]
  split
  · rw [List.length_tail]
    omega
  · exact le_rfl

/-- A digit string has no sign to strip. -/
theorem stripPlus_of_all_isDigit {bs : List UInt8} (h : bs.all isDigit = true) :
    stripPlus bs = bs := by
  cases bs with
  | nil => rfl
  | cons b bs =>
      refine if_neg ?_
      rw [List.head?_cons]
      intro hb
      rw [Option.some.inj hb, List.all_cons, isDigit_plus, Bool.false_and] at h
      exact Bool.false_ne_true h

/-- **What is read as an unsigned number**: digits below the bound, with a plus in front at most. -/
theorem parseUnsigned_eq_some_iff {bound n : ℕ} {bs : List UInt8} :
    parseUnsigned bound bs = some n ↔
      stripPlus bs ≠ [] ∧ parseDigits (stripPlus bs) = some n ∧ n < bound := by
  by_cases h : stripPlus bs = []
  · simp [parseUnsigned, h]
  · simp [parseUnsigned, h, Option.filter_eq_some_iff]

/-- The strict parser reads every padded field back, within its bound. -/
theorem parseUnsigned_zeroPadded {bound w n : ℕ} (hn : n < bound) :
    parseUnsigned bound (zeroPadded w n) = some n := by
  rw [parseUnsigned_eq_some_iff, stripPlus_of_all_isDigit (all_isDigit_zeroPadded w n)]
  exact ⟨zeroPadded_ne_nil w n, parseDigits_zeroPadded w n, hn⟩

/-- Whatever the strict parser returns has at most as many digits as it was given bytes. -/
theorem parseUnsigned_lt {bound n : ℕ} {bs : List UInt8}
    (h : parseUnsigned bound bs = some n) : n < 10 ^ bs.length := by
  obtain ⟨-, hparse, -⟩ := parseUnsigned_eq_some_iff.mp h
  exact lt_of_lt_of_le (parseDigits_lt hparse)
    (Nat.pow_le_pow_right (by omega) (length_stripPlus_le bs))

/-- The strict parser reads digits behind a plus sign as it reads digits. -/
theorem parseUnsigned_cases {bound n : ℕ} {bs : List UInt8} (h : parseUnsigned bound bs = some n) :
    ∃ ds, ds ≠ [] ∧ ds.all isDigit = true ∧ value ds = n ∧
      (bs = ds ∧ bs.head? ≠ some 43 ∨ bs = 43 :: ds) := by
  obtain ⟨hne, hparse, -⟩ := parseUnsigned_eq_some_iff.mp h
  obtain ⟨hdig, hval⟩ := parseDigits_eq_some_iff.mp hparse
  refine ⟨stripPlus bs, hne, hdig, hval, ?_⟩
  rw [stripPlus]
  split
  · rename_i hplus
    obtain ⟨ds, rfl⟩ := List.head?_eq_some_iff.mp hplus
    exact Or.inr rfl
  · rename_i hplus
    exact Or.inl ⟨rfl, hplus⟩

/-- **Writing what was parsed** gives the field back unless it starts with a plus sign. -/
theorem zeroPadded_parseUnsigned_iff {bound n : ℕ} {bs : List UInt8}
    (h : parseUnsigned bound bs = some n) :
    zeroPadded bs.length n = bs ↔ bs.head? ≠ some 43 := by
  obtain ⟨ds, hne, hdig, rfl, ⟨rfl, hplus⟩ | rfl⟩ := parseUnsigned_cases h
  · exact ⟨fun _ => hplus, fun _ => zeroPadded_value hdig hne⟩
  · refine ⟨fun e => ?_, fun hplus => absurd rfl hplus⟩
    have hall := all_isDigit_zeroPadded (43 :: ds).length (value ds)
    rw [e, List.all_cons, isDigit_plus, Bool.false_and] at hall
    exact absurd hall Bool.false_ne_true

/-- **Fields of one number** and one length are equal just when both or none start with a plus
sign. -/
theorem eq_iff_of_parseUnsigned {bound bound' n : ℕ} {bs bs' : List UInt8}
    (h : parseUnsigned bound bs = some n) (h' : parseUnsigned bound' bs' = some n)
    (hlen : bs.length = bs'.length) :
    bs = bs' ↔ (bs.head? = some 43 ↔ bs'.head? = some 43) := by
  refine ⟨fun e => by rw [e], fun hplus => ?_⟩
  obtain ⟨ds, -, hdig, rfl, ⟨rfl, hno⟩ | rfl⟩ := parseUnsigned_cases h
  · obtain ⟨ds', -, hdig', hval, ⟨rfl, -⟩ | rfl⟩ := parseUnsigned_cases h'
    · exact eq_of_value_eq hdig hdig' hlen hval.symm
    · exact absurd (hplus.mpr rfl) hno
  · obtain ⟨ds', -, hdig', hval, ⟨rfl, hno⟩ | rfl⟩ := parseUnsigned_cases h'
    · exact absurd (hplus.mp rfl) hno
    · rw [eq_of_value_eq hdig hdig' (Nat.succ_injective hlen) hval.symm]

end Decimal
