import Mathlib.Data.Int.Notation
import Mathlib.Data.List.Basic

/-!
# Partial Machine Operations

Integer operations and slices as a machine has them: `none` where the result does not fit or the
range is out of bounds, which is where a checked build panics and an unchecked one wraps. A program
written with them is `none` as soon as one operation is out of range, and otherwise computes what
the same program computes on natural numbers and lists.

## Main results

* `fit_eq`, `add_eq`, `mul_eq`, `sub_eq`, `slice_eq`, `sliceTo_eq`, `sliceFrom_eq`: the operations
  in range.
* `toUnsigned_eq`, `toSigned_eq`: conversions of what fits.
-/

namespace Machine

variable {α : Type*}

/-- A number as an integer below `bound`. -/
def fit (bound n : ℕ) : Option ℕ := if n < bound then some n else none

/-- `a + b`, which panics on overflow. -/
def add (bound a b : ℕ) : Option ℕ := fit bound (a + b)

/-- `a * b`, which panics on overflow. -/
def mul (bound a b : ℕ) : Option ℕ := fit bound (a * b)

/-- `a - b`, which panics below zero. -/
def sub (a b : ℕ) : Option ℕ := if b ≤ a then some (a - b) else none

/-- The elements from `a` up to `b`. -/
def slice (l : List α) (a b : ℕ) : Option (List α) :=
  if a ≤ b ∧ b ≤ l.length then some ((l.drop a).take (b - a)) else none

/-- The elements up to `b`. -/
def sliceTo (l : List α) (b : ℕ) : Option (List α) :=
  if b ≤ l.length then some (l.take b) else none

/-- The elements from `a` on. -/
def sliceFrom (l : List α) (a : ℕ) : Option (List α) :=
  if a ≤ l.length then some (l.drop a) else none

/-- A number in range is kept. -/
theorem fit_eq {bound n : ℕ} (h : n < bound) : fit bound n = some n := if_pos h

/-- A sum in range. -/
theorem add_eq {bound a b : ℕ} (h : a + b < bound) : add bound a b = some (a + b) := fit_eq h

/-- A product in range. -/
theorem mul_eq {bound a b : ℕ} (h : a * b < bound) : mul bound a b = some (a * b) := fit_eq h

/-- A difference above zero. -/
theorem sub_eq {a b : ℕ} (h : b ≤ a) : sub a b = some (a - b) := if_pos h

/-- A range within the slice. -/
theorem slice_eq {l : List α} {a b : ℕ} (hab : a ≤ b) (hb : b ≤ l.length) :
    slice l a b = some ((l.drop a).take (b - a)) := if_pos ⟨hab, hb⟩

/-- A range from the start. -/
theorem sliceTo_eq {l : List α} {b : ℕ} (h : b ≤ l.length) : sliceTo l b = some (l.take b) :=
  if_pos h

/-- A range to the end. -/
theorem sliceFrom_eq {l : List α} {a : ℕ} (h : a ≤ l.length) : sliceFrom l a = some (l.drop a) :=
  if_pos h

/-! ### Conversions -/

/-- Conversion to an unsigned integer below `bound`, which cuts off what does not fit. -/
def toUnsigned (bound : ℕ) (x : ℤ) : ℕ := (x % (bound : ℤ)).toNat

/-- Conversion to a signed integer of as many values. -/
def toSigned (bound : ℕ) (x : ℤ) : ℤ := x.bmod bound

/-- A cast without loss. -/
theorem toUnsigned_eq {bound n : ℕ} (h : n < bound) : toUnsigned bound n = n := by
  rw [toUnsigned, Int.emod_eq_of_lt (Int.natCast_nonneg n) (Int.ofNat_lt.mpr h), Int.toNat_natCast]

/-- A cast of a number that is small enough. -/
theorem toSigned_eq {bound n : ℕ} (h : 2 * n < bound) : toSigned bound n = n :=
  Int.bmod_eq_of_le_mul_two (by omega) (by omega)

/-! ### Loops that can fail -/

/-- Run a fallible step over a list, where each step may also be out of range. -/
def foldExcept {ε β : Type*} (step : β → α → Option (Except ε β)) :
    β → List α → Option (Except ε β)
  | b, [] => some (.ok b)
  | b, a :: as =>
      match step b a with
      | none => none
      | some (.error e) => some (.error e)
      | some (.ok b) => foldExcept step b as

/-- A loop whose steps are in range. -/
theorem foldExcept_eq {ε β : Type*} {step : β → α → Option (Except ε β)}
    {step' : β → α → Except ε β} {l : List α} (h : ∀ b, ∀ a ∈ l, step b a = some (step' b a))
    (b : β) : foldExcept step b l = some (l.foldlM step' b) := by
  induction l generalizing b with
  | nil => rfl
  | cons a l ih =>
      rw [foldExcept, h b a List.mem_cons_self, List.foldlM_cons]
      cases step' b a with
      | error e => rfl
      | ok b => exact ih (fun b a ha => h b a (List.mem_cons_of_mem _ ha)) b

end Machine
