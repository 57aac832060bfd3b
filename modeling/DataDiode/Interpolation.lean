import Mathlib.Data.List.GetD
import Mathlib.LinearAlgebra.Lagrange

/-!
# Erasure Codes by Interpolation

A systematic erasure code on symbols and on byte strings. The values of `k` original symbols
at the points `v 0, …, v (k - 1)` determine a polynomial of degree below `k`; its values at
the further points are the recovery symbols, and any `k` values determine it again.

Byte strings are coded two bytes a symbol, position by position, over a field with a
numbering of its elements by pairs of bytes.

## Main results

* `extend_eq`: the code is systematic.
* `extend_of_extends`: any `k` symbols of a code word determine all others.
* `ofSymbols_symbol`: byte strings of even length are strings of symbols.
-/

namespace Interpolation

open Polynomial

variable {F : Type*}

section Code

variable [Field F]

/-- The value at the point of index `j` of the polynomial through the values `r` at the points of
`s`. -/
noncomputable def extend (v : ℕ → F) (s : Finset ℕ) (r : ℕ → F) (j : ℕ) : F :=
  (Lagrange.interpolate s v r).eval (v j)

/-- **Systematic**: the given values stay. -/
theorem extend_eq {v : ℕ → F} {s : Finset ℕ} (hv : Set.InjOn v s) (r : ℕ → F) {j : ℕ}
    (hj : j ∈ s) : extend v s r j = r j :=
  Lagrange.eval_interpolate_at_node r hv hj

/-- **Any other `k` symbols determine the code word.** -/
theorem extend_of_extends {v : ℕ → F} {s t : Finset ℕ} (hs : Set.InjOn v s) (ht : Set.InjOn v t)
    (hcard : s.card = t.card) {r q : ℕ → F} (hq : ∀ j ∈ t, q j = extend v s r j) (i : ℕ) :
    extend v t q i = extend v s r i := by
  have hdeg : (Lagrange.interpolate s v r).degree < t.card := by
    rw [← hcard]
    exact Lagrange.degree_interpolate_lt r hs
  have heq : Lagrange.interpolate s v r = Lagrange.interpolate t v q :=
    Lagrange.eq_interpolate_of_eval_eq q ht hdeg fun j hj => (hq j hj).symm
  rw [extend, extend, heq]

end Code

/-! ### Byte strings as strings of symbols -/

/-- A numbering of the elements of a field by pairs of bytes. -/
abbrev Numbering (F : Type*) := Fin 65536 ≃ F

/-- The symbol at a position of a byte string. -/
def symbol (e : Numbering F) (b : List UInt8) (t : ℕ) : F :=
  e ⟨256 * (b.getD (2 * t) 0).toNat + (b.getD (2 * t + 1) 0).toNat, by
    have h0 := (b.getD (2 * t) 0).toNat_lt
    have h1 := (b.getD (2 * t + 1) 0).toNat_lt
    omega⟩

/-- The two bytes of a symbol. -/
def symbolBytes (e : Numbering F) (x : F) : List UInt8 :=
  [UInt8.ofNat ((e.symm x).val / 256), UInt8.ofNat ((e.symm x).val % 256)]

/-- The byte string of `n` symbols. -/
def ofSymbols (e : Numbering F) (n : ℕ) (f : ℕ → F) : List UInt8 :=
  (List.range n).flatMap fun t => symbolBytes e (f t)

/-- The bytes of one more symbol. -/
theorem ofSymbols_succ (e : Numbering F) (n : ℕ) (f : ℕ → F) :
    ofSymbols e (n + 1) f = ofSymbols e n f ++ symbolBytes e (f n) := by
  rw [ofSymbols, List.range_succ, List.flatMap_append, List.flatMap_singleton]
  rfl

/-- Every symbol takes two bytes. -/
@[simp] theorem length_ofSymbols (e : Numbering F) (n : ℕ) (f : ℕ → F) :
    (ofSymbols e n f).length = 2 * n := by
  induction n with
  | zero => rfl
  | succ n ih =>
      rw [ofSymbols_succ, List.length_append, ih, symbolBytes]
      simp only [List.length_cons, List.length_nil]
      omega

/-- Two bytes are read back from their symbol. -/
theorem symbolBytes_symbol (e : Numbering F) (b : List UInt8) (t : ℕ) :
    symbolBytes e (symbol e b t) = [b.getD (2 * t) 0, b.getD (2 * t + 1) 0] := by
  have h1 := (b.getD (2 * t + 1) 0).toNat_lt
  rw [symbolBytes, symbol, Equiv.symm_apply_apply]
  have hdiv : (256 * (b.getD (2 * t) 0).toNat + (b.getD (2 * t + 1) 0).toNat) / 256 =
      (b.getD (2 * t) 0).toNat := by omega
  have hmod : (256 * (b.getD (2 * t) 0).toNat + (b.getD (2 * t + 1) 0).toNat) % 256 =
      (b.getD (2 * t + 1) 0).toNat := by omega
  simp only [hdiv, hmod, UInt8.ofNat_toNat]

/-- **A byte string of even length is the string of its symbols.** -/
theorem ofSymbols_symbol (e : Numbering F) {b : List UInt8} {n : ℕ} (h : b.length = 2 * n) :
    ofSymbols e n (symbol e b) = b := by
  have hfront : ∀ m, 2 * m ≤ b.length → ofSymbols e m (symbol e b) = b.take (2 * m) := by
    intro m
    induction m with
    | zero => exact fun _ => rfl
    | succ m ih =>
        intro hm
        have h0 : 2 * m < b.length := by omega
        have h1 : 2 * m + 1 < b.length := by omega
        rw [ofSymbols_succ, ih (by omega), symbolBytes_symbol, List.getD_eq_getElem _ _ h0,
          List.getD_eq_getElem _ _ h1, Nat.mul_succ, ← List.take_concat_get' b (2 * m + 1) h1,
          ← List.take_concat_get' b (2 * m) h0, List.append_assoc, List.singleton_append]
  rw [hfront n (by omega), ← h, List.take_length]

/-- The symbols of a byte string made of symbols. -/
theorem symbol_ofSymbols (e : Numbering F) {n t : ℕ} (f : ℕ → F) (ht : t < n) :
    symbol e (ofSymbols e n f) t = f t := by
  have hbytes : ∀ m, t < m → (ofSymbols e m f).getD (2 * t) 0 =
      UInt8.ofNat ((e.symm (f t)).val / 256) ∧
      (ofSymbols e m f).getD (2 * t + 1) 0 = UInt8.ofNat ((e.symm (f t)).val % 256) := by
    intro m
    induction m with
    | zero => exact fun h => absurd h (Nat.not_lt_zero _)
    | succ m ih =>
        intro hm
        rw [ofSymbols_succ]
        rcases Nat.lt_succ_iff_lt_or_eq.mp hm with hlt | rfl
        · rw [List.getD_append _ _ _ _ (by rw [length_ofSymbols]; omega),
            List.getD_append _ _ _ _ (by rw [length_ofSymbols]; omega)]
          exact ih hlt
        · rw [List.getD_append_right _ _ _ _ (by rw [length_ofSymbols]),
            List.getD_append_right _ _ _ _ (by rw [length_ofSymbols]; omega), length_ofSymbols,
            Nat.sub_self, Nat.add_sub_cancel_left]
          exact ⟨rfl, rfl⟩
  obtain ⟨h0, h1⟩ := hbytes n ht
  have hlt := (e.symm (f t)).isLt
  have hdiv : (UInt8.ofNat ((e.symm (f t)).val / 256)).toNat = (e.symm (f t)).val / 256 := by
    rw [UInt8.toNat_ofNat']
    omega
  have hmod : (UInt8.ofNat ((e.symm (f t)).val % 256)).toNat = (e.symm (f t)).val % 256 := by
    rw [UInt8.toNat_ofNat']
    omega
  rw [symbol, ← e.eq_symm_apply]
  refine Fin.ext ?_
  simp only [h0, h1, hdiv, hmod]
  omega

end Interpolation
