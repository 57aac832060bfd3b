import Mathlib.Data.List.Chain

/-!
# Spaced Sequences

Sequences of instants of which each is at least a fixed distance behind the one before it, and how
many of them a window of a given length can hold. Where instants are added with saturation, the
distance is only kept up to a cap: `SpacedUpTo` is what is left then, and it is as good as `Spaced`
until the cap is reached.

## Main results

* `SpacedUpTo.of_isChain`: it is enough to look at neighbours.
* `SpacedUpTo.spaced_of_add_le`, `SpacedUpTo.spaced_of_lt`: below the cap nothing is lost.
* `Spaced.countP_window_le`: a closed window of length `T` holds at most `T / d + 1` instants.
-/

/-- Each entry is at least `d` behind every earlier one. -/
def Spaced (d : ℕ) (xs : List ℕ) : Prop := xs.Pairwise fun x y => x + d ≤ y

/-- Each entry is at least `d` behind every earlier one, or at the cap. -/
def SpacedUpTo (d cap : ℕ) (xs : List ℕ) : Prop := xs.Pairwise fun x y => min (x + d) cap ≤ y

namespace Spaced

variable {d : ℕ} {xs : List ℕ}

/-- A part of a spaced sequence is spaced. -/
theorem filter (h : Spaced d xs) (p : ℕ → Bool) : Spaced d (xs.filter p) :=
  List.Pairwise.filter p h

/-- From the first entry to a bound on all of them there is room for every step. -/
theorem add_mul_le {x b : ℕ} (h : Spaced d (x :: xs)) (hb : ∀ y ∈ x :: xs, y ≤ b) :
    x + xs.length * d ≤ b := by
  induction xs generalizing x with
  | nil => simpa using hb x List.mem_cons_self
  | cons y ys ih =>
      obtain ⟨hx, hys⟩ := List.pairwise_cons.mp h
      have hxy : x + d ≤ y := hx y List.mem_cons_self
      have hrest := ih hys fun z hz => hb z (List.mem_cons_of_mem x hz)
      rw [List.length_cons, Nat.succ_mul]
      omega

/-- A spaced sequence inside a closed window of length `T`. -/
theorem length_le {a T : ℕ} (hd : 0 < d) (h : Spaced d xs)
    (hwindow : ∀ x ∈ xs, a ≤ x ∧ x ≤ a + T) : xs.length ≤ T / d + 1 := by
  cases xs with
  | nil => exact Nat.zero_le _
  | cons x xs =>
      have hroom := h.add_mul_le fun y hy => (hwindow y hy).2
      have hstart := (hwindow x List.mem_cons_self).1
      have hmul : xs.length * d ≤ T := by omega
      rw [List.length_cons]
      exact Nat.succ_le_succ ((Nat.le_div_iff_mul_le hd).mpr hmul)

/-- **Window bound**: a closed window of length `T` holds at most `T / d + 1` entries. -/
theorem countP_window_le (hd : 0 < d) (h : Spaced d xs) (a T : ℕ) :
    xs.countP (fun x => a ≤ x ∧ x ≤ a + T) ≤ T / d + 1 := by
  rw [List.countP_eq_length_filter]
  refine (h.filter _).length_le hd (a := a) fun x hx => ?_
  simpa using List.of_mem_filter hx

end Spaced

namespace SpacedUpTo

variable {d cap : ℕ} {xs : List ℕ}

/-- **Neighbours are enough.** -/
theorem of_isChain (h : xs.IsChain fun x y => min (x + d) cap ≤ y) : SpacedUpTo d cap xs := by
  have : Trans (fun x y : ℕ => min (x + d) cap ≤ y) (fun x y => min (x + d) cap ≤ y)
      (fun x y => min (x + d) cap ≤ y) := ⟨fun hxy hyz => by omega⟩
  exact h.pairwise

/-- A part of a sequence that is spaced up to the cap is so, too. -/
theorem filter (h : SpacedUpTo d cap xs) (p : ℕ → Bool) : SpacedUpTo d cap (xs.filter p) :=
  List.Pairwise.filter p h

/-- No step was cut off at the cap. -/
theorem spaced_of_add_le (h : SpacedUpTo d cap xs) (hle : ∀ x ∈ xs, x + d ≤ cap) :
    Spaced d xs :=
  h.imp_of_mem fun {x y} hx _ hxy => by
    have hx := hle x hx
    omega

/-- No entry reaches the cap. -/
theorem spaced_of_lt (h : SpacedUpTo d cap xs) (hlt : ∀ x ∈ xs, x < cap) : Spaced d xs :=
  h.imp_of_mem fun {x y} _ hy hxy => by
    have hy := hlt y hy
    omega

/-- Windows that end below the cap. -/
theorem countP_window_le (hd : 0 < d) (h : SpacedUpTo d cap xs) {a T : ℕ} (hcap : a + T < cap) :
    xs.countP (fun x => a ≤ x ∧ x ≤ a + T) ≤ T / d + 1 := by
  rw [List.countP_eq_length_filter]
  have hwindow : ∀ x ∈ xs.filter fun x => a ≤ x ∧ x ≤ a + T, a ≤ x ∧ x ≤ a + T := fun x hx => by
    simpa using List.of_mem_filter hx
  have hlt : ∀ x ∈ xs.filter fun x => a ≤ x ∧ x ≤ a + T, x < cap := fun x hx =>
    lt_of_le_of_lt (hwindow x hx).2 hcap
  exact ((h.filter _).spaced_of_lt hlt).length_le hd hwindow

end SpacedUpTo
