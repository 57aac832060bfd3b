import Mathlib.Data.Finset.Basic

/-!
# Enumerations of Sets

A program that walks over a set sees its elements in some order, each once, and the order is not its
own. A search for the first element with a property finds one if there is one; which one it finds is
up to the order, and every one of them is found in some order.

A process builds its sets by adding elements, and then has them in an order of its own.

## Main results

* `Enumerates.exists_find?`: a search finds an element of the set with the property, if any.
* `exists_enumerates_find?`: each of them is the first in some order.
* `SetOrder.enumerates`: the order of a process enumerates the set that it has built.
-/

variable {α : Type*} [DecidableEq α] {l : List α} {S : Finset α}

/-- A list has the elements of a set, each once. -/
def Enumerates (l : List α) (S : Finset α) : Prop := l.Nodup ∧ l.toFinset = S

/-- What is enumerated is what is in the set. -/
theorem Enumerates.mem_iff (h : Enumerates l S) {x : α} : x ∈ l ↔ x ∈ S := by
  rw [← h.2, List.mem_toFinset]

/-- Every finite set can be enumerated. -/
theorem exists_enumerates (S : Finset α) : ∃ l, Enumerates l S :=
  ⟨S.toList, S.nodup_toList, S.toList_toFinset⟩

/-- Any element can come first. -/
theorem exists_enumerates_cons {x : α} (hx : x ∈ S) : ∃ l, Enumerates (x :: l) S := by
  obtain ⟨l, hnodup, hl⟩ := exists_enumerates (S.erase x)
  have hnot : x ∉ l := fun hmem => by
    rw [← List.mem_toFinset, hl] at hmem
    exact Finset.notMem_erase x S hmem
  refine ⟨l, List.nodup_cons.mpr ⟨hnot, hnodup⟩, ?_⟩
  rw [List.toFinset_cons, hl, Finset.insert_erase hx]

/-! ### Searches -/

/-- Nothing is found where nothing has the property. -/
theorem Enumerates.find?_eq_none (h : Enumerates l S) {p : α → Bool}
    (hp : S.filter (p ·) = ∅) : l.find? p = none := by
  refine List.find?_eq_none.mpr fun x hx hpx => ?_
  have hmem : x ∈ S.filter (p ·) := Finset.mem_filter.mpr ⟨h.mem_iff.mp hx, hpx⟩
  rw [hp] at hmem
  exact absurd hmem (Finset.notMem_empty x)

/-- **A search** finds an element with the property, if there is one. -/
theorem Enumerates.exists_find? (h : Enumerates l S) {p : α → Bool}
    (hp : (S.filter (p ·)).Nonempty) : ∃ x ∈ S.filter (p ·), l.find? p = some x := by
  obtain ⟨y, hy⟩ := hp
  obtain ⟨hyS, hpy⟩ := Finset.mem_filter.mp hy
  cases hfind : l.find? p with
  | none => exact absurd hpy (List.find?_eq_none.mp hfind y (h.mem_iff.mpr hyS))
  | some x =>
      exact ⟨x, Finset.mem_filter.mpr
        ⟨h.mem_iff.mp (List.mem_of_find?_eq_some hfind), List.find?_some hfind⟩, rfl⟩

/-- **Each of them** is found in some order. -/
theorem exists_enumerates_find? {p : α → Bool} {x : α} (hx : x ∈ S.filter (p ·)) :
    ∃ l, Enumerates l S ∧ l.find? p = some x := by
  obtain ⟨hxS, hpx⟩ := Finset.mem_filter.mp hx
  obtain ⟨l, hl⟩ := exists_enumerates_cons hxS
  exact ⟨x :: l, hl, List.find?_cons_of_pos hpx⟩

/-! ### The order of a process -/

/-- **How a process has its sets in order**: what it walks over where some elements have been added,
one after the other, and some of them more than once. -/
structure SetOrder (α : Type*) where
  iterate : List α → List α
  nodup : ∀ added, (iterate added).Nodup
  mem_iff : ∀ added x, x ∈ iterate added ↔ x ∈ added

namespace SetOrder

/-- What is iterated is what has been added. -/
theorem enumerates (order : SetOrder α) (added : List α) :
    Enumerates (order.iterate added) added.toFinset := by
  refine ⟨order.nodup added, Finset.ext fun x => ?_⟩
  rw [List.mem_toFinset, List.mem_toFinset, order.mem_iff]

/-- The order in which the elements were added. -/
def insertion : SetOrder α where
  iterate := List.dedup
  nodup := List.nodup_dedup
  mem_iff _ _ := List.mem_dedup

/-- What was added last comes first. -/
def backward : SetOrder α where
  iterate added := added.dedup.reverse
  nodup added := List.nodup_reverse.mpr (List.nodup_dedup added)
  mem_iff _ _ := List.mem_reverse.trans List.mem_dedup

end SetOrder
