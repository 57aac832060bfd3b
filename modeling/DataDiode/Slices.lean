import Mathlib.Data.List.Basic
import Mathlib.Tactic.Linarith

/-!
# Slices of a List

Two views of a long list as consecutive pieces. `chunk size l i` is the `i`-th piece of
`size` elements, the last one shorter; `chunks size l` lists the non-empty ones. On the
writing side `overwrite d pos piece` puts a piece at a position of existing contents and
`resize n d` cuts or extends contents to a length, filling with the default element, as
positioned writes to a file do. Lists joined with a separator, as the parts of a path are, come
in between.

## Main results

* `flatten_chunks`: the chunks concatenate to the list.
* `flatMap_chunk_range`: a run of consecutive chunks is one slice.
* `overwrite_middle`: a write of the same length replaces exactly its slice.
* `overwrite_overwrite`: two writes, the second where the first ends, are one.
* `patch_overwrite`: a write inside the contents changes its range only.
-/

namespace Slices

variable {α : Type*}

/-! ### Chunks -/

/-- The `i`-th chunk of `size` elements. -/
def chunk (size : ℕ) (l : List α) (i : ℕ) : List α := (l.drop (size * i)).take size

/-- The number of non-empty chunks. -/
def chunkCount (size : ℕ) (l : List α) : ℕ := (l.length + size - 1) / size

/-- The non-empty chunks, in order. -/
def chunks (size : ℕ) (l : List α) : List (List α) :=
  (List.range (chunkCount size l)).map (chunk size l)

/-- The length of a chunk. -/
theorem length_chunk (size : ℕ) (l : List α) (i : ℕ) :
    (chunk size l i).length = min size (l.length - size * i) := by
  rw [chunk, List.length_take, List.length_drop]

/-- No chunk is longer than its size. -/
theorem length_chunk_le (size : ℕ) (l : List α) (i : ℕ) : (chunk size l i).length ≤ size := by
  rw [length_chunk]
  exact min_le_left _ _

/-- A chunk index is in range exactly when its first element exists. -/
theorem lt_chunkCount_iff {size : ℕ} (hs : 0 < size) {l : List α} {i : ℕ} :
    i < chunkCount size l ↔ size * i < l.length := by
  rw [chunkCount, Nat.lt_iff_add_one_le, Nat.le_div_iff_mul_le hs, Nat.add_mul, Nat.one_mul,
    Nat.mul_comm i size]
  omega

/-- The chunks that are not empty. -/
theorem chunk_ne_nil_iff {size : ℕ} (hs : 0 < size) {l : List α} {i : ℕ} :
    chunk size l i ≠ [] ↔ i < chunkCount size l := by
  rw [lt_chunkCount_iff hs, ← List.length_pos_iff, length_chunk]
  omega

/-- Every chunk but the last is full. -/
theorem length_chunk_of_succ_lt {size : ℕ} (hs : 0 < size) {l : List α} {i : ℕ}
    (h : i + 1 < chunkCount size l) : (chunk size l i).length = size := by
  have h' := (lt_chunkCount_iff hs).mp h
  rw [Nat.mul_add, Nat.mul_one] at h'
  rw [length_chunk]
  omega

/-- **A run of consecutive chunks is one slice.** -/
theorem flatMap_chunk_range (size : ℕ) (l : List α) (start count : ℕ) :
    (List.range count).flatMap (fun i => chunk size l (start + i)) =
      (l.drop (size * start)).take (size * count) := by
  induction count with
  | zero => simp
  | succ count ih =>
      rw [List.range_succ, List.flatMap_append, ih, List.flatMap_singleton, Nat.mul_add,
        Nat.mul_one, List.take_add, List.drop_drop, ← Nat.mul_add, chunk]

/-- **The chunks concatenate to the list.** -/
theorem flatten_chunks {size : ℕ} (hs : 0 < size) (l : List α) : (chunks size l).flatten = l := by
  have hrun := flatMap_chunk_range size l 0 (chunkCount size l)
  have hlen : l.length ≤ size * chunkCount size l := by
    have := (lt_chunkCount_iff hs (l := l) (i := chunkCount size l)).not.mp (lt_irrefl _)
    omega
  simp only [Nat.zero_add, Nat.mul_zero, List.drop_zero, List.take_of_length_le hlen] at hrun
  rw [chunks, ← List.flatMap_def]
  exact hrun

/-- The number of chunks of a list. -/
theorem length_chunks (size : ℕ) (l : List α) : (chunks size l).length = chunkCount size l := by
  rw [chunks, List.length_map, List.length_range]

/-- Every chunk of the list is non-empty and no longer than the chunk size. -/
theorem length_of_mem_chunks {size : ℕ} (hs : 0 < size) {l c : List α} (h : c ∈ chunks size l) :
    0 < c.length ∧ c.length ≤ size := by
  rw [chunks, List.mem_map] at h
  obtain ⟨i, hi, rfl⟩ := h
  exact ⟨List.length_pos_iff.mpr ((chunk_ne_nil_iff hs).mpr (List.mem_range.mp hi)),
    length_chunk_le size l i⟩

/-- Chunking is peeling off the front. -/
theorem chunks_eq_cons {size : ℕ} (hs : 0 < size) {l : List α} (hl : l ≠ []) :
    chunks size l = l.take size :: chunks size (l.drop size) := by
  have hcount : chunkCount size l = chunkCount size (l.drop size) + 1 := by
    have hpos := List.length_pos_iff.mpr hl
    rw [chunkCount, chunkCount, List.length_drop]
    rcases le_total l.length size with h | h
    · have h1 : l.length + size - 1 = size + (l.length - 1) := by omega
      have h2 : l.length - size + size - 1 = size - 1 := by omega
      rw [h1, h2, Nat.add_div_left _ hs, Nat.div_eq_of_lt (by omega), Nat.div_eq_of_lt (by omega)]
    · have h1 : l.length + size - 1 = l.length - size + size - 1 + size := by omega
      rw [h1, Nat.add_div_right _ hs]
  rw [chunks, hcount, List.range_succ_eq_map, List.map_cons, List.map_map, chunks]
  congr 1
  refine List.map_congr_left fun i _ => ?_
  simp only [Function.comp_apply, chunk, List.drop_drop, Nat.mul_succ]
  rw [Nat.add_comm]

/-- Nothing has no chunks. -/
@[simp] theorem chunks_nil (size : ℕ) (hs : 0 < size) : chunks size ([] : List α) = [] := by
  rw [chunks, chunkCount, List.length_nil, Nat.zero_add, Nat.div_eq_of_lt (by omega)]
  rfl

/-! ### Joined lists -/

/-- A function that goes through appending goes through joining with a separator. -/
theorem map_intercalate {β : Type*} (f : List α → List β) (hnil : f [] = [])
    (happend : ∀ a b, f (a ++ b) = f a ++ f b) (sep : List α) (l : List (List α)) :
    f (sep.intercalate l) = (f sep).intercalate (l.map f) := by
  induction l with
  | nil => exact hnil
  | cons a l ih =>
      cases l with
      | nil => simp
      | cons b l =>
          rw [List.intercalate_cons_cons, happend, happend, ih]
          exact List.intercalate_cons_cons.symm

/-- What stands in a joined list comes from the separator or from a member. -/
theorem mem_or_exists_of_mem_intercalate {x : α} {sep : List α} {l : List (List α)}
    (h : x ∈ sep.intercalate l) : x ∈ sep ∨ ∃ a ∈ l, x ∈ a := by
  induction l with
  | nil => exact absurd h List.not_mem_nil
  | cons a l ih =>
      cases l with
      | nil => exact Or.inr ⟨a, List.mem_cons_self, by simpa using h⟩
      | cons b l =>
          rw [List.intercalate_cons_cons, List.mem_append, List.mem_append] at h
          rcases h with (h | h) | h
          · exact Or.inr ⟨a, List.mem_cons_self, h⟩
          · exact Or.inl h
          · rcases ih h with h | ⟨c, hc, h⟩
            · exact Or.inl h
            · exact Or.inr ⟨c, List.mem_cons_of_mem _ hc, h⟩

/-! ### Patches -/

/-- Contents changed between the positions `lo` and `hi` only. -/
structure Patch (lo hi : ℕ) (d d' : List α) : Prop where
  length_eq : d'.length = d.length
  take_eq : d'.take lo = d.take lo
  drop_eq : d'.drop hi = d.drop hi

/-- Nothing is patched. -/
theorem Patch.refl (lo hi : ℕ) (d : List α) : Patch lo hi d d := ⟨rfl, rfl, rfl⟩

/-- A patch inside a wider range. -/
theorem Patch.mono {lo hi lo' hi' : ℕ} {d d' : List α} (h : Patch lo hi d d') (hlo : lo' ≤ lo)
    (hhi : hi ≤ hi') : Patch lo' hi' d d' := by
  refine ⟨h.length_eq, ?_, ?_⟩
  · rw [← min_eq_left hlo, ← List.take_take, h.take_eq, List.take_take]
  · rw [← Nat.add_sub_cancel' hhi, ← List.drop_drop, h.drop_eq, List.drop_drop]

/-- One patch after the other. -/
theorem Patch.trans {lo hi : ℕ} {d d' d'' : List α} (h : Patch lo hi d d')
    (h' : Patch lo hi d' d'') : Patch lo hi d d'' :=
  ⟨h'.length_eq.trans h.length_eq, h'.take_eq.trans h.take_eq, h'.drop_eq.trans h.drop_eq⟩

/-! ### Positioned writes -/

variable [Inhabited α]

/-- Contents cut or extended to length `n`. -/
def resize (n : ℕ) (d : List α) : List α := d.take n ++ List.replicate (n - d.length) default

/-- Contents with `piece` written at position `pos`; a gap before it is filled. -/
def overwrite (d : List α) (pos : ℕ) (piece : List α) : List α :=
  resize pos d ++ piece ++ d.drop (pos + piece.length)

/-- A list cut or extended to a length has that length. -/
@[simp] theorem length_resize (n : ℕ) (d : List α) : (resize n d).length = n := by
  rw [resize, List.length_append, List.length_take, List.length_replicate]
  omega

/-- What is longer than the length is cut off. -/
theorem resize_of_le {n : ℕ} {d : List α} (h : n ≤ d.length) : resize n d = d.take n := by
  rw [resize, Nat.sub_eq_zero_of_le h, List.replicate_zero, List.append_nil]

/-- An empty list is filled with the default element. -/
@[simp] theorem resize_nil (n : ℕ) : resize n ([] : List α) = List.replicate n default := by
  simp [resize]

/-- A piece behind the end makes the data longer. -/
theorem length_overwrite (d : List α) (pos : ℕ) (piece : List α) :
    (overwrite d pos piece).length = max (pos + piece.length) d.length := by
  rw [overwrite, List.length_append, List.length_append, length_resize, List.length_drop]
  omega

/-- A write of the same length replaces exactly its slice. -/
theorem overwrite_middle (a b c piece : List α) (h : piece.length = b.length) :
    overwrite (a ++ b ++ c) a.length piece = a ++ piece ++ c := by
  rw [overwrite, resize_of_le (by simp), h]
  simp [List.append_assoc]

/-- What lies before the position of a write inside the contents stays. -/
theorem take_overwrite {d : List α} {pos n : ℕ} (piece : List α) (h : pos ≤ d.length)
    (hn : n ≤ pos) : (overwrite d pos piece).take n = d.take n := by
  rw [overwrite, resize_of_le h, List.append_assoc, List.take_append_of_le_length
    (by rw [List.length_take]; omega), List.take_take, min_eq_left hn]

/-- What lies behind a write stays. -/
theorem drop_overwrite {d : List α} {pos n : ℕ} (piece : List α)
    (hn : pos + piece.length ≤ n) : (overwrite d pos piece).drop n = d.drop n := by
  have hlen : (resize pos d ++ piece).length = pos + piece.length := by simp
  rw [overwrite, List.drop_append, List.drop_of_length_le (by omega), List.nil_append,
    List.drop_drop, hlen]
  congr 1
  omega

/-- Nothing written inside the contents changes nothing. -/
theorem overwrite_nil {d : List α} {pos : ℕ} (h : pos ≤ d.length) : overwrite d pos [] = d := by
  rw [overwrite, resize_of_le h, List.append_nil, List.length_nil, Nat.add_zero,
    List.take_append_drop]

/-- A write behind another one is one longer write. -/
theorem overwrite_overwrite (d : List α) (pos : ℕ) (piece piece' : List α) :
    overwrite (overwrite d pos piece) (pos + piece.length) piece' =
      overwrite d pos (piece ++ piece') := by
  have hfront : resize (pos + piece.length) (overwrite d pos piece) = resize pos d ++ piece := by
    rw [resize_of_le (by rw [length_overwrite]; exact le_max_left _ _), overwrite]
    exact List.take_left' (by rw [List.length_append, length_resize])
  rw [overwrite, hfront, drop_overwrite piece (Nat.le_add_right _ _), overwrite,
    List.length_append, ← Nat.add_assoc, List.append_assoc (resize pos d)]

/-- A write inside the contents is a patch of its range. -/
theorem patch_overwrite {d : List α} {pos : ℕ} (piece : List α)
    (h : pos + piece.length ≤ d.length) :
    Patch pos (pos + piece.length) d (overwrite d pos piece) := by
  refine ⟨?_, take_overwrite piece (by omega) le_rfl, drop_overwrite piece le_rfl⟩
  rw [length_overwrite]
  omega

end Slices
