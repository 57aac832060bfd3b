import DataDiode.Manifest
import DataDiode.SplitFiles

/-!
# Splitting and Merging

`split_files` followed by `merge_files` on the same directory. `IsSplit` describes the tree between
the two: small files as they were, and the pieces of each large file in its place. The first half
shows that a run of `split_files` in which every call succeeds leaves such a tree, the second that
`merge_files` makes the tree from which it came out of it and removes the pieces.

That takes more than successful calls. `Mergeable` lists what names and sizes have to be like, and
`Restorable` what the manifest has to be like.

## Main results

* `SplitRun.Succeeds.isSplit`: what `split_files` leaves.
* `IsSplit.mergeFiles`: what `merge_files` makes of it.
* `split_merge`: the round trip.
* `SplitRun.Succeeds.entries`: paths that the manifest can name have entries in it.
* `not_split_merge_stray`: a file that is named like a first piece is merged.
-/

namespace DataDiode

open Files

/-! ### The tree in between -/

/-- The pieces of a whole file. -/
def wholePieces (c : Bytes) : List Bytes := Slices.chunks pieceSize c

/-- **A split tree**: small files are as they were, and large files are in pieces. -/
structure IsSplit (tool : Splitter) (t t' : Tree UInt8 UInt8) : Prop where
  small : ∀ l ∈ t, isLarge t l = false → t'.lookup l = t.lookup l
  gone : ∀ f, isLarge t f = true → t'.lookup f = none
  piece : ∀ f c, isLarge t f = true → t.lookup f = some c → ∀ i,
    t'.lookup (tool.piece f i) = (wholePieces c)[i]?
  other : ∀ l, l ∉ t → (∀ f, isLarge t f = true → ∀ i, l ≠ tool.piece f i) → t'.lookup l = none

/-- What is there in a split tree is a file of the tree, or a piece. -/
theorem IsSplit.mem_cases {tool : Splitter} {t t' : Tree UInt8 UInt8} {l : Place UInt8}
    (h : IsSplit tool t t') (hl : l ∈ t') :
    l ∈ t ∨ ∃ f, isLarge t f = true ∧ ∃ i, l = tool.piece f i := by
  by_contra hnot
  rw [not_or] at hnot
  refine absurd hl (AList.lookup_eq_none.mp (h.other l hnot.1 fun f hf i hi => ?_))
  exact hnot.2 ⟨f, hf, i, hi⟩

/-- A split that gets to the end writes the whole file. -/
theorem splitPieces_whole {c : Bytes} {o : SplitOutcome} (hbytes : c.length ≤ o.bytes)
    (hopened : o.opened = false) : splitPieces c o = wholePieces c := by
  rw [splitPieces, wholePieces, List.take_of_length_le hbytes, hopened]
  simp

/-- **Splitting all large files to their ends** leaves a split tree. -/
theorem SplitDone.isSplit {tool : Splitter} {t t' : Tree UInt8 UInt8} {seen : List SplitVisit}
    (h : SplitDone tool t seen t') (hspaced : Spaced tool t)
    (hvisits : ∀ f, isLarge t f = true → ∃ v ∈ seen, v.place = f)
    (hsplit : ∀ v ∈ seen, ∀ c, isLarge t v.place = true → t.lookup v.place = some c →
      c.length ≤ v.split.bytes ∧ v.split.opened = false)
    (hremoved : ∀ v ∈ seen, v.removed = true) : IsSplit tool t t' := by
  refine ⟨fun l hl hsmall => ?_, fun f hf => ?_, fun f c hf hc i => ?_, fun l hl hpieces => ?_⟩
  · refine h.other l fun v hv hlarge => ⟨?_, fun hwrites => ?_⟩
    · rintro rfl
      exact absurd (hlarge.symm.trans hsmall) (by simp)
    · exact AList.lookup_eq_none.mp ((hspaced.clear seen).free v hv l hwrites) hl
  · obtain ⟨v, hv, rfl⟩ := hvisits f hf
    obtain ⟨c, hc, -⟩ := isLarge_iff.mp hf
    rw [h.split v hv hf _ (Or.inl rfl), DataDiode.splitOne, hc]
    dsimp only
    rw [if_pos (hremoved v hv), AList.lookup_erase]
  · obtain ⟨c', hc', hlen⟩ := isLarge_iff.mp hf
    obtain rfl := Option.some.inj (hc.symm.trans hc')
    by_cases hi : i < (wholePieces c).length
    · obtain ⟨v, hv, rfl⟩ := hvisits f hf
      obtain ⟨hbytes, hopened⟩ := hsplit v hv c hf hc
      rw [List.getElem?_eq_getElem hi]
      refine h.lookup_written hv hc hlen (w := (tool.piece v.place i, (wholePieces c)[i])) ?_
      rw [Splitter.writes, splitPieces_whole hbytes hopened]
      exact List.mem_mapIdx.mpr ⟨i, hi, rfl⟩
    · rw [List.getElem?_eq_none (by omega), h.other _ fun v hv hlarge => ⟨?_, fun hwrites => ?_⟩]
      · exact AList.lookup_eq_none.mpr fun hmem => hspaced.free _ _ hf hmem i rfl
      · exact fun heq => hspaced.free f _ hf (mem_of_isLarge hlarge) i heq.symm
      · -- the pieces of the file end before this one
        obtain rfl := hspaced.eq_of_owns_owns hf hlarge (Or.inr ⟨i, rfl⟩) hwrites.owns
        obtain ⟨c', hc', -, hmem⟩ := hwrites
        obtain rfl := Option.some.inj (hc.symm.trans hc')
        obtain ⟨hbytes, hopened⟩ := hsplit v hv c hf hc
        rw [Splitter.map_fst_writes, splitPieces_whole hbytes hopened] at hmem
        obtain ⟨j, hj, heq⟩ := List.mem_map.mp hmem
        obtain rfl := tool.piece_injective _ heq
        exact hi (List.mem_range.mp hj)
  · rw [h.other l, AList.lookup_eq_none.mpr hl]
    intro v hv hlarge
    refine ⟨fun heq => hl (heq ▸ mem_of_isLarge hlarge), fun hwrites => ?_⟩
    obtain heq | ⟨i, hi⟩ := hwrites.owns
    · exact hl (heq ▸ mem_of_isLarge hlarge)
    · exact hpieces v.place hlarge i hi

/-! ### What it takes -/

/-- The regular files below a directory. -/
structure MergeRun.IsTree (run : MergeRun) (t : Tree UInt8 UInt8) : Prop where
  below : ∀ l ∈ t, run.below l = true
  writable : ∀ l ∈ t, ¬run.Unwritable l

/-- **Names and sizes that survive the round trip**: the shell finds the directories of large files,
two letters are enough for their pieces, no name in the whole tree starts like those of the pieces
of a large file, and what ends like a first piece is not merged into anything. A file that is itself
large is not merged if `find` does not come by it, once it is back. -/
structure Mergeable (tool : Splitter) (run : MergeRun) (t : Tree UInt8 UInt8) : Prop where
  beside : ∀ f, isLarge t f = true → chunkDir f.dir = f.dir
  few : ∀ f c, isLarge t f = true → t.lookup f = some c → (wholePieces c).length ≤ tool.letters
  swept : ∀ f l, isLarge t f = true → l ∈ t → ¬f.base ++ chunkInfix <+: l.base
  first : ∀ l ∈ t, isFirstChunk l.base = true →
    run.Unwritable (baseOf l) ∨ isLarge t l = true ∧ l ∉ run.batches.flatten

/-- No file is named like the first piece of another one. -/
def Lone (t : Tree UInt8 UInt8) : Prop := ∀ l ∈ t, isFirstChunk l.base = true → baseOf l ∉ t

namespace Mergeable

variable {tool : Splitter} {run : MergeRun} {t : Tree UInt8 UInt8} {f g l : Place UInt8} {i j : ℕ}

/-- A piece tells the file and the number. -/
theorem piece_inj (h : Mergeable tool run t) (hf : isLarge t f = true) (hg : isLarge t g = true)
    (heq : tool.piece f i = tool.piece g j) : f = g ∧ i = j := by
  obtain ⟨hbase, hij⟩ := tool.chunkName_inj (congrArg Place.base heq)
  have hdir : f.dir = g.dir :=
    (h.beside f hf).symm.trans ((congrArg Place.dir heq).trans (h.beside g hg))
  refine ⟨?_, hij⟩
  cases f
  cases g
  exact congrArg₂ Place.mk hdir hbase

/-- No piece is there before the split. -/
theorem piece_notMem (h : Mergeable tool run t) (hf : isLarge t f = true) :
    tool.piece f i ∉ t :=
  fun hmem => h.swept f _ hf hmem (List.prefix_append _ _)

/-- Pieces of different files are apart. -/
theorem spaced (h : Mergeable tool run t) : Spaced tool t :=
  ⟨fun _ _ hf hl _ heq => h.piece_notMem hf (heq ▸ hl),
    fun _ _ hf hg _ _ heq => (h.piece_inj hf hg heq).1⟩

end Mergeable

/-! ### Names of pieces -/

/-- What is found in a tree is in it. -/
theorem mem_of_lookup {t : Tree UInt8 UInt8} {l : Place UInt8} {c : Bytes}
    (h : t.lookup l = some c) : l ∈ t :=
  AList.lookup_isSome.mp (Option.isSome_of_eq_some h)

/-- The name of a first piece is that of a file, and the suffix. -/
theorem append_of_isFirstChunk {n : Bytes} (h : isFirstChunk n = true) :
    n = n.take (n.length - firstChunkSuffix.length) ++ firstChunkSuffix :=
  (List.suffix_iff_eq_append.mp (List.isSuffixOf_iff_suffix.mp h)).symm

/-- What ends like a first piece is one of the file it is merged into. -/
theorem chunkName_baseOf (tool : Splitter) {l : Place UInt8} (h : isFirstChunk l.base = true) :
    l.base = tool.chunkName (baseOf l).base 0 := by
  rw [Splitter.chunkName, tool.first, List.append_assoc]
  exact append_of_isFirstChunk h

/-- Pieces of a file are found by the shell if they have two letters. -/
theorem isChunkOf_chunkName {tool : Splitter} {base : Bytes} {i : ℕ} (hi : i < tool.letters) :
    isChunkOf base (tool.chunkName base i) = true := by
  rw [isChunkOf, Splitter.chunkName, List.drop_left, (tool.isTwoLetters_suffix i).mpr hi,
    Bool.and_true]
  exact List.isPrefixOf_iff_prefix.mpr (List.prefix_append _ _)

/-- What the shell finds among pieces is a piece of the file. -/
theorem eq_of_isChunkOf_chunkName {tool : Splitter} {base base' : Bytes} {i : ℕ}
    (h : isChunkOf base (tool.chunkName base' i) = true) : base = base' := by
  obtain ⟨hstarts, hletters⟩ := Bool.and_eq_true_iff.mp h
  have hsplit := List.prefix_iff_eq_append.mp (List.isPrefixOf_iff_prefix.mp hstarts)
  refine (append_chunkInfix_inj (fun hmem => ?_) (tool.underscore_notMem_suffix i) hsplit).1
  rw [isTwoLetters.eq_def] at hletters
  split at hletters
  · rename_i x y hxy
    rw [hxy] at hmem
    simp only [Bool.and_eq_true, decide_eq_true_eq] at hletters
    rcases List.mem_cons.mp hmem with rfl | hmem
    · exact absurd hletters.1.1 (by decide)
    · obtain rfl := List.mem_singleton.mp hmem
      exact absurd hletters.2.1 (by decide)
  · exact absurd hletters (by simp)

/-- The name of a first piece has an underscore. -/
theorem underscore_mem_of_isFirstChunk {n : Bytes} (h : isFirstChunk n = true) : 95 ∈ n := by
  rw [append_of_isFirstChunk h]
  exact List.mem_append_right _ (by decide)

/-- Names without underscores have nothing to do with pieces. -/
theorem Mergeable.of_plain {tool : Splitter} {run : MergeRun} {t : Tree UInt8 UInt8}
    (hplain : ∀ l ∈ t, 95 ∉ l.base) (hbeside : ∀ f, isLarge t f = true → chunkDir f.dir = f.dir)
    (hfew : ∀ f c, isLarge t f = true → t.lookup f = some c →
      (wholePieces c).length ≤ tool.letters) : Mergeable tool run t :=
  ⟨hbeside, hfew, fun _ l _ hl hstarts => hplain l hl (underscore_mem_of_starts hstarts),
    fun l hl hfirst => absurd (underscore_mem_of_isFirstChunk hfirst) (hplain l hl)⟩

/-- Where no name has an underscore, every file is a lone one. -/
theorem Lone.of_plain {t : Tree UInt8 UInt8} (hplain : ∀ l ∈ t, 95 ∉ l.base) : Lone t :=
  fun l hl hfirst => absurd (underscore_mem_of_isFirstChunk hfirst) (hplain l hl)

/-! ### Merging -/

/-- The tree while files are merged: those whose first piece has been seen are back. -/
structure Restored (tool : Splitter) (t t' : Tree UInt8 UInt8) (seen : List (Place UInt8))
    (files : Tree UInt8 UInt8) : Prop where
  back : ∀ f, isLarge t f = true → tool.piece f 0 ∈ seen → files.lookup f = t.lookup f
  other : ∀ l, (isLarge t l = true → tool.piece l 0 ∉ seen) → files.lookup l = t'.lookup l

namespace Restored

variable {tool : Splitter} {run : MergeRun} {t t' files : Tree UInt8 UInt8}
  {seen : List (Place UInt8)} {f l v : Place UInt8} {c : Bytes}

/-- A file of the tree is there as it was, or not at all. -/
theorem lookup_of_mem (h : Restored tool t t' seen files) (hsplit : IsSplit tool t t')
    (hl : l ∈ t) : files.lookup l = t.lookup l ∨
      isLarge t l = true ∧ files.lookup l = none := by
  by_cases hback : isLarge t l = true ∧ tool.piece l 0 ∈ seen
  · exact Or.inl (h.back l hback.1 hback.2)
  have hother := h.other l fun hlarge hseen => hback ⟨hlarge, hseen⟩
  cases hlarge : isLarge t l with
  | true => exact Or.inr ⟨rfl, hother.trans (hsplit.gone l hlarge)⟩
  | false => exact Or.inl (hother.trans (hsplit.small l hl hlarge))

/-- Pieces are there throughout. -/
theorem lookup_piece (h : Restored tool t t' seen files) (hsplit : IsSplit tool t t')
    (hmergeable : Mergeable tool run t) (hf : isLarge t f = true) (hc : t.lookup f = some c)
    (i : ℕ) : files.lookup (tool.piece f i) = (wholePieces c)[i]? := by
  rw [h.other _ fun hlarge => absurd (mem_of_isLarge hlarge) (hmergeable.piece_notMem hf)]
  exact hsplit.piece f c hf hc i

/-- What is there is a file of the tree, or a piece. -/
theorem mem_cases (h : Restored tool t t' seen files) (hsplit : IsSplit tool t t')
    (hl : l ∈ files) : l ∈ t ∨ ∃ f, isLarge t f = true ∧ ∃ i, l = tool.piece f i := by
  by_cases hlarge : isLarge t l = true
  · exact Or.inl (mem_of_isLarge hlarge)
  · exact hsplit.mem_cases ((mem_of_lookup_eq (h.other l fun hl => absurd hl hlarge)).mp hl)

/-- **The shell finds the pieces of a file in order**, and they make it up. -/
theorem concat_eq (h : Restored tool t t' seen files) (hsplit : IsSplit tool t t')
    (hmergeable : Mergeable tool run t) (hf : isLarge t f = true) (hc : t.lookup f = some c) :
    concat files f.dir (namesIn files f.dir (isChunkOf f.base)) = c := by
  have hwhole : splitPieces c ⟨c.length, false⟩ = wholePieces c := splitPieces_whole le_rfl rfl
  set writes := tool.writes f c ⟨c.length, false⟩ with hwrites
  have hwritten : ∀ w ∈ writes, w.1.dir = f.dir ∧ files.lookup w.1 = some w.2 := by
    intro w hw
    obtain ⟨i, hi, rfl⟩ := List.mem_mapIdx.mp hw
    refine ⟨hmergeable.beside f hf, (h.lookup_piece hsplit hmergeable hf hc i).trans ?_⟩
    rw [← hwhole]
    exact List.getElem?_eq_getElem hi
  have hbases : (writes.map fun w => w.1.base) =
      (List.range (wholePieces c).length).map (tool.chunkName f.base) := by
    have hplaces := congrArg (List.map Place.base) (tool.map_fst_writes f c ⟨c.length, false⟩)
    rwa [List.map_map, List.map_map, hwhole] at hplaces
  have hnames : namesIn files f.dir (isChunkOf f.base) = writes.map fun w => w.1.base := by
    rw [hbases]
    refine namesIn_eq ?_ fun n => ⟨fun hn => ?_, fun hn => ?_⟩
    · rw [List.pairwise_map]
      exact List.pairwise_lt_range.imp fun hij => tool.chunkName_strictMono f.base hij
    · obtain ⟨i, hi, rfl⟩ := List.mem_map.mp hn
      have hi := List.mem_range.mp hi
      have hpiece : (⟨f.dir, tool.chunkName f.base i⟩ : Place UInt8) = tool.piece f i := by
        rw [Splitter.piece, hmergeable.beside f hf]
      refine ⟨?_, isChunkOf_chunkName (hi.trans_le (hmergeable.few f c hf hc))⟩
      rw [hpiece]
      exact mem_of_lookup ((h.lookup_piece hsplit hmergeable hf hc i).trans
        (List.getElem?_eq_getElem hi))
    · obtain ⟨hmem, hchunk⟩ := hn
      rcases h.mem_cases hsplit hmem with hl | ⟨g, hg, i, hi⟩
      · exact absurd (List.isPrefixOf_iff_prefix.mp (Bool.and_eq_true_iff.mp hchunk).1)
          (hmergeable.swept f _ hf hl)
      · obtain rfl : n = tool.chunkName g.base i := congrArg Place.base hi
        have hbase := eq_of_isChunkOf_chunkName hchunk
        have hfg : tool.piece f i = tool.piece g i := by
          rw [← hi, Splitter.piece, hmergeable.beside f hf, hbase]
        obtain ⟨rfl, -⟩ := hmergeable.piece_inj hf hg hfg
        rw [hi] at hmem
        refine List.mem_map_of_mem (List.mem_range.mpr ?_)
        by_contra hi'
        have hnone := (h.lookup_piece hsplit hmergeable hf hc i).trans
          (List.getElem?_eq_none (by omega))
        exact absurd hmem (AList.lookup_eq_none.mp hnone)
  rw [hnames, concat_of_lookup hwritten, tool.map_snd_writes, flatten_splitPieces,
    List.take_length]

end Restored

/-- A run of `merge_files` without errors, on a tree that is searched completely. -/
structure MergeRun.Succeeds (run : MergeRun) (t : Tree UInt8 UInt8) : Prop where
  python : run.python = true
  whole : ∀ l, run.cut l = none
  readable : ∀ l, run.unreadable l = false
  deletable : ∀ l, run.undeletable l = false
  nodup : run.batches.flatten.Nodup
  visits : ∀ l ∈ t, run.below l = true → isFirstChunk l.base = true → l ∈ run.batches.flatten

/-- The first piece of a file is called like one. -/
theorem isFirstChunk_chunkName (tool : Splitter) (base : Bytes) :
    isFirstChunk (tool.chunkName base 0) = true := by
  rw [isFirstChunk, List.isSuffixOf_iff_suffix, Splitter.chunkName, tool.first, List.append_assoc]
  exact List.suffix_append _ _

section Merging

variable {tool : Splitter} {run : MergeRun} {t t' : Tree UInt8 UInt8} {f : Place UInt8}

/-- The merge comes back to the file by its first piece. -/
theorem baseOf_piece (hmergeable : Mergeable tool run t) (hf : isLarge t f = true) :
    baseOf (tool.piece f 0) = f := by
  have hbase := chunkName_baseOf tool (isFirstChunk_chunkName tool f.base) (l := tool.piece f 0)
  obtain ⟨hname, -⟩ := tool.chunkName_inj hbase
  cases f
  exact congrArg₂ Place.mk (hmergeable.beside _ hf) hname.symm

/-- A first piece beside a large file is one of it, if it is not a file of the tree. -/
theorem eq_zero_of_isFirstChunk_piece {i : ℕ} (h : isFirstChunk (tool.piece f i).base = true) :
    i = 0 :=
  (tool.chunkName_inj (chunkName_baseOf tool h)).2

/-- Every large file has a first piece. -/
theorem first_piece_mem (hsplit : IsSplit tool t t') (htree : run.IsTree t)
    (hmergeable : Mergeable tool run t) (hf : isLarge t f = true) :
    tool.piece f 0 ∈ t' ∧ run.below (tool.piece f 0) = true ∧
      isFirstChunk (tool.piece f 0).base = true := by
  obtain ⟨c, hc, hlen⟩ := isLarge_iff.mp hf
  refine ⟨?_, ?_, isFirstChunk_chunkName tool f.base⟩
  · have hne : wholePieces c ≠ [] := by
      intro hnil
      have hflatten := Slices.flatten_chunks (show 0 < pieceSize by decide) c
      rw [show Slices.chunks pieceSize c = [] from hnil] at hflatten
      rw [← hflatten] at hlen
      exact absurd hlen (by simp)
    have hpos := List.length_pos_iff.mpr hne
    exact mem_of_lookup ((hsplit.piece f c hf hc 0).trans (List.getElem?_eq_getElem hpos))
  · have hbelow := htree.below f (mem_of_isLarge hf)
    rwa [MergeRun.below, Splitter.piece, hmergeable.beside f hf]

/-- A turn on something that is merged into nothing. -/
theorem mergeOne_of_unwritable {st : Merging} {v : Place UInt8} (h : run.Unwritable (baseOf v)) :
    run.mergeOne st v = st := if_pos h

/-- **One turn** puts a file together from its pieces. -/
theorem mergeOne_piece {seen : List (Place UInt8)} {st : Merging} {c : Bytes}
    (h : Restored tool t t' seen st.files) (hsplit : IsSplit tool t t') (htree : run.IsTree t)
    (hmergeable : Mergeable tool run t) (hwhole : ∀ l, run.cut l = none)
    (hf : isLarge t f = true) (hc : t.lookup f = some c) :
    (run.mergeOne st (tool.piece f 0)).files = st.files.insert f c := by
  rw [MergeRun.mergeOne, baseOf_piece hmergeable hf]
  dsimp only
  rw [if_neg (htree.writable f (mem_of_isLarge hf)), hwhole f, Option.elim_none,
    h.concat_eq hsplit hmergeable hf hc]

/-- **Reassembling a split tree** brings all large files back. -/
theorem restored_reassemble (hsplit : IsSplit tool t t') (htree : run.IsTree t)
    (hmergeable : Mergeable tool run t) (hok : run.Succeeds t') :
    Restored tool t t' run.batches.flatten (run.reassemble t').files := by
  refine findExec_invariant (fun seen (st : Merging) => Restored tool t t' seen st.files)
    (fun v => v ∈ t' ∧ run.below v = true ∧ isFirstChunk v.base = true) hok.nodup
    (fun seen st v h hv _ => ?_) (fun seen st v h hv _ htest => ?_)
    (fun seen st v h hv _ htest => ?_) ⟨by simp, fun _ _ => rfl⟩
  · by_cases hfirst : isFirstChunk v.base = true
    · by_cases hmem : v ∈ t
      · obtain hidle | ⟨-, hnot⟩ := hmergeable.first v hmem hfirst
        · exact Or.inr fun st => mergeOne_of_unwritable hidle
        · exact absurd hv hnot
      · have hsame := mem_of_lookup_eq (h.other v fun hlarge => absurd (mem_of_isLarge hlarge) hmem)
        exact Or.inl (by simp only [hsame])
    · exact Or.inl (by simp [hfirst])
  · refine ⟨fun f hf hseen => ?_, fun l hl => h.other l fun hlarge hseen =>
      hl hlarge (List.mem_append_left _ hseen)⟩
    rcases List.mem_append.mp hseen with hseen | hseen
    · exact h.back f hf hseen
    · rw [← List.mem_singleton.mp hseen] at htest
      exact absurd (first_piece_mem hsplit htree hmergeable hf) (of_decide_eq_false htest)
  · obtain ⟨hmem', hbelow, hfirst⟩ := of_decide_eq_true htest
    by_cases hmem : v ∈ t
    · obtain hidle | ⟨-, hnot⟩ := hmergeable.first v hmem hfirst
      · rw [mergeOne_of_unwritable hidle]
        refine ⟨fun f hf hseen => ?_, fun l hl => h.other l fun hlarge hseen =>
          hl hlarge (List.mem_append_left _ hseen)⟩
        rcases List.mem_append.mp hseen with hseen | hseen
        · exact h.back f hf hseen
        · rw [← List.mem_singleton.mp hseen] at hmem
          exact absurd hmem (hmergeable.piece_notMem hf)
      · exact absurd hv hnot
    · obtain ⟨f, hf, i, rfl⟩ := (hsplit.mem_cases hmem').resolve_left hmem
      obtain rfl := eq_zero_of_isFirstChunk_piece hfirst
      obtain ⟨c, hc, -⟩ := isLarge_iff.mp hf
      rw [mergeOne_piece h hsplit htree hmergeable hok.whole hf hc]
      refine ⟨fun g hg hseen => ?_, fun l hl => ?_⟩
      · by_cases hgf : g = f
        · rw [hgf, AList.lookup_insert, hc]
        · rw [AList.lookup_insert_ne hgf]
          refine h.back g hg ((List.mem_append.mp hseen).resolve_right fun heq => hgf ?_)
          exact (hmergeable.piece_inj hg hf (List.mem_singleton.mp heq)).1
      · have hlf : l ≠ f := by
          rintro rfl
          exact hl hf (List.mem_append_right _ List.mem_cons_self)
        rw [AList.lookup_insert_ne hlf]
        exact h.other l fun hlarge hseen => hl hlarge (List.mem_append_left _ hseen)

/-- All files of the tree are back. -/
theorem lookup_reassemble (hsplit : IsSplit tool t t') (htree : run.IsTree t)
    (hmergeable : Mergeable tool run t) (hok : run.Succeeds t') {l : Place UInt8} (hl : l ∈ t) :
    (run.reassemble t').files.lookup l = t.lookup l := by
  have h := restored_reassemble hsplit htree hmergeable hok
  rcases h.lookup_of_mem hsplit hl with hsame | ⟨hlarge, -⟩
  · exact hsame
  · obtain ⟨hmem, hbelow, hfirst⟩ := first_piece_mem hsplit htree hmergeable hlarge
    exact h.back l hlarge (hok.visits _ hmem hbelow hfirst)

/-- The first pieces that are found when files are verified: those of large files, and files of the
tree that are merged into nothing. -/
theorem roots_cases (hsplit : IsSplit tool t t') (htree : run.IsTree t)
    (hmergeable : Mergeable tool run t) (hok : run.Succeeds t') {aa : Place UInt8}
    (haa : aa ∈ run.roots (run.reassemble t').files) :
    (∃ f, isLarge t f = true ∧ aa = tool.piece f 0) ∨
      aa ∈ t ∧ isFirstChunk aa.base = true ∧
        (baseOf aa ∈ (run.reassemble t').files → baseOf aa ∈ t) := by
  have h := restored_reassemble hsplit htree hmergeable hok
  obtain ⟨hmem, -, hfirst⟩ := MergeRun.mem_roots.mp haa
  rcases h.mem_cases hsplit hmem with hl | ⟨f, hf, i, rfl⟩
  · refine Or.inr ⟨hl, hfirst, fun hbase => ?_⟩
    rcases h.mem_cases hsplit hbase with hbase | ⟨g, hg, j, hj⟩
    · exact hbase
    · have hstarts : g.base ++ chunkInfix <+: (baseOf aa).base := by
        rw [hj]
        exact List.prefix_append _ _
      refine absurd (hstarts.trans ?_) (hmergeable.swept g aa hg hl)
      rw [chunkName_baseOf tool hfirst, Splitter.chunkName, List.append_assoc]
      exact List.prefix_append _ _
  · obtain rfl := eq_zero_of_isFirstChunk_piece hfirst
    exact Or.inl ⟨f, hf, rfl⟩

/-- If no file is named like the first piece of another one, what is not a piece has nothing to
verify. -/
theorem roots_cases_of_lone (hsplit : IsSplit tool t t') (htree : run.IsTree t)
    (hmergeable : Mergeable tool run t) (hlone : Lone t) (hok : run.Succeeds t')
    {aa : Place UInt8} (haa : aa ∈ run.roots (run.reassemble t').files) :
    (∃ f, isLarge t f = true ∧ aa = tool.piece f 0) ∨
      (run.reassemble t').files.lookup (baseOf aa) = none := by
  refine (roots_cases hsplit htree hmergeable hok haa).imp_right ?_
  rintro ⟨hl, hfirst, hbase⟩
  exact AList.lookup_eq_none.mpr fun hmem => hlone aa hl hfirst (hbase hmem)

/-- The manifest is read as it was written. -/
theorem entries_reassemble (hsplit : IsSplit tool t t') (htree : run.IsTree t)
    (hmergeable : Mergeable tool run t) (hok : run.Succeeds t') (hmanifest : run.manifest ∈ t) :
    run.entries (run.reassemble t').files = run.entries t := by
  rw [MergeRun.entries, MergeRun.entries, lookup_reassemble hsplit htree hmergeable hok hmanifest]

/-- A large file, back again, matches if the manifest has its digest. -/
theorem matches_reassemble_iff (hsplit : IsSplit tool t t') (htree : run.IsTree t)
    (hmergeable : Mergeable tool run t) (hok : run.Succeeds t') (hmanifest : run.manifest ∈ t)
    {c : Bytes} (hf : isLarge t f = true) (hc : t.lookup f = some c) :
    run.Matches (run.reassemble t').files f ↔
      expectedDigest (run.entries t) f = some (run.sha256 c) := by
  have hdigest : run.digest (run.reassemble t').files f = some (run.sha256 c) := by
    rw [MergeRun.digest, if_neg (by simp [hok.readable]),
      lookup_reassemble hsplit htree hmergeable hok (mem_of_isLarge hf), hc]
    rfl
  rw [MergeRun.Matches, entries_reassemble hsplit htree hmergeable hok hmanifest, hdigest]
  constructor
  · rintro ⟨d, hd, hexp⟩
    rw [hexp, hd]
  · exact fun hexp => ⟨_, rfl, hexp⟩

/-- **What the manifest has to say** about the tree for the round trip: nothing about files that are
named without the ending of a first piece in the tree; and for each large file its digest, unless it
has nothing and the pieces are swept up for another large file. -/
structure Covers (sha256 : Bytes → Str) (entries : List (Str × Str)) (t : Tree UInt8 UInt8) :
    Prop where
  unlisted : ∀ l ∈ t, isFirstChunk l.base = true → baseOf l ∈ t →
    expectedDigest entries (baseOf l) = none
  listed : ∀ f c, isLarge t f = true → t.lookup f = some c →
    expectedDigest entries f = some (sha256 c) ∨
      expectedDigest entries f = none ∧ ∃ g d, isLarge t g = true ∧ t.lookup g = some d ∧
        expectedDigest entries g = some (sha256 d) ∧
        g.base ++ chunkInfix <+: f.base ++ chunkInfix

/-- What is found when files are verified: first pieces of large files, and files of the tree that
are not judged. -/
theorem roots_cases_of_covers (hsplit : IsSplit tool t t') (htree : run.IsTree t)
    (hmergeable : Mergeable tool run t) (hok : run.Succeeds t') (hmanifest : run.manifest ∈ t)
    (hcovers : Covers run.sha256 (run.entries t) t) {aa : Place UInt8}
    (haa : aa ∈ run.roots (run.reassemble t').files) :
    (∃ f, isLarge t f = true ∧ aa = tool.piece f 0) ∨
      run.Unjudged (run.reassemble t').files (baseOf aa) := by
  refine (roots_cases hsplit htree hmergeable hok haa).imp_right ?_
  rintro ⟨hl, hfirst, hbase⟩
  by_cases hmem : baseOf aa ∈ (run.reassemble t').files
  · refine Or.inr ?_
    rw [entries_reassemble hsplit htree hmergeable hok hmanifest]
    exact hcovers.unlisted aa hl hfirst (hbase hmem)
  · exact Or.inl (MergeRun.digest_of_lookup_eq_none (AList.lookup_eq_none.mpr hmem))

/-- What is unlinked: what is named as the pieces of a large file are whose digest matches. -/
theorem mem_unlinked_reassemble_iff (hsplit : IsSplit tool t t') (htree : run.IsTree t)
    (hmergeable : Mergeable tool run t) (hok : run.Succeeds t') (hmanifest : run.manifest ∈ t)
    (hcovers : Covers run.sha256 (run.entries t) t) {l : Place UInt8} :
    l ∈ (run.verifyAndClean (run.reassemble t').files).unlinked ↔
      l ∈ (run.reassemble t').files ∧ run.below l = true ∧
        ∃ f, isLarge t f = true ∧ run.Matches (run.reassemble t').files f ∧
          f.base ++ chunkInfix <+: l.base := by
  have h := restored_reassemble hsplit htree hmergeable hok
  rw [MergeRun.mem_unlinked_iff]
  constructor
  · rintro ⟨aa, haa, hmatch, hswept, -⟩
    obtain ⟨hmem, hbelow, hstarts⟩ := MergeRun.mem_swept.mp hswept
    rcases roots_cases_of_covers hsplit htree hmergeable hok hmanifest hcovers haa with
      ⟨f, hf, rfl⟩ | hunjudged
    · rw [baseOf_piece hmergeable hf] at hstarts hmatch
      exact ⟨hmem, hbelow, f, hf, hmatch, hstarts⟩
    · exact absurd hmatch hunjudged.not_matches
  · rintro ⟨hmem, hbelow, f, hf, hmatch, hstarts⟩
    refine ⟨tool.piece f 0, ?_, ?_, ?_, hok.deletable l⟩
    · obtain ⟨hpiece, hbelow, hfirst⟩ := first_piece_mem hsplit htree hmergeable hf
      refine MergeRun.mem_roots.mpr ⟨?_, hbelow, hfirst⟩
      have hsame := h.other (tool.piece f 0) fun hlarge =>
        absurd (mem_of_isLarge hlarge) (hmergeable.piece_notMem hf)
      exact (mem_of_lookup_eq hsame).mpr hpiece
    · rw [baseOf_piece hmergeable hf]
      exact hmatch
    · rw [baseOf_piece hmergeable hf]
      exact MergeRun.mem_swept.mpr ⟨hmem, hbelow, hstarts⟩

/-- The pieces of every large file are swept up, for the file or for another one. -/
theorem exists_sweeping (hsplit : IsSplit tool t t') (htree : run.IsTree t)
    (hmergeable : Mergeable tool run t) (hok : run.Succeeds t') (hmanifest : run.manifest ∈ t)
    (hcovers : Covers run.sha256 (run.entries t) t) (hf : isLarge t f = true) :
    ∃ g, isLarge t g = true ∧ run.Matches (run.reassemble t').files g ∧
      g.base ++ chunkInfix <+: f.base ++ chunkInfix := by
  obtain ⟨c, hc, -⟩ := isLarge_iff.mp hf
  rcases hcovers.listed f c hf hc with hexp | ⟨-, g, d, hg, hd, hexp, hstarts⟩
  · exact ⟨f, hf, (matches_reassemble_iff hsplit htree hmergeable hok hmanifest hf hc).mpr hexp,
      List.prefix_rfl⟩
  · exact ⟨g, hg, (matches_reassemble_iff hsplit htree hmergeable hok hmanifest hg hd).mpr hexp,
      hstarts⟩

/-- **Merging a split tree** gives back the tree. -/
theorem IsSplit.mergeFiles (hsplit : IsSplit tool t t') (htree : run.IsTree t)
    (hmergeable : Mergeable tool run t) (hok : run.Succeeds t') (hmanifest : run.manifest ∈ t)
    (hsmall : isLarge t run.manifest = false)
    (hcovers : Covers run.sha256 (run.entries t) t) :
    (run.mergeFiles t').2 = 0 ∧ ∀ l, (run.mergeFiles t').1.files.lookup l = t.lookup l := by
  have h := restored_reassemble hsplit htree hmergeable hok
  have hverifies : run.Verifies t' :=
    ⟨(mem_of_lookup_eq (hsplit.small _ hmanifest hsmall)).mpr hmanifest, hok.python,
      hok.readable _⟩
  have hunlinked := fun l =>
    mem_unlinked_reassemble_iff hsplit htree hmergeable hok hmanifest hcovers (l := l)
  rw [MergeRun.mergeFiles, if_pos hverifies]
  dsimp only
  refine ⟨?_, fun l => ?_⟩
  · rw [MergeRun.verifyAndClean_fail fun aa haa => ?_]
    · rfl
    · rcases roots_cases_of_covers hsplit htree hmergeable hok hmanifest hcovers haa with
        ⟨f, hf, rfl⟩ | hunjudged
      · rw [baseOf_piece hmergeable hf]
        obtain ⟨c, hc, -⟩ := isLarge_iff.mp hf
        rcases hcovers.listed f c hf hc with hexp | ⟨hnone, -⟩
        · exact Or.inl
            ((matches_reassemble_iff hsplit htree hmergeable hok hmanifest hf hc).mpr hexp)
        · refine Or.inr (Or.inr ?_)
          rwa [entries_reassemble hsplit htree hmergeable hok hmanifest]
      · exact Or.inr hunjudged
  · rw [(MergeRun.cleaned_verifyAndClean run (run.reassemble t').files).files l]
    by_cases hl : l ∈ t
    · rw [if_neg, lookup_reassemble hsplit htree hmergeable hok hl]
      intro hmem
      obtain ⟨-, -, f, hf, -, hstarts⟩ := (hunlinked l).mp hmem
      exact hmergeable.swept f l hf hl hstarts
    · rw [AList.lookup_eq_none.mpr hl]
      split
      · rfl
      · rename_i hkept
        refine AList.lookup_eq_none.mpr fun hmem => hkept ((hunlinked l).mpr ?_)
        obtain ⟨f, hf, i, rfl⟩ := (h.mem_cases hsplit hmem).resolve_left hl
        obtain ⟨g, hg, hmatch, hstarts⟩ :=
          exists_sweeping hsplit htree hmergeable hok hmanifest hcovers hf
        refine ⟨hmem, ?_, g, hg, hmatch, hstarts.trans (List.prefix_append _ _)⟩
        have hbelow := htree.below f (mem_of_isLarge hf)
        rwa [MergeRun.below, Splitter.piece, hmergeable.beside f hf]

end Merging

/-! ### The round trip -/

/-- A run of `split_files` in which every call succeeds, on a tree that is searched completely. -/
structure SplitRun.Succeeds (run : SplitRun) (sha256 : Bytes → Str) (t : Tree UInt8 UInt8) :
    Prop where
  hashCommand : run.hashCommand = true
  tmpCreated : run.tmpCreated = true
  hashed : run.hashed = true
  moved : run.moved = true
  hashes : ∃ order : List (Place UInt8), order.Nodup ∧
    (∀ l, l ∈ order ↔ l ∈ t ∧ isHashed l = true) ∧
    run.hashes = order.flatMap (manifestLine sha256 t)
  visits : ∀ f, isLarge t f = true → ∃ v ∈ run.batches.flatten, v.place = f
  split : ∀ v ∈ run.batches.flatten, ∀ c, t.lookup v.place = some c →
    c.length ≤ v.split.bytes ∧ v.split.opened = false
  removed : ∀ v ∈ run.batches.flatten, v.removed = true

/-- A run of `merge_files` on the directory of a run of `split_files`. -/
structure MergeRun.Follows (m : MergeRun) (run : SplitRun) : Prop where
  dir : m.dir = run.dir
  isDir : m.isDir [run.dir, manifestName] = run.manifestIsDir

/-- **Splitting and merging gives back the tree**, with the manifest, and reports success. -/
def RestoresTree (run : SplitRun) (m : MergeRun) (t : Tree UInt8 UInt8) : Prop :=
  (m.mergeFiles (run.splitFiles t).1).2 = 0 ∧
    ∀ l, (m.mergeFiles (run.splitFiles t).1).1.files.lookup l =
      if l = run.manifest then some run.hashes else t.lookup l

/-- **What the round trip takes**: names and sizes that survive it, room for the manifest, a
manifest that is not split itself, and entries in it as they have to be. If there is a file that is
named like its first piece, the manifest must not have an entry for itself. -/
structure Restorable (run : SplitRun) (m : MergeRun) (t : Tree UInt8 UInt8) : Prop where
  mergeable : Mergeable run.tool m t
  covers : Covers m.sha256 (manifestEntries run.hashes) t
  apart : ∀ l ∈ t, isFirstChunk l.base = true → baseOf l = run.manifest →
    expectedDigest (manifestEntries run.hashes) run.manifest = none
  free : run.tmpManifest ∉ t
  file : run.manifestIsDir = false
  short : run.hashes.length ≤ splitThreshold

section RoundTrip

variable {run : SplitRun} {m : MergeRun} {t : Tree UInt8 UInt8} {sha256 : Bytes → Str}

/-- The tree is split with its manifest in it. -/
theorem lookup_writeManifest_of_succeeds (hsplit : run.Succeeds sha256 t)
    (hfresh : run.manifest ∉ t) (hfree : run.tmpManifest ∉ t) (hfile : run.manifestIsDir = false)
    (l : Place UInt8) : (run.writeManifest t).2.lookup l =
      if l = run.manifest then some run.hashes else t.lookup l := by
  have htarget : run.target = run.manifest := by rw [SplitRun.target, hfile, if_neg (by simp)]
  rw [SplitRun.writeManifest, if_neg hfresh, hsplit.tmpCreated, hsplit.hashed, hsplit.moved,
    if_neg (by simp), if_neg (by simp), if_pos rfl, htarget]
  split
  · rename_i hl
    rw [hl]
    exact AList.lookup_insert _
  · rename_i hl
    refine (AList.lookup_insert_ne hl).trans ?_
    by_cases htmp : l = run.tmpManifest
    · rw [htmp, AList.lookup_erase, AList.lookup_eq_none.mpr hfree]
    · rw [AList.lookup_erase_ne htmp, AList.lookup_insert_ne htmp]

section Add

variable {tool : Splitter} {t t' : Tree UInt8 UInt8} {k : Place UInt8} {c : Bytes}

/-- A small file added to the tree is not large. -/
theorem isLarge_add (hk : k ∉ t) (hc : c.length ≤ splitThreshold)
    (hlookup : ∀ l, t'.lookup l = if l = k then some c else t.lookup l) (l : Place UInt8) :
    isLarge t' l = isLarge t l := by
  by_cases hl : l = k
  · rw [hl, isLarge, isLarge, hlookup, if_pos rfl, AList.lookup_eq_none.mpr hk]
    exact decide_eq_false (by omega)
  · exact isLarge_congr (by rw [hlookup, if_neg hl])

/-- The files of a tree with one more. -/
theorem mem_add (hlookup : ∀ l, t'.lookup l = if l = k then some c else t.lookup l)
    {l : Place UInt8} (hl : l ∈ t') : l = k ∨ l ∈ t :=
  (em (l = k)).imp_right fun hne => (mem_of_lookup_eq ((hlookup l).trans (if_neg hne))).mp hl

/-- The tree with a small file added, of a name that has nothing to do with pieces. -/
theorem Mergeable.add (h : Mergeable tool m t) (hk : k ∉ t) (hc : c.length ≤ splitThreshold)
    (hname : 95 ∉ k.base)
    (hlookup : ∀ l, t'.lookup l = if l = k then some c else t.lookup l) :
    Mergeable tool m t' := by
  have hlarge := isLarge_add hk hc hlookup
  refine ⟨fun f hf => h.beside f (hlarge f ▸ hf), fun f d hf hd => ?_, fun f l hf hl => ?_,
    fun l hl hfirst => ?_⟩
  · rw [hlarge] at hf
    have hne : f ≠ k := fun heq => hk (heq ▸ mem_of_isLarge hf)
    exact h.few f d hf (((hlookup f).trans (if_neg hne)).symm.trans hd)
  · rw [hlarge] at hf
    rcases mem_add hlookup hl with rfl | hl
    · exact fun hstarts => hname (underscore_mem_of_starts hstarts)
    · exact h.swept f l hf hl
  · rcases mem_add hlookup hl with rfl | hl
    · exact absurd (underscore_mem_of_isFirstChunk hfirst) hname
    · rw [hlarge]
      exact h.first l hl hfirst

/-- What is said about the tree is said about it with the file added, if nothing is said about the
file where it would be verified. -/
theorem Covers.add {sha256 : Bytes → Str} {entries : List (Str × Str)}
    (h : Covers sha256 entries t) (hk : k ∉ t) (hc : c.length ≤ splitThreshold)
    (hname : 95 ∉ k.base) (hlookup : ∀ l, t'.lookup l = if l = k then some c else t.lookup l)
    (hapart : ∀ l ∈ t, isFirstChunk l.base = true → baseOf l = k →
      expectedDigest entries k = none) : Covers sha256 entries t' := by
  have hlarge := isLarge_add hk hc hlookup
  have hsame : ∀ f, isLarge t f = true → t'.lookup f = t.lookup f := by
    intro f hf
    have hne : f ≠ k := fun heq => hk (heq ▸ mem_of_isLarge hf)
    rw [hlookup, if_neg hne]
  refine ⟨fun l hl hfirst hbase => ?_, fun f d hf hd => ?_⟩
  · rcases mem_add hlookup hl with rfl | hl
    · exact absurd (underscore_mem_of_isFirstChunk hfirst) hname
    · rcases mem_add hlookup hbase with heq | hbase
      · rw [heq]
        exact hapart l hl hfirst heq
      · exact h.unlisted l hl hfirst hbase
  · rw [hlarge] at hf
    refine (h.listed f d hf ((hsame f hf).symm.trans hd)).imp_right fun hswept => ?_
    obtain ⟨hnone, g, e, hg, he, hexp, hstarts⟩ := hswept
    exact ⟨hnone, g, e, (hlarge g).trans hg, (hsame g hg).trans he, hexp, hstarts⟩

end Add

/-- The manifest does not get in the way. -/
theorem Restorable.mergeable_writeManifest (h : Restorable run m t)
    (hsplit : run.Succeeds sha256 t) (hfresh : run.manifest ∉ t) :
    Mergeable run.tool m (run.writeManifest t).2 ∧
      ∀ l, isLarge (run.writeManifest t).2 l = isLarge t l :=
  have hlookup := lookup_writeManifest_of_succeeds hsplit hfresh h.free h.file
  ⟨h.mergeable.add hfresh h.short underscore_notMem_manifestName hlookup,
    isLarge_add hfresh h.short hlookup⟩

/-- **The first half**: what `split_files` leaves. -/
theorem SplitRun.Succeeds.isSplit (hsplit : run.Succeeds sha256 t) (hfresh : run.manifest ∉ t)
    (h : Restorable run m t) :
    IsSplit run.tool (run.writeManifest t).2 (run.splitFiles t).1 := by
  obtain ⟨hmergeable, hlarge⟩ := h.mergeable_writeManifest hsplit hfresh
  have hlookup := lookup_writeManifest_of_succeeds hsplit hfresh h.free h.file
  have hgoes : (run.writeManifest t).1 = true :=
    (SplitRun.writeManifest_fst run t).mpr (Or.inr ⟨hsplit.tmpCreated, hsplit.hashed⟩)
  have hrun : (run.splitFiles t).1 =
      findExec (fun t v => isLarge t v.place) (splitOne run.tool) (run.writeManifest t).2
        run.batches := by
    rw [SplitRun.splitFiles, hsplit.hashCommand, if_neg (by simp)]
    generalize run.writeManifest t = step at hgoes
    obtain ⟨goes, t₁⟩ := step
    obtain rfl : goes = true := hgoes
    rfl
  rw [hrun]
  refine (splitDone_findExec (hmergeable.spaced.clear _) run.nodup).isSplit hmergeable.spaced
    (fun f hf => hsplit.visits f (hlarge f ▸ hf)) (fun v hv c hv' hc => ?_) hsplit.removed
  rw [hlarge] at hv'
  have hne : v.place ≠ run.manifest := fun heq => hfresh (heq ▸ mem_of_isLarge hv')
  rw [hlookup, if_neg hne] at hc
  exact hsplit.split v hv c hc

/-- **Splitting and merging** a tree gives it back, whatever is in it, if names and sizes are such
that they survive it. -/
theorem split_merge (run : SplitRun) (m : MergeRun) (t : Tree UInt8 UInt8)
    (hfresh : run.manifest ∉ t) (htree : m.IsTree t) (hsplit : run.Succeeds m.sha256 t)
    (hfollows : m.Follows run) (hmerge : m.Succeeds (run.splitFiles t).1)
    (h : Restorable run m t) : RestoresTree run m t := by
  obtain ⟨hmergeable, hlarge⟩ := h.mergeable_writeManifest hsplit hfresh
  have hwhole := hsplit.isSplit hfresh h
  have hlookup := lookup_writeManifest_of_succeeds hsplit hfresh h.free h.file
  have hmanifest : m.manifest = run.manifest := by
    rw [MergeRun.manifest, SplitRun.manifest, hfollows.dir]
  set t₁ := (run.writeManifest t).2 with ht₁
  have hsame : ∀ l, l ≠ run.manifest → t₁.lookup l = t.lookup l := fun l hl => by
    rw [hlookup, if_neg hl]
  have hpresent : t₁.lookup run.manifest = some run.hashes := by rw [hlookup, if_pos rfl]
  have hmem : ∀ l ∈ t₁, l = run.manifest ∨ l ∈ t := fun l hl =>
    (em (l = run.manifest)).imp_right fun hne => (mem_of_lookup_eq (hsame l hne)).mp hl
  have htree₁ : m.IsTree t₁ := by
    refine ⟨fun l hl => ?_, fun l hl => ?_⟩
    · rcases hmem l hl with rfl | hl
      · rw [MergeRun.below, hfollows.dir]
        exact decide_eq_true rfl
      · exact htree.below l hl
    · rcases hmem l hl with rfl | hl
      · rintro (hnil | hdir)
        · exact absurd (show manifestName = [] from hnil) (by decide)
        · rw [SplitRun.manifest, List.singleton_append, hfollows.isDir, h.file] at hdir
          exact absurd hdir (by simp)
      · exact htree.writable l hl
  have hsmall : isLarge t₁ m.manifest = false := by
    rw [hmanifest, hlarge, isLarge, AList.lookup_eq_none.mpr hfresh]
  have hcovers : Covers m.sha256 (m.entries t₁) t₁ := by
    rw [MergeRun.entries, hmanifest, hpresent]
    exact h.covers.add hfresh h.short underscore_notMem_manifestName hlookup h.apart
  obtain ⟨hstatus, hfiles⟩ := hwhole.mergeFiles htree₁ hmergeable hmerge
    (hmanifest ▸ mem_of_lookup hpresent) hsmall hcovers
  exact ⟨hstatus, fun l => (hfiles l).trans (hlookup l)⟩

/-- **Entries in the manifest**: every file that it covers has one, if lines can name the files. -/
theorem SplitRun.Succeeds.entries {dir : Bytes} {f : Place UInt8} {c : Bytes}
    (hsplit : run.Succeeds sha256 t) (hdigest : ∀ c, IsDigest (sha256 c))
    (hlines : ∀ l ∈ t, isHashed l = true → HasLine dir l) (hf : isHashed f = true)
    (hc : t.lookup f = some c) :
    expectedDigest (manifestEntries run.hashes) f = some (sha256 c) := by
  obtain ⟨order, -, horder, hhashes⟩ := hsplit.hashes
  have hall : ∀ l ∈ order, HasLine dir l := fun l hl =>
    hlines l ((horder l).mp hl).1 ((horder l).mp hl).2
  rw [hhashes]
  exact expectedDigest_manifest hdigest hall ((horder f).mpr ⟨mem_of_lookup hc, hf⟩) hc

end RoundTrip

/-! ### A large file by itself -/

section Lone

open SplitRun

/-- The digest of as many zeros as are in a sole file. -/
def digestOfZeros : Str :=
  ['0', 'c', '2', '7', '2', '5', 'e', '0', 'd', '4', 'a', 'e', '4', 'a', 'e', '6'] ++
  ['6', '9', 'b', 'd', 'd', '6', 'c', '8', '8', 'b', '2', '5', '3', '9', '9', '7'] ++
  ['1', '9', '8', 'e', 'f', 'b', '6', '7', 'd', '9', '6', '2', 'd', '2', '1', '7'] ++
  ['c', '5', '2', 'e', '6', 'c', 'b', 'f', 'd', '3', '1', '8', 'f', 'e', '0', 'c']

/-- `d/a`, without a manifest. -/
def loneTree : Tree UInt8 UInt8 := writeAll ∅ [(soleFile, soleContents)]

/-- A run of `merge_files` without errors. -/
def loneMerge : MergeRun where
  dir := [100]
  python := true
  sha256 := fun _ => digestOfZeros
  isDir := fun dir => dir = [[100]]
  cut := fun _ => none
  unreadable := fun _ => false
  undeletable := fun _ => false
  batches := [[gnuSplit.piece soleFile 0]]

/-- A run of `split_files` before it. -/
def loneRun : SplitRun :=
  { SplitRun.soleRun ⟨splitThreshold + 1, false⟩ with
    hashes := manifestLine loneMerge.sha256 loneTree soleFile }

/-- The only file of the tree is the large one. -/
theorem mem_loneTree {l : Place UInt8} : l ∈ loneTree ↔ l = soleFile := by
  rw [loneTree, mem_writeAll, or_iff_right (AList.notMem_empty _)]
  simp

/-- What the large file holds. -/
theorem lookup_loneTree : loneTree.lookup soleFile = some soleContents :=
  lookup_writeAll (by simp) (by simp)

/-- The only file is the large one. -/
theorem eq_of_isLarge_loneTree {l : Place UInt8} (h : isLarge loneTree l = true) : l = soleFile :=
  mem_loneTree.mp (mem_of_isLarge h)

/-- The split does without an error. -/
theorem loneRun_succeeds : loneRun.Succeeds loneMerge.sha256 loneTree := by
  refine ⟨rfl, rfl, rfl, rfl, ⟨[soleFile], List.nodup_singleton _, fun l => ?_, ?_⟩, fun f hf => ?_,
    fun v hv c hc => ?_, fun v hv => ?_⟩
  · rw [List.mem_singleton, mem_loneTree]
    exact ⟨fun hl => ⟨hl, hl ▸ by decide⟩, And.left⟩
  · rw [List.flatMap_singleton]
    rfl
  · exact ⟨_, List.mem_singleton.mpr rfl, (eq_of_isLarge_loneTree hf).symm⟩
  · obtain rfl := List.mem_singleton.mp hv
    obtain rfl := Option.some.inj (lookup_loneTree.symm.trans hc)
    exact ⟨SplitRun.length_soleContents.le, rfl⟩
  · obtain rfl := List.mem_singleton.mp hv
    rfl

/-- Two letters are enough for the pieces of a sole file. -/
theorem length_wholePieces_soleContents :
    (wholePieces soleContents).length ≤ gnuSplit.letters := by
  rw [wholePieces, Slices.length_chunks, Slices.chunkCount, length_soleContents]
  decide

/-- Nothing is in the way of merging it. -/
theorem loneTree_mergeable : Mergeable gnuSplit loneMerge loneTree := by
  refine Mergeable.of_plain (fun l hl => ?_) (fun f hf => ?_) fun f c hf hc => ?_
  · rw [mem_loneTree.mp hl]
    decide
  · rw [eq_of_isLarge_loneTree hf]
    decide
  · rw [eq_of_isLarge_loneTree hf] at hc
    obtain rfl := Option.some.inj (lookup_loneTree.symm.trans hc)
    exact length_wholePieces_soleContents

/-- The digest of the large file is one. -/
theorem isDigest_digestOfZeros : IsDigest digestOfZeros :=
  IsDigest.of_all (by decide) (by decide)

/-- The line of the large file in the manifest is read. -/
theorem hasLine_soleFile : HasLine [100] soleFile :=
  HasLine.of_encode ⟨[], rfl, by decide⟩ (show _ = Utf8.encode ['d', '/', 'a'] by decide)
    (IsPlain.of_ends rfl rfl (by decide) (by decide) (by decide) (by decide))

/-- Nothing is in the way of restoring it. -/
theorem loneTree_restorable : Restorable loneRun loneMerge loneTree := by
  have hnone : ∀ l ∈ loneTree, ¬isFirstChunk l.base = true := fun l hl => by
    rw [mem_loneTree.mp hl]
    decide
  refine ⟨loneTree_mergeable, ⟨fun l hl hfirst => absurd hfirst (hnone l hl),
    fun f c hf hc => Or.inl ?_⟩, fun l hl hfirst => absurd hfirst (hnone l hl), fun h => ?_, rfl,
    ?_⟩
  · have hlines : ∀ l ∈ loneTree, isHashed l = true → HasLine [100] l := fun l hl _ =>
      mem_loneTree.mp hl ▸ hasLine_soleFile
    refine loneRun_succeeds.entries (fun _ => isDigest_digestOfZeros) hlines ?_ hc
    rw [eq_of_isLarge_loneTree hf]
    decide
  · exact absurd (congrArg Place.base (mem_loneTree.mp h)) (by decide)
  · rw [loneRun, manifestLine]
    decide

/-- The merge of its pieces does without an error. -/
theorem loneMerge_succeeds : loneMerge.Succeeds (loneRun.splitFiles loneTree).1 := by
  have hfresh : loneRun.manifest ∉ loneTree := fun h =>
    absurd (congrArg Place.base (mem_loneTree.mp h)) (by decide)
  have hsplit := loneRun_succeeds.isSplit hfresh loneTree_restorable
  obtain ⟨-, hlarge⟩ := loneTree_restorable.mergeable_writeManifest loneRun_succeeds hfresh
  have hlookup := lookup_writeManifest_of_succeeds loneRun_succeeds hfresh
    loneTree_restorable.free rfl
  refine ⟨rfl, fun _ => rfl, fun _ => rfl, fun _ => rfl, List.nodup_singleton _,
    fun l hl _ hfirst => List.mem_singleton.mpr ?_⟩
  rcases hsplit.mem_cases hl with hmem | ⟨f, hf, i, rfl⟩
  · rw [← AList.lookup_isSome, hlookup] at hmem
    split at hmem
    · rename_i hl
      rw [hl] at hfirst
      exact absurd hfirst (by decide)
    · rw [mem_loneTree.mp (AList.lookup_isSome.mp hmem)] at hfirst
      exact absurd hfirst (by decide)
  · rw [hlarge] at hf
    rw [eq_zero_of_isFirstChunk_piece hfirst, eq_of_isLarge_loneTree hf]
    rfl

/-- A large file by itself comes back. -/
theorem split_merge_loneTree : RestoresTree loneRun loneMerge loneTree := by
  refine split_merge loneRun loneMerge loneTree (fun h => ?_) ⟨fun l hl => ?_, fun l hl => ?_⟩
    loneRun_succeeds ⟨rfl, rfl⟩ loneMerge_succeeds loneTree_restorable
  · exact absurd (congrArg Place.base (mem_loneTree.mp h)) (by decide)
  · rw [mem_loneTree.mp hl]
    rfl
  · rw [mem_loneTree.mp hl]
    decide

end Lone

/-! ### A file that is named like a first piece -/

/-- `d/a_chunk_aa`, without `d/a`. -/
def strayFile : Place UInt8 := ⟨[[100]], [97] ++ chunkInfix ++ [97, 97]⟩

/-- The tree with a small file that is called like a piece. -/
def strayTree : Tree UInt8 UInt8 := writeAll ∅ [(strayFile, [1])]

/-- A run of `merge_files` without errors. -/
def strayMerge : MergeRun := { MergeRun.notesRun with batches := [[strayFile]] }

/-- A run of `split_files` before it: there is nothing to split. -/
def strayRun : SplitRun where
  dir := [100]
  tool := gnuSplit
  hashCommand := true
  pid := 1
  tmpCreated := true
  hashes := manifestLine strayMerge.sha256 strayTree strayFile
  hashed := true
  tmpRemoved := true
  manifestIsDir := false
  moved := true
  batches := []
  nodup := List.nodup_nil

/-- The only file of the tree is the small one. -/
theorem mem_strayTree {l : Place UInt8} : l ∈ strayTree ↔ l = strayFile := by
  rw [strayTree, mem_writeAll, or_iff_right (AList.notMem_empty _)]
  simp

/-- What the small file holds. -/
theorem lookup_strayTree : strayTree.lookup strayFile = some [1] :=
  lookup_writeAll (by simp) (by simp)

/-- The split does without an error, and has nothing to split. -/
theorem strayRun_succeeds : strayRun.Succeeds strayMerge.sha256 strayTree := by
  refine ⟨rfl, rfl, rfl, rfl, ⟨[strayFile], List.nodup_singleton _, fun l => ?_, ?_⟩,
    fun f hf => ?_, fun v hv => absurd hv List.not_mem_nil, fun v hv => absurd hv List.not_mem_nil⟩
  · rw [List.mem_singleton, mem_strayTree]
    exact ⟨fun hl => ⟨hl, hl ▸ by decide⟩, And.left⟩
  · rw [List.flatMap_singleton]
    rfl
  · obtain ⟨c, hc, hlen⟩ := isLarge_iff.mp hf
    obtain rfl := mem_strayTree.mp (mem_of_lookup hc)
    obtain rfl := Option.some.inj (lookup_strayTree.symm.trans hc)
    exact absurd hlen (by decide)

/-- **A file that is named like a first piece** is merged into one that was not there before. -/
theorem not_split_merge_stray : ¬∀ (run : SplitRun) (m : MergeRun) (t : Tree UInt8 UInt8),
    run.manifest ∉ t → m.IsTree t → run.Succeeds m.sha256 t → m.Follows run →
      m.Succeeds (run.splitFiles t).1 → RestoresTree run m t := by
  intro h
  have hmembers : ∀ l ∈ (strayRun.splitFiles strayTree).1.keys,
      strayMerge.below l = true → isFirstChunk l.base = true →
        l ∈ strayMerge.batches.flatten := by
    decide
  have hback := h strayRun strayMerge strayTree
    (fun h => absurd (congrArg Place.base (mem_strayTree.mp h)) (by decide))
    ⟨fun l hl => by rw [mem_strayTree.mp hl]; rfl,
      fun l hl => by rw [mem_strayTree.mp hl]; decide⟩
    strayRun_succeeds ⟨rfl, rfl⟩
    ⟨rfl, fun _ => rfl, fun _ => rfl, fun _ => rfl, List.nodup_singleton _,
      fun l hl => hmembers l (AList.mem_keys.mp hl)⟩
  have hnew : (strayMerge.mergeFiles (strayRun.splitFiles strayTree).1).1.files.lookup
      ⟨[[100]], [97]⟩ = some [1] := by
    decide +kernel
  rw [hback.2, if_neg (by decide)] at hnew
  have hmem := mem_strayTree.mp (mem_of_lookup hnew)
  exact absurd (congrArg Place.base hmem) (by decide)

end DataDiode
