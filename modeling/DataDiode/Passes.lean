import DataDiode.SplitMerge

/-!
# Several Passes of `split_files`

`split_files` can be stopped at any time and run again. The manifest of the first pass stays as it
is, so it has the digests of the whole files. A file that was being split is split once more, over
the pieces that are there already; a file that is gone has all its pieces. `PartSplit` describes the
trees in between: a pass keeps it, as long as `split` opens no piece that the file has no bytes for
and no file is removed before all of it has been split (`SplitVisit.Careful`).

## Main results

* `PartSplit.splitOne`, `PartSplit.findExec`: one file, one pass.
* `PartSplit.isSplit_splitFiles`: a pass that gets to the end leaves a split tree.
* `isSplit_splitPasses`: several passes, of which the last gets to the end.
* `split_passes_merge`: passes that were stopped, one that was not, and `merge_files`.
-/

namespace DataDiode

open Files

/-! ### The trees in between -/

/-- A large file in between: it is whole, and in the places of its pieces there is nothing large,
and nothing past its end; or it is gone, and its pieces are there. -/
def Underway (tool : Splitter) (t' : Tree UInt8 UInt8) (f : Place UInt8) (c : Bytes) : Prop :=
  t'.lookup f = some c ∧ (∀ i piece, t'.lookup (tool.piece f i) = some piece →
      i < (wholePieces c).length ∧ piece.length ≤ splitThreshold) ∨
    t'.lookup f = none ∧ ∀ i, t'.lookup (tool.piece f i) = (wholePieces c)[i]?

/-- **A tree that is being split**: small files are as they were, and large files are underway. -/
structure PartSplit (tool : Splitter) (t t' : Tree UInt8 UInt8) : Prop where
  small : ∀ l ∈ t, isLarge t l = false → t'.lookup l = t.lookup l
  large : ∀ f c, isLarge t f = true → t.lookup f = some c → Underway tool t' f c
  other : ∀ l, l ∉ t → (∀ f, isLarge t f = true → ∀ i, l ≠ tool.piece f i) → t'.lookup l = none

/-- A visit that loses nothing: `split` opens no piece that the file has no bytes for, and the file
is removed only if all of it has been split. -/
def SplitVisit.Careful (v : SplitVisit) (c : Bytes) : Prop :=
  (splitPieces c v.split).length ≤ (wholePieces c).length ∧
    (v.removed = true → c.length ≤ v.split.bytes)

/-- A file that is removed with care has been split to its end. -/
theorem SplitVisit.Careful.splitPieces_eq {v : SplitVisit} {c : Bytes} (h : v.Careful c)
    (hremoved : v.removed = true) : splitPieces c v.split = wholePieces c := by
  refine splitPieces_whole (h.2 hremoved) ?_
  have hlen := h.1
  rw [splitPieces, wholePieces, List.take_of_length_le (h.2 hremoved), List.length_append] at hlen
  by_contra hopened
  rw [if_pos (by simpa using hopened), List.length_singleton] at hlen
  omega

/-- What is in the place of a piece after a file has been split. -/
theorem lookup_writes_piece (tool : Splitter) (t : Tree UInt8 UInt8) (f : Place UInt8) (c : Bytes)
    (o : SplitOutcome) (i : ℕ) :
    (writeAll t (tool.writes f c o)).lookup (tool.piece f i) =
      ((splitPieces c o)[i]?).or (t.lookup (tool.piece f i)) := by
  rcases Nat.lt_or_ge i (splitPieces c o).length with hi | hi
  · rw [List.getElem?_eq_getElem hi, Option.some_or]
    exact lookup_writeAll Splitter.nodup_writes (List.mem_mapIdx.mpr ⟨i, hi, rfl⟩)
  · rw [List.getElem?_eq_none hi, Option.none_or]
    refine lookup_writeAll_of_notMem fun hmem => ?_
    rw [Splitter.map_fst_writes] at hmem
    obtain ⟨j, hj, heq⟩ := List.mem_map.mp hmem
    obtain rfl := tool.piece_injective f heq
    exact absurd (List.mem_range.mp hj) (not_lt.mpr hi)

namespace PartSplit

variable {tool : Splitter} {t t' : Tree UInt8 UInt8} {v : SplitVisit} {c : Bytes}

/-- A tree that no pass has come by. -/
theorem refl (hspaced : Spaced tool t) : PartSplit tool t t where
  small _ _ _ := rfl
  large f _ hf hc := Or.inl ⟨hc, fun i _ hpiece => absurd rfl
    (hspaced.free f _ hf (AList.lookup_isSome.mp (Option.isSome_of_eq_some hpiece)) i)⟩
  other _ hl _ := AList.lookup_eq_none.mpr hl

/-- What is large now is a large file of the tree, and whole. -/
theorem of_isLarge (h : PartSplit tool t t') {l : Place UInt8} (hl : isLarge t' l = true) :
    isLarge t l = true ∧ t'.lookup l = t.lookup l := by
  obtain ⟨c, hc, hlen⟩ := isLarge_iff.mp hl
  by_cases hmem : l ∈ t
  · cases hlarge : isLarge t l with
    | false =>
        rw [isLarge_congr (h.small l hmem hlarge), hlarge] at hl
        exact absurd hl (by simp)
    | true =>
        obtain ⟨c', hc', -⟩ := isLarge_iff.mp hlarge
        rcases h.large l c' hlarge hc' with ⟨hwhole, -⟩ | ⟨hgone, -⟩
        · exact ⟨rfl, hwhole.trans hc'.symm⟩
        · exact absurd (hgone.symm.trans hc) (by simp)
  · exfalso
    by_cases hpiece : ∃ f, isLarge t f = true ∧ ∃ i, l = tool.piece f i
    · obtain ⟨f, hf, i, rfl⟩ := hpiece
      obtain ⟨c', hc', -⟩ := isLarge_iff.mp hf
      rcases h.large f c' hf hc' with ⟨-, hpieces⟩ | ⟨-, hpieces⟩
      · exact absurd hlen (not_lt.mpr (hpieces i c hc).2)
      · have hmem := List.mem_of_getElem? ((hpieces i).symm.trans hc)
        exact absurd hlen (not_lt.mpr (Slices.length_of_mem_chunks (by decide) hmem).2)
    · have hnone := h.other l hmem fun f hf i hi => hpiece ⟨f, hf, i, hi⟩
      exact absurd (hnone.symm.trans hc) (by simp)

/-- **One file** is split, or partly split. -/
theorem splitOne (h : PartSplit tool t t') (hspaced : Spaced tool t)
    (hlarge : isLarge t v.place = true) (hc : t'.lookup v.place = some c) (hv : v.Careful c) :
    PartSplit tool t (splitOne tool t' v) := by
  obtain ⟨c', hc', -⟩ := isLarge_iff.mp hlarge
  have hunderway := h.large v.place c' hlarge hc'
  obtain ⟨hwhole, hpieces⟩ := hunderway.resolve_right fun hgone => by simp [hgone.1] at hc
  obtain rfl : c' = c := Option.some.inj (hwhole.symm.trans hc)
  refine ⟨fun l hl hsmall => ?_, fun f d hf hd => ?_, fun l hl hother => ?_⟩
  · rw [lookup_splitOne_of_not_owns, h.small l hl hsmall]
    intro howns
    obtain rfl := hspaced.eq_of_owns hlarge hl howns
    exact absurd (hlarge.symm.trans hsmall) (by simp)
  · by_cases hfv : f = v.place
    · subst hfv
      obtain rfl : c' = d := Option.some.inj (hc'.symm.trans hd)
      have hne : ∀ i, tool.piece v.place i ≠ v.place := tool.piece_ne v.place
      rw [DataDiode.splitOne, hc]
      dsimp only
      cases hremoved : v.removed with
      | true =>
          refine Or.inr ⟨by rw [if_pos rfl, AList.lookup_erase], fun i => ?_⟩
          rw [if_pos rfl, AList.lookup_erase_ne (hne i), lookup_writes_piece,
            hv.splitPieces_eq hremoved]
          rcases hpiece : t'.lookup (tool.piece v.place i) with _ | piece
          · rw [Option.or_none]
          · rw [List.getElem?_eq_getElem (hpieces i piece hpiece).1, Option.some_or]
      | false =>
          rw [if_neg (by simp)]
          refine Or.inl ⟨by rw [lookup_writeAll_of_notMem Splitter.notMem_writes, hc],
            fun i piece hpiece => ?_⟩
          rw [lookup_writes_piece] at hpiece
          rcases Option.or_eq_some_iff.mp hpiece with hnew | ⟨-, hold⟩
          · obtain ⟨hi, -⟩ := List.getElem?_eq_some_iff.mp hnew
            exact ⟨hi.trans_le hv.1, length_of_mem_splitPieces (List.mem_of_getElem? hnew)⟩
          · exact hpieces i piece hold
    · have hapart : ∀ l, tool.Owns f l → (DataDiode.splitOne tool t' v).lookup l = t'.lookup l :=
        fun l hl => lookup_splitOne_of_not_owns fun hl' =>
          hfv (hspaced.eq_of_owns_owns hf hlarge hl hl')
      rw [Underway, hapart f (Or.inl rfl)]
      simp only [hapart _ (Or.inr ⟨_, rfl⟩)]
      exact h.large f d hf hd
  · rw [lookup_splitOne_of_not_owns, h.other l hl hother]
    rintro (rfl | ⟨i, hi⟩)
    · exact hl (mem_of_isLarge hlarge)
    · exact hother v.place hlarge i hi

/-- A tree without its large files is split. -/
theorem isSplit (h : PartSplit tool t t') (hgone : ∀ f, isLarge t f = true → t'.lookup f = none) :
    IsSplit tool t t' where
  small := h.small
  gone := hgone
  piece f c hf hc := ((h.large f c hf hc).resolve_left fun hwhole => by
    simp [hgone f hf] at hwhole).2
  other := h.other

end PartSplit

/-! ### One pass -/

/-- In the middle of a pass over the tree `t'`: files that it has not come by are as large as they
were, and the large files that are gone were gone before, or have been removed. -/
structure Passing (tool : Splitter) (t t' : Tree UInt8 UInt8) (seen : List SplitVisit)
    (s : Tree UInt8 UInt8) : Prop where
  parts : PartSplit tool t s
  ahead : ∀ l, l ∉ seen.map SplitVisit.place → isLarge s l = isLarge t' l
  gone : ∀ f, isLarge t f = true →
    (s.lookup f = none ↔ t'.lookup f = none ∨ ∃ v ∈ seen, v.place = f ∧ v.removed = true)

namespace Passing

variable {tool : Splitter} {t t' s : Tree UInt8 UInt8} {seen : List SplitVisit} {v : SplitVisit}

/-- A file that is not large any more is passed over. -/
theorem pass (h : Passing tool t t' seen s) (hfresh : v.place ∉ seen.map SplitVisit.place)
    (hv : isLarge t' v.place = false) : Passing tool t t' (seen ++ [v]) s := by
  refine ⟨h.parts, fun l hl => h.ahead l fun hmem => hl ?_, fun f hf => ?_⟩
  · rw [List.map_append]
    exact List.mem_append_left _ hmem
  · rw [h.gone f hf]
    refine ⟨fun hgone => hgone.imp_right fun hw => ?_, fun hgone => ?_⟩
    · obtain ⟨w, hw, hplace⟩ := hw
      exact ⟨w, List.mem_append_left _ hw, hplace⟩
    · rcases hgone with hgone | ⟨w, hw, rfl, hremoved⟩
      · exact Or.inl hgone
      rcases List.mem_append.mp hw with hw | hw
      · exact Or.inr ⟨w, hw, rfl, hremoved⟩
      · -- a large file that is not large any more is gone
        obtain rfl := List.mem_singleton.mp hw
        obtain ⟨c, hc, hlen⟩ := isLarge_iff.mp hf
        have hsmall := (h.ahead w.place hfresh).trans hv
        rcases h.parts.large w.place c hf hc with ⟨hwhole, -⟩ | ⟨hnone, -⟩
        · rw [isLarge, hwhole] at hsmall
          exact absurd hlen (of_decide_eq_false hsmall)
        · exact (h.gone w.place hf).mp hnone

/-- A large file is split. -/
theorem splitOne (h : Passing tool t t' seen s) (hspaced : Spaced tool t)
    (hfresh : v.place ∉ seen.map SplitVisit.place) (hv : isLarge t' v.place = true)
    (hcareful : ∀ c, t.lookup v.place = some c → splitThreshold < c.length → v.Careful c) :
    Passing tool t t' (seen ++ [v]) (splitOne tool s v) := by
  have hlarge := (h.ahead v.place hfresh).trans hv
  obtain ⟨hlarge₀, hsame⟩ := h.parts.of_isLarge hlarge
  obtain ⟨c, hc, hlen⟩ := isLarge_iff.mp hlarge
  have hparts := h.parts.splitOne hspaced hlarge₀ hc (hcareful c (hsame.symm.trans hc) hlen)
  refine ⟨hparts, fun l hl => ?_, fun f hf => ?_⟩
  · rw [List.map_append, List.mem_append, List.map_singleton, List.mem_singleton, not_or] at hl
    rw [← h.ahead l hl.1]
    by_cases howns : tool.Owns v.place l
    · -- what is in the place of a piece is never large
      have hsmall : ∀ {s : Tree UInt8 UInt8}, PartSplit tool t s → isLarge s l = false := by
        intro s hs
        by_contra hl'
        have hmem := mem_of_isLarge (hs.of_isLarge (by simpa using hl')).1
        exact hl.2 (hspaced.eq_of_owns hlarge₀ hmem howns)
      rw [hsmall hparts, hsmall h.parts]
    · exact isLarge_congr (lookup_splitOne_of_not_owns howns)
  · by_cases hfv : f = v.place
    · subst hfv
      have hpresent : ¬t'.lookup v.place = none := fun hnone => by
        rw [isLarge, hnone] at hv
        exact absurd hv (by simp)
      have hnew : (∃ w ∈ seen ++ [v], w.place = v.place ∧ w.removed = true) ↔
          v.removed = true := by
        constructor
        · rintro ⟨w, hw, hplace, hremoved⟩
          rcases List.mem_append.mp hw with hw | hw
          · exact absurd (List.mem_map.mpr ⟨w, hw, hplace⟩) hfresh
          · exact List.mem_singleton.mp hw ▸ hremoved
        · exact fun hremoved => ⟨v, by simp, rfl, hremoved⟩
      rw [hnew, or_iff_right hpresent, DataDiode.splitOne, hc]
      dsimp only
      cases v.removed with
      | true => simp
      | false => simp [lookup_writeAll_of_notMem Splitter.notMem_writes, hc]
    · rw [lookup_splitOne_of_not_owns, h.gone f hf]
      · refine or_congr_right ⟨fun hw => ?_, fun hw => ?_⟩
        · obtain ⟨w, hw, hplace⟩ := hw
          exact ⟨w, List.mem_append_left _ hw, hplace⟩
        · obtain ⟨w, hw, hplace, hremoved⟩ := hw
          rcases List.mem_append.mp hw with hw | hw
          · exact ⟨w, hw, hplace, hremoved⟩
          · rw [List.mem_singleton.mp hw] at hplace
            exact absurd hplace.symm hfv
      · exact fun howns => hfv (hspaced.eq_of_owns hlarge₀ (mem_of_isLarge hf) howns)

end Passing

/-- **One pass** over a tree that is being split. -/
theorem PartSplit.findExec {tool : Splitter} {t t' : Tree UInt8 UInt8} (h : PartSplit tool t t')
    (hspaced : Spaced tool t) {batches : List (List SplitVisit)}
    (hnodup : (batches.flatten.map SplitVisit.place).Nodup)
    (hcareful : ∀ v ∈ batches.flatten, ∀ c, t.lookup v.place = some c →
      splitThreshold < c.length → v.Careful c) :
    Passing tool t t' batches.flatten
      (Files.findExec (fun t v => isLarge t v.place) (DataDiode.splitOne tool) t' batches) := by
  have hfresh : ∀ (seen : List SplitVisit) (v : SplitVisit), (∀ w ∈ seen, w ∈ batches.flatten) →
      v ∈ batches.flatten → v ∉ seen → v.place ∉ seen.map SplitVisit.place := by
    intro seen v hseen hv hnot hmem
    obtain ⟨w, hw, hplace⟩ := List.mem_map.mp hmem
    exact hnot (List.inj_on_of_nodup_map hnodup (hseen w hw) hv hplace ▸ hw)
  have hsnoc : ∀ (seen : List SplitVisit) (v : SplitVisit), (∀ w ∈ seen, w ∈ batches.flatten) →
      v ∈ batches.flatten → ∀ w ∈ seen ++ [v], w ∈ batches.flatten := by
    intro seen v hseen hv w hw
    rcases List.mem_append.mp hw with hw | hw
    · exact hseen w hw
    · exact List.mem_singleton.mp hw ▸ hv
  have hinit : (∀ w ∈ ([] : List SplitVisit), w ∈ batches.flatten) ∧ Passing tool t t' [] t' :=
    ⟨by simp, h, fun _ _ => rfl, by simp⟩
  exact (findExec_invariant
    (fun seen s => (∀ w ∈ seen, w ∈ batches.flatten) ∧ Passing tool t t' seen s)
    (fun v => isLarge t' v.place) (List.Nodup.of_map _ hnodup)
    (fun seen s v h hv hnot => Or.inl (h.2.ahead _ (hfresh seen v h.1 hv hnot)))
    (fun seen s v h hv hnot hsmall =>
      ⟨hsnoc seen v h.1 hv, h.2.pass (hfresh seen v h.1 hv hnot) hsmall⟩)
    (fun seen s v h hv hnot hlarge => ⟨hsnoc seen v h.1 hv,
      h.2.splitOne hspaced (hfresh seen v h.1 hv hnot) hlarge (hcareful v hv)⟩) hinit).2

/-! ### Several passes -/

/-- The trees after passes over a directory. -/
def splitPasses (passes : List SplitRun) (t : Tree UInt8 UInt8) : Tree UInt8 UInt8 :=
  passes.foldl (fun t run => (run.splitFiles t).1) t

/-- A pass over the directory `dir`, as far as it got, that loses nothing of a tree. -/
structure SplitRun.Safe (run : SplitRun) (dir : Bytes) (tool : Splitter) (t : Tree UInt8 UInt8) :
    Prop where
  dir : run.dir = dir
  tool : run.tool = tool
  hashCommand : run.hashCommand = true
  careful : ∀ v ∈ run.batches.flatten, ∀ c, t.lookup v.place = some c →
    splitThreshold < c.length → v.Careful c

section Passes

variable {dir : Bytes} {tool : Splitter} {t t' : Tree UInt8 UInt8} {run : SplitRun}

/-- A pass over a directory with a manifest. -/
theorem SplitRun.splitFiles_of_manifest (run : SplitRun) (hcommand : run.hashCommand = true)
    (hmanifest : run.manifest ∈ t') :
    (run.splitFiles t').1 =
      findExec (fun t v => isLarge t v.place) (splitOne run.tool) t' run.batches := by
  rw [SplitRun.splitFiles, hcommand, if_neg (by simp), SplitRun.writeManifest, if_pos hmanifest]

/-- A pass over a tree that is being split, with its manifest. -/
theorem PartSplit.splitFiles (h : PartSplit tool t t') (hspaced : Spaced tool t)
    (hsafe : run.Safe dir tool t) (hmanifest : ⟨[dir], manifestName⟩ ∈ t)
    (hsmall : isLarge t ⟨[dir], manifestName⟩ = false) :
    Passing tool t t' run.batches.flatten (run.splitFiles t').1 := by
  have hpresent : run.manifest ∈ t' := by
    rw [SplitRun.manifest, hsafe.dir]
    exact (mem_of_lookup_eq (h.small _ hmanifest hsmall)).mpr hmanifest
  rw [run.splitFiles_of_manifest hsafe.hashCommand hpresent, hsafe.tool]
  exact h.findExec hspaced run.nodup hsafe.careful

/-- **Any number of passes**, each as far as it got. -/
theorem PartSplit.splitPasses (hspaced : Spaced tool t) (hmanifest : ⟨[dir], manifestName⟩ ∈ t)
    (hsmall : isLarge t ⟨[dir], manifestName⟩ = false) {passes : List SplitRun}
    (hsafe : ∀ run ∈ passes, run.Safe dir tool t) :
    ∀ {t' : Tree UInt8 UInt8}, PartSplit tool t t' → PartSplit tool t (splitPasses passes t') := by
  induction passes with
  | nil => exact fun h => h
  | cons run passes ih =>
      intro t' h
      exact ih (fun run' hrun' => hsafe run' (List.mem_cons_of_mem _ hrun'))
        (h.splitFiles hspaced (hsafe run List.mem_cons_self) hmanifest hsmall).parts

/-- **A pass that gets to the end** leaves a split tree. -/
theorem PartSplit.isSplit_splitFiles (h : PartSplit tool t t') (hspaced : Spaced tool t)
    (hsafe : run.Safe dir tool t) (hmanifest : ⟨[dir], manifestName⟩ ∈ t)
    (hsmall : isLarge t ⟨[dir], manifestName⟩ = false)
    (hend : ∀ f, isLarge t f = true → isLarge t' f = true →
      ∃ v ∈ run.batches.flatten, v.place = f ∧ v.removed = true) :
    IsSplit tool t (run.splitFiles t').1 := by
  have hpassing := h.splitFiles hspaced hsafe hmanifest hsmall
  refine hpassing.parts.isSplit fun f hf => (hpassing.gone f hf).mpr ?_
  obtain ⟨c, hc, hlen⟩ := isLarge_iff.mp hf
  rcases h.large f c hf hc with ⟨hwhole, -⟩ | ⟨hgone, -⟩
  · exact Or.inr (hend f hf (isLarge_iff.mpr ⟨c, hwhole, hlen⟩))
  · exact Or.inl hgone

end Passes

/-! ### The round trip -/

section RoundTrip

variable {run : SplitRun} {m : MergeRun} {t : Tree UInt8 UInt8}

/-- The tree with a manifest that was made and moved in place. -/
theorem lookup_writeManifest_of_moved (hcreated : run.tmpCreated = true)
    (hhashed : run.hashed = true) (hmoved : run.moved = true) (hfresh : run.manifest ∉ t)
    (hfree : run.tmpManifest ∉ t) (hfile : run.manifestIsDir = false) (l : Place UInt8) :
    (run.writeManifest t).1 = true ∧ (run.writeManifest t).2.lookup l =
      if l = run.manifest then some run.hashes else t.lookup l := by
  have htarget : run.target = run.manifest := by rw [SplitRun.target, hfile, if_neg (by simp)]
  rw [SplitRun.writeManifest, if_neg hfresh, hcreated, hhashed, hmoved, if_neg (by simp),
    if_neg (by simp), if_pos rfl, htarget]
  refine ⟨rfl, ?_⟩
  split
  · rename_i hl
    rw [hl]
    exact AList.lookup_insert _
  · rename_i hl
    refine (AList.lookup_insert_ne hl).trans ?_
    by_cases htmp : l = run.tmpManifest
    · rw [htmp, AList.lookup_erase, AList.lookup_eq_none.mpr hfree]
    · rw [AList.lookup_erase_ne htmp, AList.lookup_insert_ne htmp]

/-- The first pass, up to the manifest and behind it. -/
theorem SplitRun.splitFiles_writeManifest (run : SplitRun) (hcommand : run.hashCommand = true)
    (hgoes : (run.writeManifest t).1 = true) (hmanifest : run.manifest ∈ (run.writeManifest t).2) :
    (run.splitFiles t).1 = (run.splitFiles (run.writeManifest t).2).1 := by
  rw [run.splitFiles_of_manifest hcommand hmanifest, SplitRun.splitFiles, hcommand,
    if_neg (by simp)]
  generalize run.writeManifest t = step at hgoes
  obtain ⟨goes, t₁⟩ := step
  obtain rfl : goes = true := hgoes
  rfl

/-- The manifest is in the tree that is split, and what is large is as before. -/
theorem manifest_mem_of_lookup (hfresh : run.manifest ∉ t)
    (hshort : run.hashes.length ≤ splitThreshold)
    (hlookup : ∀ l, (run.writeManifest t).2.lookup l =
      if l = run.manifest then some run.hashes else t.lookup l) :
    run.manifest ∈ (run.writeManifest t).2 ∧ isLarge (run.writeManifest t).2 run.manifest = false ∧
      ∀ l, isLarge (run.writeManifest t).2 l = isLarge t l := by
  have hlarge : ∀ l, isLarge (run.writeManifest t).2 l = isLarge t l := by
    intro l
    by_cases hl : l = run.manifest
    · rw [hl, isLarge, isLarge, hlookup, if_pos rfl, AList.lookup_eq_none.mpr hfresh]
      exact decide_eq_false (not_lt.mpr hshort)
    · exact isLarge_congr (by rw [hlookup, if_neg hl])
  refine ⟨mem_of_lookup (by rw [hlookup, if_pos rfl]), ?_, hlarge⟩
  rw [hlarge, isLarge, AList.lookup_eq_none.mpr hfresh]

/-- **Several passes split the tree**: the first makes the manifest, all are stopped anywhere behind
it, and the last one gets to the end. -/
theorem isSplit_splitPasses {first last : SplitRun} {passes : List SplitRun}
    (hfresh : first.manifest ∉ t) (hshort : first.hashes.length ≤ splitThreshold)
    (hmade : ∀ l, (first.writeManifest t).1 = true ∧ (first.writeManifest t).2.lookup l =
      if l = first.manifest then some first.hashes else t.lookup l)
    (hspaced : Spaced first.tool (first.writeManifest t).2)
    (hsafe : ∀ run ∈ first :: passes ++ [last], run.Safe first.dir first.tool t)
    (hend : ∀ f, isLarge t f = true → isLarge (splitPasses (first :: passes) t) f = true →
      ∃ v ∈ last.batches.flatten, v.place = f ∧ v.removed = true) :
    IsSplit first.tool (first.writeManifest t).2 (splitPasses (first :: passes ++ [last]) t) := by
  obtain ⟨hmanifest, hsmall, hlarge⟩ :=
    manifest_mem_of_lookup hfresh hshort fun l => (hmade l).2
  have hsafe' : ∀ run ∈ first :: passes ++ [last],
      run.Safe first.dir first.tool (first.writeManifest t).2 := by
    refine fun run hrun => { hsafe run hrun with careful := fun v hv c hc hlen => ?_ }
    refine (hsafe run hrun).careful v hv c ?_ hlen
    rw [(hmade v.place).2] at hc
    split at hc
    · exact absurd hlen (not_lt.mpr (Option.some.inj hc ▸ hshort))
    · exact hc
  -- every pass finds the manifest
  have hstart : splitPasses (first :: passes) t =
      splitPasses (first :: passes) (first.writeManifest t).2 := by
    rw [splitPasses, splitPasses, List.foldl_cons, List.foldl_cons,
      first.splitFiles_writeManifest (hsafe first (by simp)).hashCommand (hmade first.manifest).1
        hmanifest]
  have hparts : PartSplit first.tool (first.writeManifest t).2
      (splitPasses (first :: passes) t) := by
    rw [hstart]
    exact PartSplit.splitPasses hspaced hmanifest hsmall
      (fun run hrun => hsafe' run (List.mem_append_left _ hrun)) (.refl hspaced)
  have hlast := hparts.isSplit_splitFiles hspaced (hsafe' last (by simp)) hmanifest
    hsmall fun f hf => hend f (hlarge f ▸ hf)
  rwa [splitPasses, List.foldl_append, List.foldl_cons, List.foldl_nil]

/-- **Splitting in several passes, and merging.** The first pass makes the manifest, and is stopped
anywhere behind it, as may be any number of passes after it. If no pass removes a file before it
has been split, and the last one gets to the end, then `merge_files` reports success and gives back
the tree, with the manifest of the first pass. -/
theorem split_passes_merge (first last : SplitRun) (passes : List SplitRun) (m : MergeRun)
    (t : Tree UInt8 UInt8) (hfresh : first.manifest ∉ t) (htree : m.IsTree t)
    (hfollows : m.Follows first) (h : Restorable first m t) (hcreated : first.tmpCreated = true)
    (hhashed : first.hashed = true) (hmoved : first.moved = true)
    (hsafe : ∀ run ∈ first :: passes ++ [last], run.Safe first.dir first.tool t)
    (hend : ∀ f, isLarge t f = true → isLarge (splitPasses (first :: passes) t) f = true →
      ∃ v ∈ last.batches.flatten, v.place = f ∧ v.removed = true)
    (hmerge : m.Succeeds (splitPasses (first :: passes ++ [last]) t)) :
    let merged := m.mergeFiles (splitPasses (first :: passes ++ [last]) t)
    merged.2 = 0 ∧ ∀ l, merged.1.files.lookup l =
      if l = first.manifest then some first.hashes else t.lookup l := by
  have hmade := lookup_writeManifest_of_moved hcreated hhashed hmoved hfresh h.free h.file
  have hlookup := fun l => (hmade l).2
  have hmergeable := h.mergeable.add hfresh h.short underscore_notMem_manifestName hlookup
  obtain ⟨hpresent, hsmall, -⟩ := manifest_mem_of_lookup hfresh h.short hlookup
  have hsplit := isSplit_splitPasses hfresh h.short hmade hmergeable.spaced hsafe hend
  have hmanifest : m.manifest = first.manifest := by
    rw [MergeRun.manifest, SplitRun.manifest, hfollows.dir]
  set t₁ := (first.writeManifest t).2 with ht₁
  have hsame : ∀ l, l ≠ first.manifest → t₁.lookup l = t.lookup l := fun l hl => by
    rw [hlookup, if_neg hl]
  have hmem : ∀ l ∈ t₁, l = first.manifest ∨ l ∈ t := fun l hl =>
    (em (l = first.manifest)).imp_right fun hne => (mem_of_lookup_eq (hsame l hne)).mp hl
  have htree₁ : m.IsTree t₁ := by
    refine ⟨fun l hl => ?_, fun l hl => ?_⟩
    · rcases hmem l hl with rfl | hl
      · rw [MergeRun.below, hfollows.dir]
        exact decide_eq_true rfl
      · exact htree.below l hl
    · rcases hmem l hl with rfl | hl
      · rintro (hnil | hdir)
        · exact absurd (show manifestName = [] from hnil) (by decide)
        · rw [SplitRun.manifest, List.singleton_append, hfollows.isDir, h.file] at hdir
          exact absurd hdir (by simp)
      · exact htree.writable l hl
  have hcovers : Covers m.sha256 (m.entries t₁) t₁ := by
    rw [MergeRun.entries, hmanifest, hlookup, if_pos rfl]
    exact h.covers.add hfresh h.short underscore_notMem_manifestName hlookup h.apart
  obtain ⟨hstatus, hfiles⟩ := hsplit.mergeFiles htree₁ hmergeable hmerge (hmanifest ▸ hpresent)
    (hmanifest ▸ hsmall) hcovers
  exact ⟨hstatus, fun l => (hfiles l).trans (hlookup l)⟩

end RoundTrip

/-! ### A pass that is stopped -/

section Stopped

open SplitRun

/-- A visit that is stopped while `split` writes. -/
theorem SplitVisit.Careful.of_not_opened {v : SplitVisit} {c : Bytes}
    (hopened : v.split.opened = false)
    (hremoved : v.removed = true → c.length ≤ v.split.bytes) : v.Careful c := by
  refine ⟨?_, hremoved⟩
  rw [splitPieces, hopened, if_neg (by simp), List.append_nil, wholePieces, Slices.length_chunks,
    Slices.length_chunks, Slices.chunkCount, Slices.chunkCount, List.length_take]
  exact Nat.div_le_div_right (by omega)

/-- `split_files` is stopped when `split` has written one byte. -/
def stoppedRun : SplitRun :=
  { loneRun with
    batches := [[⟨soleFile, ⟨1, false⟩, false⟩]]
    nodup := List.nodup_singleton _ }

/-- Both runs keep the rules. -/
theorem stoppedRun_safe : ∀ run ∈ stoppedRun :: [] ++ [loneRun],
    run.Safe stoppedRun.dir stoppedRun.tool loneTree := by
  refine List.forall_mem_cons.mpr ⟨⟨rfl, rfl, rfl, fun v hv c _ _ => ?_⟩,
    List.forall_mem_singleton.mpr ⟨rfl, rfl, rfl, fun v hv c hc _ => ?_⟩⟩
  · obtain rfl := List.mem_singleton.mp hv
    exact .of_not_opened rfl (by simp)
  · obtain rfl := List.mem_singleton.mp hv
    obtain rfl := Option.some.inj (lookup_loneTree.symm.trans hc)
    exact .of_not_opened rfl fun _ => SplitRun.length_soleContents.le

/-- It is run again, and the file comes back. -/
theorem split_passes_merge_stopped :
    let merged := loneMerge.mergeFiles (splitPasses (stoppedRun :: [] ++ [loneRun]) loneTree)
    merged.2 = 0 ∧ ∀ l, merged.1.files.lookup l =
      if l = stoppedRun.manifest then some stoppedRun.hashes else loneTree.lookup l := by
  have hfresh : stoppedRun.manifest ∉ loneTree := fun h =>
    absurd (congrArg Place.base (mem_loneTree.mp h)) (by decide)
  have hrestorable : Restorable stoppedRun loneMerge loneTree :=
    { loneTree_restorable with }
  have hend : ∀ f, isLarge loneTree f = true →
      isLarge (splitPasses [stoppedRun] loneTree) f = true →
        ∃ v ∈ loneRun.batches.flatten, v.place = f ∧ v.removed = true :=
    fun f hf _ => ⟨_, List.mem_singleton.mpr rfl, (eq_of_isLarge_loneTree hf).symm, rfl⟩
  have hmade := lookup_writeManifest_of_moved rfl rfl rfl hfresh hrestorable.free rfl
  have hlookup := fun l => (hmade l).2
  have hmergeable := hrestorable.mergeable.add hfresh hrestorable.short
    underscore_notMem_manifestName hlookup
  have hlarge := isLarge_add hfresh hrestorable.short hlookup
  have hsplit := isSplit_splitPasses hfresh hrestorable.short hmade hmergeable.spaced
    stoppedRun_safe hend
  refine split_passes_merge stoppedRun loneRun [] loneMerge loneTree hfresh
    ⟨fun l hl => ?_, fun l hl => ?_⟩ ⟨rfl, rfl⟩ hrestorable rfl rfl rfl stoppedRun_safe hend
    ⟨rfl, fun _ => rfl, fun _ => rfl, fun _ => rfl, List.nodup_singleton _,
      fun l hl _ hfirst => List.mem_singleton.mpr ?_⟩
  · rw [mem_loneTree.mp hl]
    rfl
  · rw [mem_loneTree.mp hl]
    decide
  · rcases hsplit.mem_cases hl with hmem | ⟨f, hf, i, rfl⟩
    · rw [← AList.lookup_isSome, hlookup] at hmem
      split at hmem
      · rename_i hl
        rw [hl] at hfirst
        exact absurd hfirst (by decide)
      · rw [mem_loneTree.mp (AList.lookup_isSome.mp hmem)] at hfirst
        exact absurd hfirst (by decide)
    · rw [hlarge] at hf
      rw [eq_zero_of_isFirstChunk_piece hfirst, eq_of_isLarge_loneTree hf]
      rfl

end Stopped

end DataDiode
