import DataDiode.Buffers
import DataDiode.Delivery
import DataDiode.Outcome

/-!
# What Is Written, and Where

A batch has a slice of the file: `batchOffset` to `batchLimit`. Finalizing the batch seeks to the
front of its slice and writes chunk after chunk. If it succeeds, the writes tile the slice; if it
fails, whether for a missing chunk or in the middle of a write, what has been written lies inside
the slice. So the file under reception keeps the length it was given when it was opened, and has
it when it is delivered.

Within one transfer no batch is finalized a second time: the batches of all calls, failed ones
included, are strictly increasing.

## Main results

* `writeChunks_patched`, `finalizeCurrentBatch_finalizes`: the calls made for a batch, and what
  they change.
* `writeBatch_holdsBatch`: after success the slice holds the chunks, buffered or restored.
* `Worker.Sized.run`: in every run the file under reception has its announced length.
* `run_writes_slices`: **slices, lengths and batches**, in every run.
-/

namespace DataDiode

open UnixPath World

/-! ### Writes in a row -/

/-- Writes of the given lengths, one behind the other. -/
def writesFrom (path : Path) : ℕ → List ℕ → List FsCall
  | _, [] => []
  | pos, len :: lens => .write path pos len :: writesFrom path (pos + len) lens

/-- From `t` to `t'`, the file changed between the positions `lo` and `hi` only, and nothing else
did. -/
structure Patched (env : Env) (path : Path) (lo hi : ℕ) (t t' : Tree) : Prop where
  others : ∀ l, l ≠ env.locate path → t'.node l = t.node l
  file : ∀ d, t.contents (env.locate path) = some d → hi ≤ d.length →
    ∃ d', t'.contents (env.locate path) = some d' ∧ Slices.Patch lo hi d d'

namespace Patched

variable {env : Env} {path : Path} {lo hi : ℕ} {t t' t'' : Tree}

/-- Nothing is patched. -/
theorem refl (env : Env) (path : Path) (lo hi : ℕ) (t : Tree) : Patched env path lo hi t t :=
  ⟨fun _ _ => rfl, fun d hd _ => ⟨d, hd, .refl _ _ d⟩⟩

/-- A wider range. -/
theorem mono (h : Patched env path lo hi t t') {lo' hi' : ℕ} (hlo : lo' ≤ lo) (hhi : hi ≤ hi') :
    Patched env path lo' hi' t t' := by
  refine ⟨h.others, fun d hd hlen => ?_⟩
  obtain ⟨d', hd', hpatch⟩ := h.file d hd (hhi.trans hlen)
  exact ⟨d', hd', hpatch.mono hlo hhi⟩

/-- One patch after the other. -/
theorem trans (h : Patched env path lo hi t t') (h' : Patched env path lo hi t' t'') :
    Patched env path lo hi t t'' := by
  refine ⟨fun l hl => (h'.others l hl).trans (h.others l hl), fun d hd hlen => ?_⟩
  obtain ⟨d', hd', hpatch⟩ := h.file d hd hlen
  obtain ⟨d'', hd'', hpatch'⟩ := h'.file d' hd' (by rwa [hpatch.length_eq])
  exact ⟨d'', hd'', hpatch.trans hpatch'⟩

end Patched

section Succeeding

variable {env : Env} {w w' : World}

/-- Bytes put into a file. -/
theorem contents_putAt {f : File} {t : Tree} {d : Bytes}
    (hd : t.contents (env.locate f.path) = some d) (pos : ℕ) (chunk : Bytes) :
    (putAt env f pos chunk t).contents (env.locate f.path) =
      some (Slices.overwrite d pos chunk) := by
  obtain ⟨t', ht', hnode⟩ := FileTree.modify_of_file (FileTree.contents_eq_some_iff.mp hd)
    fun d => Slices.overwrite d pos chunk
  rw [putAt, ht', FileTree.contents_eq_some_iff]
  change t'.node _ = _
  rw [hnode, Function.update_self]

/-- A write that succeeds. -/
theorem writeAll_eq_ok {f : File} {chunk d : Bytes} (h : w.writeAll env f chunk = (.ok (), w'))
    (hd : w.fs.contents (env.locate f.path) = some d) :
    w'.fs.contents (env.locate f.path) = some (Slices.overwrite d w.cursor chunk) ∧
      w'.cursor = w.cursor + chunk.length := by
  rw [writeAll] at h
  split at h
  · rename_i w₁ hcall
    obtain rfl := (Prod.mk.inj h).2
    have hcursor : w₁.cursor = w.cursor := by
      rw [call] at hcall
      split at hcall
      · exact absurd hcall (by simp)
      · exact (congrArg cursor (Prod.mk.inj hcall).2).symm
    refine ⟨?_, congrArg (· + chunk.length) hcursor⟩
    have hput : Except.ok (putAt env f w.cursor chunk w.fs) = Except.ok w₁.fs := call_eq_ok hcall
    change w₁.fs.contents _ = _
    rw [← Except.ok.inj hput]
    exact contents_putAt hd _ _
  · exact absurd h (by simp)

end Succeeding

/-- Bytes put into a file change their range. -/
theorem putAt_patched (env : Env) (f : File) (pos : ℕ) (chunk : Bytes) (t : Tree) :
    Patched env f.path pos (pos + chunk.length) t (putAt env f pos chunk t) := by
  rw [putAt]
  cases hmodify : t.modify (env.locate f.path) fun d => Slices.overwrite d pos chunk with
  | error e => exact .refl env _ _ _ t
  | ok t' =>
      obtain ⟨d, hd, hnode⟩ := FileTree.modify_eq_ok hmodify
      refine ⟨fun l hl => ?_, fun d' hd' hlen => ?_⟩
      · change t'.node l = _
        rw [hnode, Function.update_of_ne hl]
      · obtain rfl : d = d' := by
          rw [FileTree.contents_eq_some_iff, hd] at hd'
          simpa using hd'
        refine ⟨_, FileTree.contents_eq_some_iff.mpr ?_, Slices.patch_overwrite chunk hlen⟩
        change t'.node _ = _
        rw [hnode, Function.update_self]

/-- **One write**: a call, a patch of its range, and the position behind it, if it succeeds. -/
theorem writeAll_patched (env : Env) (w : World) (f : File) (chunk : Bytes) :
    (w.writeAll env f chunk).2.calls = w.calls ++ [.write f.path w.cursor chunk.length] ∧
      Patched env f.path w.cursor (w.cursor + chunk.length) w.fs (w.writeAll env f chunk).2.fs ∧
      ((w.writeAll env f chunk).1 = .ok () →
        (w.writeAll env f chunk).2.cursor = w.cursor + chunk.length) := by
  rw [writeAll, call]
  cases hfault : env.faults w.calls.length (.write f.path w.cursor chunk.length) with
  | some fault =>
      refine ⟨rfl, ?_, fun h => absurd h (by simp)⟩
      refine (putAt_patched env f w.cursor (chunk.take fault.progress) w.fs).mono le_rfl ?_
      have := List.length_take_le' fault.progress chunk
      omega
  | none => exact ⟨rfl, putAt_patched env f w.cursor chunk w.fs, fun _ => rfl⟩

/-- **Writes of chunks**: they lie one behind the other, all of them if they succeed. -/
theorem writeChunks_patched (env : Env) (s : ReceiveState) (restored : ChunkMap) (f : File)
    (len : ℕ → ℕ) (is : List ℕ)
    (hlen : ∀ i ∈ is, ∀ chunk, chunkBytes s restored i = .ok chunk → chunk.length = len i) :
    ∀ w : World, ∃ lens, lens <+: is.map len ∧
      (writeChunks env s restored f is w).2.calls = w.calls ++ writesFrom f.path w.cursor lens ∧
      Patched env f.path w.cursor (w.cursor + lens.sum) w.fs
        (writeChunks env s restored f is w).2.fs ∧
      ((writeChunks env s restored f is w).1 = .ok () → lens = is.map len) := by
  induction is with
  | nil =>
      intro w
      refine ⟨[], List.prefix_refl _, ?_, .refl env _ _ _ _, fun _ => rfl⟩
      rw [writesFrom, List.append_nil, writeChunks]
  | cons i is ih =>
      intro w
      rw [writeChunks]
      cases hchunk : chunkBytes s restored i with
      | error e =>
          refine ⟨[], List.nil_prefix, ?_, .refl env _ _ _ _, fun h => absurd h (by simp)⟩
          rw [writesFrom, List.append_nil]
      | ok chunk =>
          obtain ⟨hcalls, hpatch, hcursor⟩ := writeAll_patched env w f chunk
          have hi := hlen i List.mem_cons_self chunk hchunk
          rw [hi] at hcalls hpatch hcursor
          simp only
          split
          · rename_i e w' heq
            rw [heq] at hcalls hpatch
            refine ⟨[len i], ?_, hcalls, hpatch, fun h => absurd h (by simp)⟩
            rw [List.map_cons]
            exact ⟨is.map len, rfl⟩
          · rename_i w' heq
            rw [heq] at hcalls hpatch hcursor
            have hpos : w'.cursor = w.cursor + len i := hcursor rfl
            obtain ⟨lens, hstarts, hcalls', hpatch', hall⟩ :=
              ih (fun j hj => hlen j (List.mem_cons_of_mem _ hj)) w'
            refine ⟨len i :: lens, ?_, ?_, ?_, fun h => ?_⟩
            · rw [List.map_cons]
              exact List.cons_prefix_cons.mpr ⟨rfl, hstarts⟩
            · rw [hcalls', hcalls, writesFrom, hpos, List.append_assoc, List.singleton_append]
            · rw [hpos] at hpatch'
              rw [List.sum_cons]
              exact (hpatch.mono le_rfl (by omega)).trans (hpatch'.mono (by omega) (by omega))
            · rw [hall h, List.map_cons]

/-- **What chunks leave in the file** if they are all written. -/
theorem writeChunks_contents {env : Env} {s : ReceiveState} {restored : ChunkMap} {f : File}
    {is : List ℕ} {w' : World} : ∀ {w : World} {d : Bytes},
    writeChunks env s restored f is w = (.ok (), w') →
      w.fs.contents (env.locate f.path) = some d → w.cursor ≤ d.length →
        ∃ chunks, List.Forall₂ (fun i chunk => chunkBytes s restored i = .ok chunk) is chunks ∧
          w'.fs.contents (env.locate f.path) =
            some (Slices.overwrite d w.cursor chunks.flatten) := by
  induction is with
  | nil =>
      intro w d h hd hcursor
      refine ⟨[], .nil, ?_⟩
      rw [← (Prod.mk.inj h).2, hd, List.flatten_nil, Slices.overwrite_nil hcursor]
  | cons i is ih =>
      intro w d h hd hcursor
      rw [writeChunks] at h
      cases hchunk : chunkBytes s restored i with
      | error e =>
          rw [hchunk] at h
          exact absurd h (by simp)
      | ok chunk =>
          rw [hchunk] at h
          dsimp only at h
          split at h
          · exact absurd h (by simp)
          rename_i w₁ hwrite
          obtain ⟨hd₁, hcursor₁⟩ := writeAll_eq_ok hwrite hd
          have hinside : w₁.cursor ≤ (Slices.overwrite d w.cursor chunk).length := by
            rw [hcursor₁, Slices.length_overwrite]
            exact le_max_left _ _
          obtain ⟨chunks, hchunks, hlast⟩ := ih h hd₁ hinside
          refine ⟨chunk :: chunks, .cons hchunk hchunks, ?_⟩
          rw [hlast, hcursor₁, Slices.overwrite_overwrite, List.flatten_cons]

/-! ### The slice of a batch -/

/-- The end of the current batch in the output file. -/
def batchLimit (batchIdx fileSize : ℕ) : ℕ := min (batchOffset (batchIdx + 1)) fileSize

/-- A buffered or restored chunk is cut to the length it has to have. -/
theorem length_chunkBytes {s : ReceiveState} {restored : ChunkMap} {i : ℕ} {chunk : Bytes}
    (h : chunkBytes s restored i = .ok chunk) :
    chunk.length = expectedLen s.fileSize (s.currentBatch * batchDataChunks + i) := by
  rw [chunkBytes] at h
  split at h
  · split at h
    · exact absurd h (by simp)
    · rw [← Except.ok.inj h, List.length_take]
      omega
  · split at h
    · split at h
      · exact absurd h (by simp)
      · rw [← Except.ok.inj h, List.length_take]
        omega
    · exact absurd h (by simp)

/-- Where the chunks of a file end: one chunk after the other, the last one at the end of the
file. -/
theorem expectedLen_add (fileSize : ℕ) {i : ℕ} (hi : i < totalChunks fileSize) :
    min (chunkSize * i) fileSize + expectedLen fileSize i = min (chunkSize * (i + 1)) fileSize := by
  have hmod : fileSize % chunkSize < chunkSize := Nat.mod_lt _ (by decide)
  have hdiv := Nat.div_add_mod fileSize chunkSize
  rw [expectedLen]
  split
  · split
    · rw [totalChunks] at *
      simp only [chunkSize] at *
      omega
    · rw [totalChunks] at *
      simp only [chunkSize] at *
      omega
  · rw [totalChunks] at *
    simp only [chunkSize] at *
    omega

/-- The chunks of a batch fill its slice. -/
theorem sum_expectedLen (fileSize start : ℕ) {n : ℕ} (hn : start + n ≤ totalChunks fileSize) :
    min (chunkSize * start) fileSize +
        ((List.range n).map fun i => expectedLen fileSize (start + i)).sum =
      min (chunkSize * (start + n)) fileSize := by
  induction n with
  | zero => simp
  | succ n ih =>
      have hstep := expectedLen_add fileSize (i := start + n) (by omega)
      rw [List.range_succ, List.map_append, List.sum_append, ← Nat.add_assoc, ih (by omega),
        List.map_singleton, List.sum_singleton, hstep, Nat.add_assoc]

/-- **The slice of a batch**: its chunks reach from its offset to its limit. -/
theorem batchOffset_add_sum {batchIdx fileSize : ℕ} (h : 0 < batchDataSize batchIdx fileSize) :
    batchOffset batchIdx + ((List.range (batchDataSize batchIdx fileSize)).map fun i =>
        expectedLen fileSize (batchIdx * batchDataChunks + i)).sum =
      batchLimit batchIdx fileSize ∧ batchOffset batchIdx < batchLimit batchIdx fileSize := by
  have hsize : batchDataSize batchIdx fileSize =
      min (totalChunks fileSize - batchIdx * batchDataChunks) batchDataChunks := by
    rw [batchDataSize] at h ⊢
    split at h
    · exact absurd h (lt_irrefl 0)
    · rename_i hstart
      exact if_neg hstart
  have hsum := sum_expectedLen fileSize (batchIdx * batchDataChunks)
    (n := batchDataSize batchIdx fileSize) (by omega)
  rw [hsize] at h hsum ⊢
  rw [batchLimit, batchOffset, batchOffset]
  rw [totalChunks] at *
  simp only [chunkSize, batchDataChunks] at *
  constructor <;> omega

/-- A batch without chunks has an empty slice. -/
theorem batchLimit_le_batchOffset {batchIdx fileSize : ℕ}
    (h : batchDataSize batchIdx fileSize = 0) :
    batchLimit batchIdx fileSize ≤ batchOffset batchIdx := by
  rw [batchLimit, batchOffset, batchOffset]
  rw [batchDataSize] at h
  split at h <;>
    · rw [totalChunks] at *
      simp only [chunkSize, batchDataChunks] at *
      omega

/-! ### Finalizing -/

/-- The calls that write a batch, as far as they get: a seek to the front of its slice and writes
of the given lengths. -/
def batchCalls (path : Path) (batchIdx : ℕ) (lens : List ℕ) : List FsCall :=
  .seek path (batchOffset batchIdx) :: writesFrom path (batchOffset batchIdx) lens

/-- Seeking is a call and changes nothing. -/
theorem seek_calls (env : Env) (w : World) (f : File) (offset : ℕ) :
    (w.seek env f offset).2.calls = w.calls ++ [.seek f.path offset] ∧
      ((w.seek env f offset).1 = .ok () → (w.seek env f offset).2.cursor = offset) := by
  rw [seek, call]
  cases env.faults w.calls.length (.seek f.path offset) with
  | some fault => exact ⟨rfl, fun h => absurd h (by simp)⟩
  | none => exact ⟨rfl, fun _ => rfl⟩

/-- A seek that succeeds. -/
theorem seek_eq_ok {env : Env} {w w' : World} {f : File} {offset : ℕ}
    (h : w.seek env f offset = (.ok (), w')) : w'.fs = w.fs ∧ w'.cursor = offset := by
  have hfs := seek_fs env w f offset
  have hcursor := (seek_calls env w f offset).2
  rw [h] at hfs hcursor
  exact ⟨hfs, hcursor rfl⟩

/-- **What a batch leaves in a file** that held `d`: its chunks in place of what was there, each of
them buffered or restored. -/
structure HoldsBatch (env : Env) (s : ReceiveState) (path : Path) (w w' : World) (d : Bytes)
    (restored : ChunkMap) (chunks : List Bytes) : Prop where
  restores : (restoreBatch env s (batchDataSize s.currentBatch s.fileSize) w).1 = .ok restored
  pieces : List.Forall₂ (fun i chunk => chunkBytes s restored i = .ok chunk)
    (List.range (batchDataSize s.currentBatch s.fileSize)) chunks
  contents : w'.fs.contents (env.locate path) =
    some (Slices.overwrite d (batchOffset s.currentBatch) chunks.flatten)

/-- **Writing a batch** leaves its chunks in the file. -/
theorem writeBatch_holdsBatch {env : Env} {s : ReceiveState} {path : Path} {w w' : World}
    {d : Bytes} (hout : s.output = some ⟨path⟩)
    (h : writeBatch env s (batchDataSize s.currentBatch s.fileSize) w = (.ok (), w'))
    (hd : w.fs.contents (env.locate path) = some d)
    (hlen : batchOffset s.currentBatch ≤ d.length) :
    ∃ restored chunks, HoldsBatch env s path w w' d restored chunks := by
  have hfs := (restoreBatch_world env s (batchDataSize s.currentBatch s.fileSize) w).1
  rw [writeBatch, hout] at h
  split at h
  · exact absurd h (by simp)
  rename_i restored w₁ hrestore
  rw [hrestore] at hfs
  dsimp only at h hfs
  split at h
  · exact absurd h (by simp)
  rename_i w₂ hseek
  obtain ⟨hfs₂, hcursor⟩ := seek_eq_ok hseek
  obtain ⟨chunks, hchunks, hcontents⟩ := writeChunks_contents h
    (by rw [hfs₂, hfs]; exact hd) (by rw [hcursor]; exact hlen)
  rw [hcursor] at hcontents
  exact ⟨restored, chunks, by rw [hrestore], hchunks, hcontents⟩

/-- **Writing a batch**: the calls lie in its slice, and tile it if they succeed. -/
theorem writeBatch_patched (env : Env) {s : ReceiveState} {path : Path}
    (hout : s.output = some ⟨path⟩) (hsize : 0 < batchDataSize s.currentBatch s.fileSize)
    (w : World) :
    let r := writeBatch env s (batchDataSize s.currentBatch s.fileSize) w
    Patched env path (batchOffset s.currentBatch) (batchLimit s.currentBatch s.fileSize)
        w.fs r.2.fs ∧
      ((∃ e, r.1 = .error e) ∧ r.2.calls = w.calls ∨
        ∃ lens : List ℕ, r.2.calls = w.calls ++ batchCalls path s.currentBatch lens ∧
          batchOffset s.currentBatch + lens.sum ≤ batchLimit s.currentBatch s.fileSize ∧
          (r.1 = .ok () → batchOffset s.currentBatch + lens.sum =
            batchLimit s.currentBatch s.fileSize)) := by
  obtain ⟨htotal, hpos⟩ := batchOffset_add_sum hsize
  obtain ⟨hfs, hcalls⟩ := restoreBatch_world env s (batchDataSize s.currentBatch s.fileSize) w
  dsimp only
  rw [writeBatch, hout]
  split
  · rename_i e w₁ heq
    rw [heq] at hfs hcalls
    refine ⟨?_, Or.inl ⟨⟨e, rfl⟩, hcalls⟩⟩
    rw [hfs]
    exact .refl env _ _ _ _
  rename_i restored w₁ heq
  rw [heq] at hfs hcalls
  obtain ⟨hseek, hcursor⟩ := seek_calls env w₁ ⟨path⟩ (batchOffset s.currentBatch)
  have hseekfs := seek_fs env w₁ ⟨path⟩ (batchOffset s.currentBatch)
  dsimp only at hfs hcalls hseek ⊢
  split
  · rename_i e w₂ heq₂
    rw [heq₂] at hseek hseekfs
    refine ⟨?_, Or.inr ⟨[], ?_, ?_, fun h => absurd h (by simp)⟩⟩
    · rw [hseekfs, hfs]
      exact .refl env _ _ _ _
    · rw [hseek, hcalls, batchCalls, writesFrom]
    · rw [List.sum_nil, Nat.add_zero]
      exact hpos.le
  · rename_i w₂ heq₂
    rw [heq₂] at hseek hseekfs hcursor
    have hfront : w₂.cursor = batchOffset s.currentBatch := hcursor rfl
    obtain ⟨lens, ⟨rest, hstarts⟩, hwrites, hpatch, hall⟩ := writeChunks_patched env s restored
      ⟨path⟩ (fun i => expectedLen s.fileSize (s.currentBatch * batchDataChunks + i))
      (List.range (batchDataSize s.currentBatch s.fileSize))
      (fun i _ chunk h => length_chunkBytes h) w₂
    have hle : batchOffset s.currentBatch + lens.sum ≤
        batchLimit s.currentBatch s.fileSize := by
      rw [← htotal, ← hstarts, List.sum_append]
      omega
    refine ⟨?_, Or.inr ⟨lens, ?_, hle, fun h => ?_⟩⟩
    · rw [hfront, hseekfs, hfs] at hpatch
      exact hpatch.mono le_rfl hle
    · rw [hwrites, hseek, hcalls, hfront, batchCalls, List.append_assoc, List.singleton_append]
    · rw [hall h, htotal]

/-- **The file under reception after finalizing its current batch**: written in the slice of the
batch, and the calls that did it. -/
structure Finalizes (env : Env) (path : Path) (wk : Worker) (r : Except Text Unit × Worker) :
    Prop where
  patched : Patched env path (batchOffset wk.state.currentBatch)
    (batchLimit wk.state.currentBatch wk.state.fileSize) wk.world.fs r.2.world.fs
  stats : r.2.stats = wk.stats
  udpTx : r.2.udpTx = wk.udpTx
  /-- After a success the slice is tiled by writes, and the buffers are empty. -/
  ok : r.1 = .ok () → r.2.state = wk.state.clearBuffers ∧
    (batchLimit wk.state.currentBatch wk.state.fileSize ≤ batchOffset wk.state.currentBatch ∧
        r.2.world.fs = wk.world.fs ∧ r.2.world.calls = wk.world.calls ∨
      ∃ lens : List ℕ,
        r.2.world.calls = wk.world.calls ++ batchCalls path wk.state.currentBatch lens ∧
        batchOffset wk.state.currentBatch + lens.sum =
          batchLimit wk.state.currentBatch wk.state.fileSize)
  /-- After a success the slice holds the chunks of the batch. -/
  holds : r.1 = .ok () → batchDataSize wk.state.currentBatch wk.state.fileSize ≠ 0 →
    ∀ d, wk.world.fs.contents (env.locate path) = some d →
      batchOffset wk.state.currentBatch ≤ d.length →
        ∃ restored chunks,
          HoldsBatch env wk.state path wk.world r.2.world d restored chunks
  /-- After an error the state is as before, and the writes lie in the slice. -/
  error : ∀ e, r.1 = .error e → r.2.state = wk.state ∧
    (r.2.world.calls = wk.world.calls ∨
      ∃ lens : List ℕ,
        r.2.world.calls = wk.world.calls ++ batchCalls path wk.state.currentBatch lens ∧
        batchOffset wk.state.currentBatch + lens.sum ≤
          batchLimit wk.state.currentBatch wk.state.fileSize)

/-- **Finalizing** writes in the slice of the current batch. -/
theorem finalizeCurrentBatch_finalizes (env : Env) {wk : Worker} {path : Path}
    (hout : wk.state.output = some ⟨path⟩) :
    Finalizes env path wk (finalizeCurrentBatch env wk) := by
  rw [finalizeCurrentBatch]
  by_cases hsize : batchDataSize wk.state.currentBatch wk.state.fileSize = 0
  · rw [if_pos hsize]
    exact ⟨.refl env _ _ _ _, rfl, rfl,
      fun _ => ⟨rfl, Or.inl ⟨batchLimit_le_batchOffset hsize, rfl, rfl⟩⟩,
      fun _ hne => absurd hsize hne, fun e h => absurd h (by simp)⟩
  rw [if_neg hsize]
  obtain ⟨hpatch, hcalls⟩ := writeBatch_patched env hout (Nat.pos_of_ne_zero hsize) wk.world
  split
  · rename_i e w heq
    rw [heq] at hpatch hcalls
    refine ⟨hpatch, rfl, rfl, fun h => absurd h (by simp), fun h => absurd h (by simp),
      fun _ _ => ⟨rfl, ?_⟩⟩
    rcases hcalls with ⟨-, hnone⟩ | ⟨lens, hwrites, hle, -⟩
    · exact Or.inl hnone
    · exact Or.inr ⟨lens, hwrites, hle⟩
  · rename_i w hwrite
    rw [hwrite] at hpatch hcalls
    refine ⟨hpatch, rfl, rfl, fun _ => ⟨rfl, Or.inr ?_⟩,
      fun _ _ d hd hlen => writeBatch_holdsBatch hout hwrite hd hlen, fun e h => absurd h (by simp)⟩
    rcases hcalls with ⟨⟨e, he⟩, -⟩ | ⟨lens, hwrites, -, htiles⟩
    · exact absurd he (by simp)
    · exact ⟨lens, hwrites, htiles rfl⟩

/-! ### The file under reception has its announced length -/

/-- Between two packets, the file under reception has the announced length. -/
def Worker.Sized (env : Env) (wk : Worker) : Prop :=
  ∀ p, wk.state.filePath = some p → ∃ d,
    wk.world.fs.contents (env.locate (env.partialPath p)) = some d ∧ d.length = wk.state.fileSize

namespace Worker.Sized

variable {env : Env} {wk : Worker}

/-- Without a transfer in progress nothing has a length. -/
theorem of_new (h : wk.state = .new) : wk.Sized env := by
  intro p hp
  rw [h] at hp
  exact absurd hp (by simp [ReceiveState.new])

/-- Another worker with the same file under reception. -/
theorem congr (h : wk.Sized env) {wk' : Worker} (hpath : wk'.state.filePath = wk.state.filePath)
    (hsize : wk'.state.fileSize = wk.state.fileSize) (hfs : wk'.world.fs = wk.world.fs) :
    wk'.Sized env := by
  intro p hp
  rw [hfs, hsize]
  exact h p (hpath ▸ hp)

/-- Finalizing a batch keeps the length. -/
theorem finalizeCurrentBatch (hinv : wk.Inv env) (h : wk.Sized env)
    (hactive : wk.state.filePath.isSome) :
    (finalizeCurrentBatch env wk).2.Sized env := by
  have hsame := finalizeCurrentBatch_sameTransfer env wk
  obtain ⟨p, hp⟩ := Option.isSome_iff_exists.mp hactive
  obtain ⟨d, hd, hlen⟩ := h p hp
  have hpatch := (finalizeCurrentBatch_finalizes env (hinv.output p hp)).patched
  obtain ⟨d', hd', hkeep⟩ := hpatch.file d hd (by
    rw [hlen, batchLimit]
    exact min_le_right _ _)
  intro q hq
  obtain rfl : p = q := Option.some.inj (hp.symm.trans (hsame.filePath ▸ hq))
  exact ⟨d', hd', by rw [hkeep.length_eq, hlen, hsame.fileSize]⟩

/-- Advancing keeps the length. -/
theorem advanceBatches (n : ℕ) : ∀ {wk : Worker}, wk.Inv env → wk.Sized env →
    wk.state.filePath.isSome → (advanceBatches env n wk).Sized env := by
  induction n with
  | zero => exact fun _ h _ => h
  | succ n ih =>
      intro wk hinv h hactive
      have hsame := finalizeCurrentBatch_sameTransfer env wk
      have hinv' := hinv.of_sameTransfer hsame hactive
      have hsized := finalizeCurrentBatch hinv h hactive
      rw [← hsame.filePath] at hactive
      rw [DataDiode.advanceBatches]
      split
      · exact h
      split
      · rename_i e wk' heq
        rw [heq] at hsized
        exact hsized.congr rfl rfl rfl
      · rename_i wk' heq
        rw [heq] at hsized hinv' hactive
        exact ih (hinv'.of_sameTransfer ⟨rfl, rfl, rfl, rfl, rfl, rfl, rfl⟩ hactive)
          (hsized.congr rfl rfl rfl) hactive

/-- A chunk of either kind keeps the length. -/
theorem acceptChunk (hinv : wk.Inv env) (h : wk.Sized env) (hactive : wk.state.filePath.isSome)
    (packet : Packet) (pkgType batch : ℕ) {buffer : Worker → Worker}
    (hbuffer : ∀ wk, SameTransfer wk (buffer wk) ∧ (buffer wk).world.fs = wk.world.fs) :
    (acceptChunk env wk packet pkgType batch buffer).Sized env := by
  have hadvance : Worker.Sized env
      (if wk.state.currentBatch < batch then advanceToBatch env wk batch else wk) := by
    split
    · exact advanceBatches _ hinv h hactive
    · exact h
  have hvalid := isChunkValid_world env wk.world packet wk.state pkgType
  rw [DataDiode.acceptChunk]
  split
  · exact h
  split
  · rename_i w heq
    rw [heq] at hvalid
    exact h.congr rfl rfl hvalid.1
  dsimp only
  generalize (if wk.state.currentBatch < batch then advanceToBatch env wk batch else wk) = wk'
    at hadvance ⊢
  split
  · exact hadvance.congr (hbuffer wk').1.filePath (hbuffer wk').1.fileSize (hbuffer wk').2
  · exact hadvance

end Worker.Sized

/-- A file opened under reception has the announced length. -/
theorem openOutputFile_length {env : Env} {w w' : World} {p : Str} {size : ℕ} {f : File}
    (h : w.openOutputFile env p size = (.ok f, w')) : ∃ d,
      w'.fs.contents (env.locate (env.partialPath p)) = some d ∧ d.length = size := by
  rw [openOutputFile] at h
  split at h
  · exact absurd h (by simp)
  split at h
  · exact absurd h (by simp)
  rename_i w₁ _ g w₂ hopen
  have hfile := openWrite_file hopen
  have hempty : w₂.fs.contents (env.locate (env.partialPath p)) = some [] := by
    rw [openWrite] at hopen
    split at hopen
    · rename_i w₀ hcall
      have hact := call_eq_ok hcall
      rw [onFile] at hact
      split at hact
      · exact absurd hact (by simp)
      · rw [Prod.mk.injEq] at hopen
        rw [← hopen.2, FileTree.contents_eq_some_iff]
        change w₀.fs.node _ = _
        rw [(FileTree.create_eq_ok hact).2, Function.update_self, if_pos rfl]
    · exact absurd hopen (by simp)
  split at h
  · split at h
    · exact absurd h (by simp)
    · rename_i w₃ hlen
      obtain ⟨d, -, hnode⟩ := FileTree.modify_eq_ok (call_eq_ok hlen)
      rw [hfile] at hnode
      rw [Prod.mk.injEq] at h
      rw [← h.2]
      exact ⟨_, FileTree.contents_eq_some_iff.mpr (by rw [hnode, Function.update_self]),
        Slices.length_resize size d⟩
  · rename_i hzero
    rw [Prod.mk.injEq] at h
    rw [← h.2]
    exact ⟨[], hempty, by rw [List.length_nil]; omega⟩

/-- **Every packet** keeps the length of the file under reception. -/
theorem Worker.Sized.handlePacket {env : Env} {wk : Worker} (hinv : wk.Inv env)
    (h : wk.Sized env) (raw : Bytes) : (handlePacket env wk raw).Sized env := by
  rw [DataDiode.handlePacket]
  split
  · exact h.congr rfl rfl rfl
  rename_i packet _
  rw [dispatch]
  split
  · rw [handleStart, newFile]
    split
    · exact h
    dsimp only
    split
    · exact .of_new (rejectStart_state _ _ _)
    split
    · exact .of_new (rejectStart_state _ _ _)
    · rw [openTransfer]
      dsimp only
      split
      · exact .of_new (preempt_state hinv)
      · rename_i f w heq
        intro p hp
        obtain rfl := Option.some.inj hp
        obtain ⟨d, hd, hlen⟩ := openOutputFile_length heq
        exact ⟨d, hd, hlen⟩
  split
  · rename_i hdata
    exact h.acceptChunk hinv hdata.2 packet _ _ fun wk =>
      ⟨bufferData_sameTransfer wk packet, (bufferData_world wk packet).1⟩
  split
  · rename_i hparity
    exact h.acceptChunk hinv hparity.2 packet _ _ fun wk =>
      ⟨bufferParity_sameTransfer wk packet _, (bufferParity_world wk packet _).1⟩
  split
  · rename_i hend
    obtain ⟨p, hp⟩ := Option.isSome_iff_exists.mp hend.2
    exact .of_new (finishFile_state env hp)
  split <;> exact h

/-- **Every run** keeps the length of the file under reception. -/
theorem Worker.Sized.run {env : Env} {wk : Worker} (hinv : wk.Inv env) (h : wk.Sized env)
    (raws : List Bytes) : (run env wk raws).Sized env := by
  induction raws generalizing wk with
  | nil => exact h
  | cons raw raws ih => exact ih (hinv.handlePacket raw).1 (h.handlePacket hinv raw)

/-! ### Delivered files -/

/-- A file that is published is the one that was under reception. -/
theorem publish_contents (env : Env) {p : Str} (hp : Accepted p) (wk : Worker)
    (hactive : wk.state.filePath = some p) :
    (publish env wk p).stats.filesTransferred = wk.stats.filesTransferred ∨
      (publish env wk p).stats.filesTransferred = wk.stats.filesTransferred + 1 ∧
        (publish env wk p).world.fs.contents (env.locate (env.finalPath p)) =
          wk.world.fs.contents (env.locate (env.partialPath p)) := by
  obtain ⟨hne₁, hne₂, hne₃⟩ := hp.locate_ne env
  rcases hrename : wk.world.rename env (env.partialPath p) (env.finalPath p) with ⟨e | ⟨⟩, w⟩
  · left
    rw [publish, hrename]
    simp only
    rw [abandon_stats (by
      change wk.state.filePath.isSome
      simp [hactive])]
  · have hact := call_eq_ok hrename
    rw [onFile] at hact
    split at hact
    · exact absurd hact (by simp)
    obtain ⟨d, hd, -, hnode⟩ := FileTree.rename_eq_ok hne₁ hact
    obtain ⟨hworld, hstats⟩ := publish_of_renamed hactive hrename
    have hfinal : ((w.logDigest env p).clearFailure env p).fs.node
        (env.locate (env.finalPath p)) = some (.file d) := by
      rw [(clearFailure_logDigest env w p).1 _ hne₂.symm, hnode, Function.update_of_ne hne₁.symm,
        Function.update_self]
    refine Or.inr ⟨by rw [hstats], ?_⟩
    rw [hworld, FileTree.contents_eq_some_iff.mpr hfinal, FileTree.contents_eq_some_iff.mpr hd]

/-- Finalizing the last batch keeps the length. -/
theorem Worker.Sized.finalizeLast {env : Env} {wk : Worker} (hinv : wk.Inv env)
    (h : wk.Sized env) (hactive : wk.state.filePath.isSome) (relPath : Str) :
    (finalizeLast env wk relPath).Sized env := by
  have hlast := h.finalizeCurrentBatch hinv hactive
  rw [DataDiode.finalizeLast]
  split
  · exact h
  split
  · rename_i wk' heq
    rw [heq] at hlast
    exact hlast
  · rename_i e wk' heq
    rw [heq] at hlast
    exact hlast.congr rfl rfl rfl

/-- **A file that is counted as transferred** has the announced length. -/
theorem delivered_length {env : Env} {wk : Worker} (hinv : wk.Inv env) (h : wk.Sized env)
    {raw : Bytes}
    (hcount : (handlePacket env wk raw).stats.filesTransferred ≠ wk.stats.filesTransferred) :
    ∃ p d, wk.state.filePath = some p ∧
      (handlePacket env wk raw).stats.filesTransferred = wk.stats.filesTransferred + 1 ∧
      (handlePacket env wk raw).world.fs.contents (env.locate (env.finalPath p)) = some d ∧
      d.length = wk.state.fileSize := by
  rw [handlePacket] at hcount ⊢
  split at hcount
  · exact absurd rfl hcount
  rename_i packet _
  rw [dispatch] at hcount ⊢
  split at hcount
  · exact absurd (newFile_stats env wk _ _ _ _).1 hcount
  split at hcount
  · exact absurd (handleData_sameTransfer env wk packet).filesTransferred hcount
  split at hcount
  · exact absurd (handleParity_sameTransfer env wk packet).filesTransferred hcount
  split at hcount
  · rename_i hstart hdata hparity hend
    obtain ⟨p, hp⟩ := Option.isSome_iff_exists.mp hend.2
    have hsame := finalizeLast_sameTransfer env wk p
    have hactive : (finalizeLast env wk p).state.filePath = some p := hsame.filePath.trans hp
    rw [if_neg hstart, if_neg hdata, if_neg hparity, if_pos hend]
    simp only [finishFile, hp] at hcount ⊢
    split at hcount
    · refine absurd ?_ hcount
      rw [abandon_stats (by rw [hactive]; rfl)]
      exact hsame.filesTransferred
    · rename_i hok
      rw [if_neg hok]
      obtain ⟨d, hd, hlen⟩ := h.finalizeLast hinv hend.2 p p hactive
      rcases publish_contents env (hinv.accepted p hp)
          { finalizeLast env wk p with
            state := { (finalizeLast env wk p).state with output := none } } hactive with
        hno | ⟨hone, hcontents⟩
      · exact absurd (hno.trans hsame.filesTransferred) hcount
      · refine ⟨p, d, rfl, ?_, hcontents.trans hd, by rw [hlen, hsame.fileSize]⟩
        rw [hone]
        exact congrArg (· + 1) hsame.filesTransferred
  split at hcount <;> exact absurd rfl hcount

/-! ### The batches of a transfer -/

/-- The workers `finalizeCurrentBatch` is called on while up to `n` batches are finalized. -/
def advanceCalls (env : Env) : ℕ → Worker → List Worker
  | 0, _ => []
  | n + 1, wk =>
      if wk.state.failed then []
      else wk :: match finalizeCurrentBatch env wk with
        | (.error _, _) => []
        | (.ok (), wk) => advanceCalls env n wk.nextBatch

/-- The workers `finalizeCurrentBatch` is called on for a chunk of either kind. -/
def chunkCalls (env : Env) (wk : Worker) (packet : Packet) (pkgType batch : ℕ) : List Worker :=
  if wk.state.failed = false ∧ (isChunkValid env wk.world packet wk.state pkgType).1 = true ∧
      wk.state.currentBatch < batch then
    advanceCalls env (batch - wk.state.currentBatch) wk
  else []

/-- The workers `finalizeCurrentBatch` is called on for a datagram. -/
def finalizeCalls (env : Env) (wk : Worker) (raw : Bytes) : List Worker :=
  match decodePacket raw with
  | none => []
  | some packet =>
      if packet.pkgType = pkgTypeData ∧ wk.state.filePath.isSome then
        chunkCalls env wk packet pkgTypeData (batchForData packet.count)
      else if packet.pkgType = pkgTypeParity ∧ wk.state.filePath.isSome then
        chunkCalls env wk packet pkgTypeParity (batchForParity packet.count)
      else if packet.pkgType = pkgTypeEnd ∧ wk.state.filePath.isSome then
        if wk.state.failed then [] else [wk]
      else []

/-- The workers `finalizeCurrentBatch` is called on in a run. -/
def runFinalizeCalls (env : Env) : Worker → List Bytes → List Worker
  | _, [] => []
  | wk, raw :: raws =>
      finalizeCalls env wk raw ++ runFinalizeCalls env (handlePacket env wk raw) raws

/-- From `wk` to `wk'`, batches of one transfer are finalized in `calls`, each later than the one
before; those that succeed are left behind, and after one that fails there are no more. -/
structure Increasing (wk wk' : Worker) (calls : List Worker) : Prop where
  sorted : (calls.map fun x => x.state.currentBatch).Pairwise (· < ·)
  ge : ∀ x ∈ calls, wk.state.currentBatch ≤ x.state.currentBatch
  lt : wk'.state.failed = true ∨ wk.state.currentBatch ≤ wk'.state.currentBatch ∧
    ∀ x ∈ calls, x.state.currentBatch < wk'.state.currentBatch
  failed : wk.state.failed = true → calls = [] ∧ wk'.state.failed = true

namespace Increasing

variable {wk wk' wk'' : Worker} {calls calls' : List Worker}

/-- Nothing finalized, and nothing changed but what has been buffered. -/
theorem nil (hbatch : wk.state.currentBatch ≤ wk'.state.currentBatch)
    (hfailed : wk.state.failed = true → wk'.state.failed = true) : Increasing wk wk' [] :=
  ⟨List.Pairwise.nil, fun _ h => absurd h List.not_mem_nil,
    Or.inr ⟨hbatch, fun _ h => absurd h List.not_mem_nil⟩, fun h => ⟨rfl, hfailed h⟩⟩

/-- Later batches behind earlier ones. -/
theorem sorted_append (h : Increasing wk wk' calls)
    (hsorted : (calls'.map fun x => x.state.currentBatch).Pairwise (· < ·))
    (hge : ∀ x ∈ calls', wk'.state.currentBatch ≤ x.state.currentBatch)
    (hfailed : wk'.state.failed = true → calls' = []) :
    ((calls ++ calls').map fun x => x.state.currentBatch).Pairwise (· < ·) := by
  rw [List.map_append, List.pairwise_append]
  refine ⟨h.sorted, hsorted, fun b hb b' hb' => ?_⟩
  obtain ⟨x, hx, rfl⟩ := List.mem_map.mp hb
  obtain ⟨x', hx', rfl⟩ := List.mem_map.mp hb'
  rcases h.lt with hf | ⟨-, hlt⟩
  · rw [hfailed hf] at hx'
    exact absurd hx' List.not_mem_nil
  · exact (hlt x hx).trans_le (hge x' hx')

/-- The calls of one run after those of another. -/
theorem trans (h : Increasing wk wk' calls) (h' : Increasing wk' wk'' calls') :
    Increasing wk wk'' (calls ++ calls') := by
  refine ⟨h.sorted_append h'.sorted h'.ge fun hf => (h'.failed hf).1, fun x hx => ?_, ?_,
    fun hf => ?_⟩
  · rcases List.mem_append.mp hx with hx | hx
    · exact h.ge x hx
    · rcases h.lt with hf | ⟨hle, -⟩
      · rw [(h'.failed hf).1] at hx
        exact absurd hx List.not_mem_nil
      · exact hle.trans (h'.ge x hx)
  · rcases h.lt with hf | ⟨hle, hlt⟩
    · exact Or.inl (h'.failed hf).2
    rcases h'.lt with hf' | ⟨hle', hlt'⟩
    · exact Or.inl hf'
    · refine Or.inr ⟨hle.trans hle', fun x hx => ?_⟩
      rcases List.mem_append.mp hx with hx | hx
      · exact (hlt x hx).trans_le hle'
      · exact hlt' x hx
  · obtain ⟨hnil, hf'⟩ := h.failed hf
    obtain ⟨hnil', hf''⟩ := h'.failed hf'
    exact ⟨by rw [hnil, hnil', List.append_nil], hf''⟩

end Increasing

/-- A batch that is finalized stays the current one; one call leaves it behind or fails. -/
theorem finalizeCurrentBatch_batch (env : Env) (wk : Worker) :
    (finalizeCurrentBatch env wk).2.state.currentBatch = wk.state.currentBatch ∧
      (finalizeCurrentBatch env wk).2.state.failed = wk.state.failed := by
  rcases finalizeCurrentBatch_state env wk with ⟨e, -, hstate⟩ | ⟨-, hstate⟩ <;>
    · rw [hstate]
      exact ⟨rfl, rfl⟩

/-- **Advancing** finalizes one batch after the other. -/
theorem advanceCalls_increasing (env : Env) (n : ℕ) : ∀ wk : Worker,
    Increasing wk (advanceBatches env n wk) (advanceCalls env n wk) := by
  induction n with
  | zero => exact fun wk => .nil le_rfl id
  | succ n ih =>
      intro wk
      obtain ⟨hbatch, hfailed⟩ := finalizeCurrentBatch_batch env wk
      rw [advanceBatches, advanceCalls]
      split
      · exact .nil le_rfl id
      rename_i hok
      have hsorted : ([wk].map fun x => x.state.currentBatch).Pairwise (· < ·) :=
        List.pairwise_singleton _ _
      have hge : ∀ x ∈ [wk], wk.state.currentBatch ≤ x.state.currentBatch := fun x hx => by
        rw [List.mem_singleton.mp hx]
      generalize finalizeCurrentBatch env wk = r at hbatch hfailed ⊢
      obtain ⟨r, wk'⟩ := r
      cases r with
      | error e => exact ⟨hsorted, hge, Or.inl rfl, fun hf => absurd hf hok⟩
      | ok _ =>
          have hone : Increasing wk wk'.nextBatch [wk] := by
            have hnext : wk'.nextBatch.state.currentBatch = wk.state.currentBatch + 1 :=
              congrArg (· + 1) hbatch
            refine ⟨hsorted, hge, Or.inr ⟨?_, fun x hx => ?_⟩, fun hf => absurd hf hok⟩
            · rw [hnext]
              exact Nat.le_succ _
            · rw [hnext, List.mem_singleton.mp hx]
              exact Nat.lt_succ_self _
          exact hone.trans (ih wk'.nextBatch)

/-- The calls while advancing are about the transfer in progress. -/
theorem advanceCalls_sameTransfer (env : Env) (n : ℕ) : ∀ {wk : Worker}, wk.Inv env →
    wk.Sized env → wk.state.filePath.isSome →
      ∀ x ∈ advanceCalls env n wk, SameTransfer wk x ∧ x.Sized env := by
  induction n with
  | zero => exact fun _ _ _ x hx => absurd hx List.not_mem_nil
  | succ n ih =>
      intro wk hinv h hactive x hx
      have hsame := finalizeCurrentBatch_sameTransfer env wk
      have hinv' := hinv.of_sameTransfer hsame hactive
      have hsized := h.finalizeCurrentBatch hinv hactive
      have hactive' := hactive
      rw [← hsame.filePath] at hactive'
      rw [advanceCalls] at hx
      split at hx
      · exact absurd hx List.not_mem_nil
      rcases List.mem_cons.mp hx with rfl | hx
      · exact ⟨.refl _, h⟩
      split at hx
      · exact absurd hx List.not_mem_nil
      · rename_i wk' heq
        rw [heq] at hsame hsized hinv' hactive'
        have hnext : SameTransfer wk' wk'.nextBatch := ⟨rfl, rfl, rfl, rfl, rfl, rfl, rfl⟩
        obtain ⟨hx', hx''⟩ := ih (hinv'.of_sameTransfer hnext hactive')
          (hsized.congr rfl rfl rfl) hactive' x hx
        exact ⟨(hsame.trans hnext).trans hx', hx''⟩

/-- Buffering a chunk stays in the batch. -/
theorem Increasing.congr {wk wk' wk'' : Worker} {calls : List Worker} (h : Increasing wk wk' calls)
    (hbatch : wk''.state.currentBatch = wk'.state.currentBatch)
    (hfailed : wk'.state.failed = true → wk''.state.failed = true) : Increasing wk wk'' calls := by
  refine ⟨h.sorted, h.ge, ?_, fun hf => ⟨(h.failed hf).1, hfailed (h.failed hf).2⟩⟩
  rw [hbatch]
  exact h.lt.imp_left hfailed

/-- A chunk that is buffered belongs to the current batch, and a failure stays one. -/
theorem bufferData_batch (wk : Worker) (packet : Packet) :
    (bufferData wk packet).state.currentBatch = wk.state.currentBatch ∧
      (wk.state.failed = true → (bufferData wk packet).state.failed = true) := by
  rw [bufferData]
  split
  · exact ⟨rfl, id⟩
  · split
    · exact ⟨rfl, fun _ => rfl⟩
    · exact ⟨rfl, id⟩

/-- A parity chunk that is buffered belongs to the current batch, and a failure stays one. -/
theorem bufferParity_batch (wk : Worker) (packet : Packet) (i : ℕ) :
    (bufferParity wk packet i).state.currentBatch = wk.state.currentBatch ∧
      (wk.state.failed = true → (bufferParity wk packet i).state.failed = true) := by
  rw [bufferParity]
  split
  · exact ⟨rfl, id⟩
  · split
    · exact ⟨rfl, fun _ => rfl⟩
    · exact ⟨rfl, id⟩

/-- A chunk of either kind finalizes one batch after the other. -/
theorem chunkCalls_increasing (env : Env) (wk : Worker) (packet : Packet) (pkgType batch : ℕ)
    {buffer : Worker → Worker}
    (hbuffer : ∀ wk, (buffer wk).state.currentBatch = wk.state.currentBatch ∧
      (wk.state.failed = true → (buffer wk).state.failed = true)) :
    Increasing wk (acceptChunk env wk packet pkgType batch buffer)
      (chunkCalls env wk packet pkgType batch) := by
  rw [acceptChunk, chunkCalls]
  split
  · rename_i hfailed
    rw [if_neg (fun h => absurd (hfailed.symm.trans h.1) (by simp))]
    exact .nil le_rfl id
  rename_i hok
  split
  · rename_i w heq
    rw [heq, if_neg (fun h => absurd h.2.1 (by simp))]
    exact .nil le_rfl id
  rename_i w heq
  have hadvance : Increasing wk
      (if wk.state.currentBatch < batch then advanceToBatch env wk batch else wk)
      (if wk.state.failed = false ∧ (isChunkValid env wk.world packet wk.state pkgType).1 = true ∧
          wk.state.currentBatch < batch then
        advanceCalls env (batch - wk.state.currentBatch) wk
      else []) := by
    by_cases hlater : wk.state.currentBatch < batch
    · rw [if_pos hlater, if_pos ⟨by simpa using hok, by rw [heq], hlater⟩]
      exact advanceCalls_increasing env _ wk
    · rw [if_neg hlater, if_neg fun h => hlater h.2.2]
      exact .nil le_rfl id
  dsimp only
  generalize (if wk.state.currentBatch < batch then advanceToBatch env wk batch else wk) = wk'
    at hadvance ⊢
  split
  · exact hadvance.congr (hbuffer wk').1 (hbuffer wk').2
  · exact hadvance

/-- The calls for a chunk are about the transfer in progress. -/
theorem chunkCalls_sameTransfer {env : Env} {wk : Worker} (hinv : wk.Inv env) (h : wk.Sized env)
    (hactive : wk.state.filePath.isSome) (packet : Packet) (pkgType batch : ℕ) :
    ∀ x ∈ chunkCalls env wk packet pkgType batch, SameTransfer wk x ∧ x.Sized env := by
  intro x hx
  rw [chunkCalls] at hx
  split at hx
  · exact advanceCalls_sameTransfer env _ hinv h hactive x hx
  · exact absurd hx List.not_mem_nil

/-- **The calls for a datagram**: about the transfer in progress, each for a later batch than the
one before, from the current batch on, and none after a failure. -/
theorem finalizeCalls_spec {env : Env} {wk : Worker} (hinv : wk.Inv env) (h : wk.Sized env)
    (raw : Bytes) :
    (∀ x ∈ finalizeCalls env wk raw, SameTransfer wk x ∧ x.Sized env ∧
      wk.state.currentBatch ≤ x.state.currentBatch) ∧
    ((finalizeCalls env wk raw).map fun x => x.state.currentBatch).Pairwise (· < ·) ∧
    (wk.state.failed = true → finalizeCalls env wk raw = []) := by
  have hchunk : ∀ {calls : List Worker} {wk' : Worker}, Increasing wk wk' calls →
      (∀ x ∈ calls, SameTransfer wk x ∧ x.Sized env) →
      (∀ x ∈ calls, SameTransfer wk x ∧ x.Sized env ∧
        wk.state.currentBatch ≤ x.state.currentBatch) ∧
      (calls.map fun x => x.state.currentBatch).Pairwise (· < ·) ∧
      (wk.state.failed = true → calls = []) := fun hinc hsame =>
    ⟨fun x hx => ⟨(hsame x hx).1, (hsame x hx).2, hinc.ge x hx⟩, hinc.sorted,
      fun hf => (hinc.failed hf).1⟩
  have hnone : (∀ x ∈ ([] : List Worker), SameTransfer wk x ∧ x.Sized env ∧
        wk.state.currentBatch ≤ x.state.currentBatch) ∧
      (([] : List Worker).map fun x => x.state.currentBatch).Pairwise (· < ·) ∧
      (wk.state.failed = true → ([] : List Worker) = []) :=
    ⟨fun x hx => absurd hx List.not_mem_nil, List.Pairwise.nil, fun _ => rfl⟩
  rw [finalizeCalls]
  split
  · exact hnone
  rename_i packet _
  split
  · rename_i hdata
    exact hchunk (chunkCalls_increasing env wk packet _ _ fun wk => bufferData_batch wk packet)
      (chunkCalls_sameTransfer hinv h hdata.2 packet _ _)
  split
  · rename_i hparity
    exact hchunk (chunkCalls_increasing env wk packet _ _
      fun wk => bufferParity_batch wk packet (packet.count % batchParityChunks))
      (chunkCalls_sameTransfer hinv h hparity.2 packet _ _)
  split
  · split
    · exact hnone
    · rename_i hok
      refine ⟨fun x hx => ?_, List.pairwise_singleton _ _, fun hf => absurd hf hok⟩
      rw [List.mem_singleton.mp hx]
      exact ⟨.refl wk, h, le_rfl⟩
  · exact hnone

/-- **A datagram that keeps the transfer**: no file is opened or ended, and the batches finalized
are left behind, or the transfer has failed. -/
theorem handlePacket_keeps {env : Env} {wk : Worker} (hinv : wk.Inv env) {raw : Bytes} {p : Str}
    (hp : wk.state.filePath = some p) (hafter : (handlePacket env wk raw).state.filePath = some p) :
    SameTransfer wk (handlePacket env wk raw) ∧
      Increasing wk (handlePacket env wk raw) (finalizeCalls env wk raw) := by
  have hactive : wk.state.filePath.isSome := by simp [hp]
  rw [handlePacket] at hafter ⊢
  rw [finalizeCalls]
  cases hdecode : decodePacket raw with
  | none => exact ⟨⟨rfl, rfl, rfl, rfl, rfl, rfl, rfl⟩, .nil le_rfl id⟩
  | some packet =>
      rw [hdecode] at hafter
      simp only at hafter ⊢
      by_cases hstart : packet.pkgType = pkgTypeStart
      · have hother : ∀ {t : ℕ}, pkgTypeStart ≠ t →
            ¬(packet.pkgType = t ∧ wk.state.filePath.isSome) :=
          fun hne h => hne (hstart.symm.trans h.1)
        have hsame : newFile env wk (Utf8.fromUtf8Lossy packet.data) packet.count packet.pathHash
            ((decodeParityField packet.dataHash).getD 0) = wk := by
          rw [dispatch, if_pos hstart, handleStart] at hafter
          rcases newFile_state hinv (Utf8.fromUtf8Lossy packet.data) packet.count packet.pathHash
            ((decodeParityField packet.dataHash).getD 0) with ⟨-, hsame⟩ | hnew | ⟨-, hopen⟩
          · exact hsame
          · rw [hnew] at hafter
            exact absurd hafter (by simp [ReceiveState.new])
          · rw [hopen] at hafter
            have hpath : some (Utf8.fromUtf8Lossy packet.data) = some p := hafter
            rw [newFile, if_pos (hp.trans hpath.symm)]
        rw [dispatch, if_pos hstart, handleStart, hsame, if_neg (hother (by decide)),
          if_neg (hother (by decide)), if_neg (hother (by decide))]
        exact ⟨.refl wk, .nil le_rfl id⟩
      rw [dispatch, if_neg hstart] at hafter ⊢
      split at hafter
      · rename_i hdata
        rw [if_pos hdata, if_pos hdata]
        exact ⟨handleData_sameTransfer env wk packet, chunkCalls_increasing env wk packet _ _
          fun wk => bufferData_batch wk packet⟩
      rename_i hdata
      split at hafter
      · rename_i hparity
        rw [if_neg hdata, if_pos hparity, if_neg hdata, if_pos hparity]
        exact ⟨handleParity_sameTransfer env wk packet, chunkCalls_increasing env wk packet _ _
          fun wk => bufferParity_batch wk packet _⟩
      rename_i hparity
      split at hafter
      · rw [finishFile_state env hp] at hafter
        exact absurd hafter (by simp [ReceiveState.new])
      rename_i hend
      rw [if_neg hdata, if_neg hparity, if_neg hend, if_neg hdata, if_neg hparity, if_neg hend]
      split
      · exact ⟨⟨rfl, rfl, rfl, rfl, rfl, rfl, rfl⟩, .nil le_rfl id⟩
      · exact ⟨.refl wk, .nil le_rfl id⟩

/-- The transfer of `p` stays in progress while the datagrams are handled. -/
def StaysOpen (env : Env) (wk : Worker) (p : Str) (raws : List Bytes) : Prop :=
  ∀ front, front <+: raws → (run env wk front).state.filePath = some p

/-- **The batches of one transfer**, as long as it is in progress. -/
theorem runFinalizeCalls_increasing {env : Env} {p : Str} (raws : List Bytes) : ∀ {wk : Worker},
    wk.Inv env → StaysOpen env wk p raws →
      SameTransfer wk (run env wk raws) ∧
        Increasing wk (run env wk raws) (runFinalizeCalls env wk raws) := by
  induction raws with
  | nil => exact fun {wk} _ _ => ⟨.refl wk, .nil le_rfl id⟩
  | cons raw raws ih =>
      intro wk hinv hopen
      have hp := hopen [] List.nil_prefix
      have hafter := hopen [raw] ⟨raws, rfl⟩
      obtain ⟨hsame, hinc⟩ := handlePacket_keeps hinv hp hafter
      have hrest : StaysOpen env (handlePacket env wk raw) p raws := fun front hfront =>
        hopen (raw :: front) (List.cons_prefix_cons.mpr ⟨rfl, hfront⟩)
      obtain ⟨hsame', hinc'⟩ := ih (hinv.handlePacket raw).1 hrest
      exact ⟨hsame.trans hsame', hinc.trans hinc'⟩

/-- The calls of a run and of its continuation. -/
theorem runFinalizeCalls_append (env : Env) (raws raws' : List Bytes) : ∀ wk : Worker,
    runFinalizeCalls env wk (raws ++ raws') =
      runFinalizeCalls env wk raws ++ runFinalizeCalls env (run env wk raws) raws' := by
  induction raws with
  | nil => exact fun _ => rfl
  | cons raw raws ih =>
      intro wk
      rw [List.cons_append, runFinalizeCalls, ih, runFinalizeCalls, List.append_assoc, run_cons]

/-- What `finalizeCurrentBatch` is called on in a run. -/
theorem runFinalizeCalls_sized {env : Env} (raws : List Bytes) : ∀ {wk : Worker}, wk.Inv env →
    wk.Sized env → ∀ x ∈ runFinalizeCalls env wk raws, x.Sized env ∧
      ∀ p, x.state.filePath = some p → x.state.output = some ⟨env.partialPath p⟩ := by
  induction raws with
  | nil => exact fun _ _ x hx => absurd hx List.not_mem_nil
  | cons raw raws ih =>
      intro wk hinv h x hx
      rcases List.mem_append.mp hx with hx | hx
      · obtain ⟨hsame, hsized, -⟩ := (finalizeCalls_spec hinv h raw).1 x hx
        exact ⟨hsized, fun p hp => hsame.output.trans (hinv.output p (hsame.filePath ▸ hp))⟩
      · exact ih (hinv.handlePacket raw).1 (h.handlePacket hinv raw) x hx

/-- **Where a transfer comes from**: the file in progress was opened by a START packet and has
been in progress since. -/
theorem exists_opened (env : Env) (fs : Tree) (raws : List Bytes) {p : Str}
    (hp : (run env (.new fs) raws).state.filePath = some p) :
    ∃ pre start packet mid, raws = pre ++ start :: mid ∧ decodePacket start = some packet ∧
      packet.pkgType = pkgTypeStart ∧ Utf8.fromUtf8Lossy packet.data = p ∧
      (run env (.new fs) (pre ++ [start])).state = .opened env p packet.count packet.pathHash
        ((decodeParityField packet.dataHash).getD 0) ∧
      StaysOpen env (run env (.new fs) (pre ++ [start])) p mid := by
  induction raws using List.reverseRecOn with
  | nil => exact absurd hp (by simp [run, Worker.new, ReceiveState.new])
  | append_singleton raws raw ih =>
      have hinv : (run env (.new fs) raws).Inv env := Worker.Inv.run (.of_new rfl) raws
      rw [run_concat] at hp
      by_cases hbefore : (run env (.new fs) raws).state.filePath = some p
      · obtain ⟨pre, start, packet, mid, rfl, hdecode, htype, hpath, hopened, hopen⟩ := ih hbefore
        refine ⟨pre, start, packet, mid ++ [raw], by simp, hdecode, htype, hpath, hopened,
          fun front hfront => ?_⟩
        rcases List.prefix_concat_iff.mp hfront with rfl | hfront
        · have happend : pre ++ [start] ++ (mid ++ [raw]) = pre ++ start :: mid ++ [raw] := by simp
          rw [← run_append, happend, run_concat]
          exact hp
        · exact hopen front hfront
      · rcases (hinv.handlePacket raw).2 p hp with hsame | ⟨packet, hdecode, htype, hpath⟩
        · exact absurd hsame hbefore
        have hstate : (run env (.new fs) (raws ++ [raw])).state =
            .opened env p packet.count packet.pathHash
              ((decodeParityField packet.dataHash).getD 0) := by
          rw [run_concat, handlePacket_of_start hdecode htype, handleStart]
          rw [handlePacket_of_start hdecode htype, handleStart] at hp
          rcases newFile_state hinv (Utf8.fromUtf8Lossy packet.data) packet.count packet.pathHash
            ((decodeParityField packet.dataHash).getD 0) with ⟨hsame, -⟩ | hnew | ⟨-, hopen⟩
          · rw [hpath] at hsame
            exact absurd hsame hbefore
          · rw [hnew] at hp
            exact absurd hp (by simp [ReceiveState.new])
          · rw [hopen, hpath]
        refine ⟨raws, raw, packet, [], rfl, hdecode, htype, hpath, hstate, fun front hfront => ?_⟩
        rw [List.prefix_nil.mp hfront]
        change (run env (.new fs) (raws ++ [raw])).state.filePath = some p
        rw [hstate]
        rfl

/-! ### Every run -/

/-- **Slices, lengths and batches**, in every run, whatever the operating system fails. The slice
of batch `b` of a file of `S` bytes is `[940000 * b, min (940000 * (b + 1)) S)`. Wherever
`finalizeCurrentBatch` is called, and in every state between two datagrams, it writes in the slice
of the current batch of the file under reception, which has the announced length; if it succeeds,
the slice holds the chunks of the batch, buffered or restored. A file that is counted as transferred
has the size announced in the START packet that opened its transfer. From the opening of a transfer
until it ends, no batch is finalized twice. -/
theorem run_writes_slices (env : Env) (fs : Tree) (raws : List Bytes) :
    (∀ b S, batchOffset b = 940000 * b ∧ batchLimit b S = min (940000 * (b + 1)) S) ∧
    (∀ wk p, wk = run env (.new fs) raws ∨ wk ∈ runFinalizeCalls env (.new fs) raws →
      wk.state.filePath = some p →
        Finalizes env (env.partialPath p) wk (finalizeCurrentBatch env wk) ∧
        ∃ d, wk.world.fs.contents (env.locate (env.partialPath p)) = some d ∧
          d.length = wk.state.fileSize) ∧
    (∀ raw, (run env (.new fs) (raws ++ [raw])).stats.filesTransferred ≠
        (run env (.new fs) raws).stats.filesTransferred →
      ∃ p pre start packet mid d, raws = pre ++ start :: mid ∧
        decodePacket start = some packet ∧ packet.pkgType = pkgTypeStart ∧
        Utf8.fromUtf8Lossy packet.data = p ∧
        (run env (.new fs) (pre ++ [start])).state = .opened env p packet.count packet.pathHash
          ((decodeParityField packet.dataHash).getD 0) ∧
        StaysOpen env (run env (.new fs) (pre ++ [start])) p mid ∧
        (run env (.new fs) (raws ++ [raw])).stats.filesTransferred =
          (run env (.new fs) raws).stats.filesTransferred + 1 ∧
        (run env (.new fs) (raws ++ [raw])).world.fs.contents (env.locate (env.finalPath p)) =
          some d ∧ d.length = packet.count) ∧
    (∀ p size pathHash parity mid last,
      (run env (.new fs) raws).state = .opened env p size pathHash parity →
      StaysOpen env (run env (.new fs) raws) p mid →
        ((runFinalizeCalls env (run env (.new fs) raws) (mid ++ [last])).map
          fun wk => wk.state.currentBatch).Pairwise (· < ·)) := by
  have hstart : (Worker.new fs).Inv env := .of_new rfl
  have hinv := hstart.run raws
  have hsized : (run env (.new fs) raws).Sized env := Worker.Sized.run hstart (.of_new rfl) raws
  refine ⟨fun b S => ?_, fun wk p hwk hp => ?_, fun raw hcount => ?_,
    fun p size pathHash parity mid last hopened hopen => ?_⟩
  · rw [batchLimit, batchOffset, batchOffset, batchDataChunks, chunkSize]
    omega
  · rcases hwk with rfl | hwk
    · exact ⟨finalizeCurrentBatch_finalizes env (hinv.output p hp), hsized p hp⟩
    · obtain ⟨hlen, hout⟩ := runFinalizeCalls_sized raws hstart (.of_new rfl) wk hwk
      exact ⟨finalizeCurrentBatch_finalizes env (hout p hp), hlen p hp⟩
  · rw [run_concat] at hcount ⊢
    obtain ⟨p, d, hp, hone, hcontents, hlen⟩ := delivered_length hinv hsized hcount
    obtain ⟨pre, start, packet, mid, rfl, hdecode, htype, hpath, hopened, hopen⟩ :=
      exists_opened env fs raws hp
    refine ⟨p, pre, start, packet, mid, d, rfl, hdecode, htype, hpath, hopened, hopen, hone,
      hcontents, ?_⟩
    have hsame := (runFinalizeCalls_increasing mid (hstart.run (pre ++ [start])) hopen).1
    rw [← run_append, List.append_assoc, List.singleton_append] at hsame
    rw [hlen, hsame.fileSize, hopened]
    rfl
  · obtain ⟨-, hinc⟩ := runFinalizeCalls_increasing mid hinv hopen
    have hinv' := hinv.run mid
    have hsized' := Worker.Sized.run hinv hsized mid
    obtain ⟨hge, hsorted, hfailed⟩ := finalizeCalls_spec hinv' hsized' last
    have hsingle : runFinalizeCalls env (run env (run env (.new fs) raws) mid) [last] =
        finalizeCalls env (run env (run env (.new fs) raws) mid) last := by
      rw [runFinalizeCalls, runFinalizeCalls, List.append_nil]
    rw [runFinalizeCalls_append, hsingle]
    exact hinc.sorted_append hsorted (fun x hx => (hge x hx).2.2) hfailed

/-- With the END packet the file is delivered, in the size of its START packet. -/
theorem run_writes_slices_restoredChunk : ∃ p pre start packet mid d,
    restoredChunk = pre ++ start :: mid ∧ decodePacket start = some packet ∧
      Utf8.fromUtf8Lossy packet.data = p ∧
      (run referenceEnv (.new referenceTree) (restoredChunk ++
        [twoChunks.endPacket])).world.fs.contents
          (referenceEnv.locate (referenceEnv.finalPath p)) = some d ∧ d.length = packet.count := by
  obtain ⟨-, -, hdelivered, -⟩ := run_writes_slices referenceEnv referenceTree restoredChunk
  obtain ⟨old, base, hcollecting⟩ := collecting_restoredChunk
  obtain ⟨p, pre, start, packet, mid, d, hsplit, hdecode, -, hpath, -, -, -, hd, hlen⟩ :=
    hdelivered twoChunks.endPacket (by
      rw [run_concat]
      exact hcollecting.filesTransferred_ne referenceEnv_noFaults twoChunks_small
        enough_restoringIds)
  exact ⟨p, pre, start, packet, mid, d, hsplit, hdecode, hpath, hd, hlen⟩

end DataDiode
