import DataDiode.Invariant
import DataDiode.Progress
import DataDiode.Quiet
import DataDiode.Restore

/-!
# Collecting the Chunks of a File

The receiver in the middle of an honest transfer, while the operating system fails nothing
(`Collecting`): the chunks of the batches before the current one are in the file under
reception, what lies behind them is zero, and the packets gathered of the current batch are
buffered. Every write is on record (`Wrote`).

## Main results

* `Transfer.overwrite_filled`: writing the next chunk at its place.
* `Collecting.finalizeCurrentBatch_ok`: a batch with enough packets is written out.
* `Collecting.finalizeCurrentBatch_error`: a batch with fewer is not.
* `Collecting.next`: the batch after a finalized one.
-/

namespace DataDiode

/-! ### The file under reception -/

namespace Transfer

variable (t : Transfer)

/-- The file with its first `n` chunks written, in its full size. -/
def filled (n : ℕ) : Bytes :=
  t.contents.take (chunkSize * n) ++ List.replicate (t.contents.length - chunkSize * n) 0

/-- With no chunk restored yet there are zeros everywhere. -/
theorem filled_zero : t.filled 0 = List.replicate t.contents.length 0 := by
  rw [filled, Nat.mul_zero, List.take_zero, List.nil_append, Nat.sub_zero]

/-- With all chunks written the file is complete. -/
theorem filled_of_le {n : ℕ} (h : t.chunkCount ≤ n) : t.filled n = t.contents := by
  have hlen : t.contents.length ≤ chunkSize * n := by
    have := t.lt_chunkCount_iff.not.mp (not_lt.mpr h)
    omega
  rw [filled, List.take_of_length_le hlen, Nat.sub_eq_zero_of_le hlen, List.replicate_zero,
    List.append_nil]

/-- Writing the next chunk. -/
theorem overwrite_filled {n : ℕ} (h : n < t.chunkCount) :
    Slices.overwrite (t.filled n) (chunkSize * n) (t.chunkAt n) = t.filled (n + 1) := by
  have hlt := t.lt_chunkCount_iff.mp h
  have hchunk : (t.chunkAt n).length = min chunkSize (t.contents.length - chunkSize * n) :=
    Slices.length_chunk _ _ _
  have hfront : (t.contents.take (chunkSize * n)).length = chunkSize * n := by
    rw [List.length_take]
    omega
  have hzeros : List.replicate (t.contents.length - chunkSize * n) (0 : UInt8) =
      List.replicate (t.chunkAt n).length 0 ++
        List.replicate (t.contents.length - chunkSize * (n + 1)) 0 := by
    have hsum : t.contents.length - chunkSize * n =
        (t.chunkAt n).length + (t.contents.length - chunkSize * (n + 1)) := by
      rw [hchunk, Nat.mul_succ]
      omega
    rw [← List.replicate_add, ← hsum]
  have htake : t.contents.take (chunkSize * n) ++ t.chunkAt n =
      t.contents.take (chunkSize * (n + 1)) := by
    rw [Nat.mul_add, Nat.mul_one, List.take_add]
    rfl
  have hmiddle := Slices.overwrite_middle (t.contents.take (chunkSize * n))
    (List.replicate (t.chunkAt n).length 0)
    (List.replicate (t.contents.length - chunkSize * (n + 1)) 0) (t.chunkAt n)
    (List.length_replicate).symm
  rw [hfront] at hmiddle
  rw [filled, hzeros, ← List.append_assoc, hmiddle, htake, filled]

end Transfer

/-! ### Writing a batch -/

/-- The call that writes a chunk of the file at its place. -/
def Transfer.writeCall (env : Env) (t : Transfer) (i : ℕ) : FsCall :=
  .write (env.partialPath t.path) (chunkSize * i) (t.chunkAt i).length

/-- Since the calls `old`, the first `n` chunks of the file have been written to the file under
reception, and no others. -/
def Wrote (env : Env) (t : Transfer) (old : List FsCall) (n : ℕ) (w : World) : Prop :=
  ∃ new, w.calls = old ++ new ∧ ∀ i < t.chunkCount, (t.writeCall env i ∈ new ↔ i < n)

namespace Wrote

variable {env : Env} {t : Transfer} {old : List FsCall} {n : ℕ} {w w' : World}

/-- A write is none of the calls before it. -/
theorem not_mem_of_upkeep {more : List FsCall} (h : ∀ c ∈ more, c.isWrite = false) (i : ℕ) :
    t.writeCall env i ∉ more := fun hmem => Bool.false_ne_true (h _ hmem).symm

/-- Nothing has been written at first. -/
theorem start {more : List FsCall} (h : w.calls = old ++ more)
    (hmore : ∀ c ∈ more, c.isWrite = false) : Wrote env t old 0 w :=
  ⟨more, h, fun i _ => ⟨fun hmem => absurd hmem (not_mem_of_upkeep hmore i),
    fun hi => absurd hi (Nat.not_lt_zero i)⟩⟩

/-- Calls that write nothing change nothing about it. -/
theorem after (h : Wrote env t old n w) {more : List FsCall} (hcalls : w'.calls = w.calls ++ more)
    (hmore : ∀ c ∈ more, c.isWrite = false) : Wrote env t old n w' := by
  obtain ⟨new, hnew, hwrites⟩ := h
  refine ⟨new ++ more, by rw [hcalls, hnew, List.append_assoc], fun i hi => ?_⟩
  rw [List.mem_append, hwrites i hi]
  exact ⟨fun h => h.elim id fun h => absurd h (not_mem_of_upkeep hmore i), Or.inl⟩

/-- Writing the next chunk. -/
theorem next (h : Wrote env t old n w) (hcalls : w'.calls = w.calls ++ [t.writeCall env n]) :
    Wrote env t old (n + 1) w' := by
  obtain ⟨new, hnew, hwrites⟩ := h
  refine ⟨new ++ [t.writeCall env n], by rw [hcalls, hnew, List.append_assoc], fun i hi => ?_⟩
  rw [List.mem_append, hwrites i hi, List.mem_singleton, Nat.lt_succ_iff_lt_or_eq]
  refine or_congr_right ⟨fun h => ?_, fun h => by rw [h]⟩
  rw [Transfer.writeCall, Transfer.writeCall, FsCall.write.injEq] at h
  exact Nat.eq_of_mul_eq_mul_left (by decide) h.2.1

/-- Past the last chunk, the number does not matter. -/
theorem past (h : Wrote env t old n w) (hn : t.chunkCount ≤ n) {m : ℕ} (hm : t.chunkCount ≤ m) :
    Wrote env t old m w := by
  obtain ⟨new, hnew, hwrites⟩ := h
  exact ⟨new, hnew, fun i hi => (hwrites i hi).trans
    ⟨fun _ => hi.trans_le hm, fun _ => hi.trans_le hn⟩⟩

end Wrote

/-- The world with the first `n` chunks of the file written to the file under reception. -/
structure Filled (env : Env) (t : Transfer) (old : List FsCall) (base : Tree) (n : ℕ)
    (w : World) : Prop where
  holds : Holds env base t.path (t.filled n) w.fs
  wrote : Wrote env t old n w

namespace Filled

variable {env : Env} {t : Transfer} {old : List FsCall} {base : Tree} {n : ℕ} {w w' : World}

/-- Past the last chunk, the number of chunks written does not matter. -/
theorem past (h : Filled env t old base n w) (hn : t.chunkCount ≤ n) {m : ℕ}
    (hm : t.chunkCount ≤ m) : Filled env t old base m w := by
  refine ⟨?_, h.wrote.past hn hm⟩
  rw [t.filled_of_le hm, ← t.filled_of_le hn]
  exact h.holds

/-- Writing chunks one after the other, from number `n` on. -/
theorem writeChunks_ok (henv : env.NoFaults) {state : ReceiveState} {restored : ChunkMap}
    {b k : ℕ} (hchunks : ∀ i < t.batchSize b,
      chunkBytes state restored i = .ok (t.chunkAt (b * batchDataChunks + i))) :
    ∀ {s : ℕ} {w : World}, s + k = t.batchSize b →
      Filled env t old base (b * batchDataChunks + s) w →
      w.cursor = chunkSize * (b * batchDataChunks + s) →
      ∃ w', writeChunks env state restored ⟨env.partialPath t.path⟩ (List.range' s k) w =
          (.ok (), w') ∧
        Filled env t old base (b * batchDataChunks + t.batchSize b) w' := by
  induction k with
  | zero =>
      intro s w hs h _
      exact ⟨w, rfl, by rwa [← hs]⟩
  | succ k ih =>
      intro s w hs h hcursor
      have hlt : s < t.batchSize b := by omega
      have hchunk : b * batchDataChunks + s < t.chunkCount := by
        rw [t.batchSize_eq] at hlt
        omega
      obtain ⟨w₁, hwrite, hholds, hcur, hcalls⟩ := World.writeAll_ok henv h.holds
        (t.chunkAt (b * batchDataChunks + s))
      rw [hcursor, t.overwrite_filled hchunk] at hholds
      rw [hcursor] at hcalls hcur
      have hfilled : Filled env t old base (b * batchDataChunks + s + 1) w₁ :=
        ⟨hholds, h.wrote.next hcalls⟩
      rw [Nat.add_assoc] at hfilled
      rw [List.range'_succ, writeChunks, hchunks s hlt]
      simp only [hwrite]
      rcases Nat.lt_or_ge (b * batchDataChunks + s + 1) t.chunkCount with hmore | hend
      · -- another chunk follows, so this one is full
        refine ih (by omega) hfilled ?_
        have hfull : (t.chunkAt (b * batchDataChunks + s)).length = chunkSize :=
          Slices.length_chunk_of_succ_lt (by decide) hmore
        rw [hcur, hfull, ← Nat.add_assoc]
        exact (Nat.mul_succ _ _).symm
      · have hk : k = 0 := by
          rw [t.batchSize_eq] at hs
          omega
        rw [hk, List.range'_zero]
        refine ⟨w₁, rfl, ?_⟩
        rwa [← hs, hk]

end Filled

/-! ### The state while collecting -/

/-- The receiver collects batch `b` of the file and has gathered the packets `got` of it; the
batches before are written. -/
structure Collecting (env : Env) (t : Transfer) (old : List FsCall) (base : Tree) (b : ℕ)
    (got : List ChunkId) (wk : Worker) : Prop where
  filePath : wk.state.filePath = some t.path
  pathHash : wk.state.pathHash = some (t.pathHash env.toLibs)
  output : wk.state.output = some ⟨env.partialPath t.path⟩
  failed : wk.state.failed = false
  bytes : wk.state.bytesBuffered ≤
    shardSize * (wk.state.dataBuffer.size + wk.state.parityBuffer.size)
  gathered : Gathered env.toLibs t b got wk.state
  ready : Ready env base t.path
  filled : Filled env t old base (b * batchDataChunks) wk.world

namespace Collecting

variable {env : Env} {t : Transfer} {old : List FsCall} {base : Tree} {b : ℕ}
  {got : List ChunkId} {wk : Worker}

/-- Writing out a batch with enough packets. -/
theorem writeBatch_ok (henv : env.NoFaults) (h : Collecting env t old base b got wk)
    (hb : b < t.batchCount) (henough : t.Enough b got) :
    ∃ w', writeBatch env wk.state (t.batchSize b) wk.world = (.ok (), w') ∧
      Filled env t old base (b * batchDataChunks + t.batchSize b) w' := by
  obtain ⟨restored, w₁, hrestore, hfs, hcalls, hchunks⟩ :=
    h.gathered.restoreBatch_ok hb henough wk.world
  have hcurrent := h.gathered.currentBatch
  rw [writeBatch, hrestore, h.output]
  simp only [hcurrent, World.seek_ok henv, List.range_eq_range']
  have hfilled : Filled env t old base (b * batchDataChunks) { w₁ with
      calls := w₁.calls ++ [.seek (env.partialPath t.path) (batchOffset b)]
      cursor := batchOffset b } := by
    refine ⟨?_, h.filled.wrote.after (congrArg (· ++ _) hcalls)
      fun c hc => by rw [List.mem_singleton.mp hc]; rfl⟩
    simp only [hfs]
    exact h.filled.holds
  rw [← Nat.add_zero (b * batchDataChunks)] at hfilled
  refine hfilled.writeChunks_ok henv hchunks (Nat.zero_add _) ?_
  rw [Nat.add_zero, batchOffset, Nat.mul_comm]

/-- **A batch with enough packets** is written out, and the buffers are cleared. -/
theorem finalizeCurrentBatch_ok (henv : env.NoFaults) (h : Collecting env t old base b got wk)
    (henough : t.Enough b got) :
    ∃ w', finalizeCurrentBatch env wk =
        (.ok (), { wk with state := wk.state.clearBuffers, world := w' }) ∧
      Filled env t old base ((b + 1) * batchDataChunks) w' := by
  have hsize : batchDataSize wk.state.currentBatch wk.state.fileSize = t.batchSize b := by
    rw [h.gathered.currentBatch, h.gathered.fileSize]
    rfl
  have hlast := t.batchSize_eq b
  rw [finalizeCurrentBatch, hsize]
  by_cases hzero : t.batchSize b = 0
  · rw [if_pos hzero]
    refine ⟨wk.world, rfl, h.filled.past ?_ ?_⟩
    all_goals
      rw [hzero, batchDataChunks] at hlast
      rw [batchDataChunks]
      omega
  · obtain ⟨w', hwrite, hfilled⟩ :=
      h.writeBatch_ok henv (t.batchSize_pos_iff.mp (Nat.pos_of_ne_zero hzero)) henough
    rw [if_neg hzero, hwrite]
    refine ⟨w', rfl, ?_⟩
    rcases Nat.lt_or_ge (t.batchSize b) batchDataChunks with hshort | hfull
    · refine hfilled.past ?_ ?_
      all_goals
        rw [batchDataChunks] at *
        omega
    · rwa [Nat.le_antisymm (t.batchSize_le b) hfull, ← Nat.succ_mul] at hfilled

/-- A batch with fewer packets is not. -/
theorem finalizeCurrentBatch_error (h : Collecting env t old base b got wk)
    (hmissing : ¬t.Enough b got) : ∃ e, finalizeCurrentBatch env wk = (.error e, wk) := by
  have hsize : batchDataSize wk.state.currentBatch wk.state.fileSize = t.batchSize b := by
    rw [h.gathered.currentBatch, h.gathered.fileSize]
    rfl
  rw [Transfer.Enough, not_le] at hmissing
  obtain ⟨e, herror⟩ := h.gathered.restoreBatch_error hmissing wk.world
  refine ⟨e, ?_⟩
  rw [finalizeCurrentBatch, hsize, if_neg (by omega), writeBatch, herror]

/-- The next batch, with nothing gathered of it. -/
theorem next (h : Collecting env t old base b got wk) {w' : World}
    (hfilled : Filled env t old base ((b + 1) * batchDataChunks) w') :
    Collecting env t old base (b + 1) []
      ({ wk with state := wk.state.clearBuffers, world := w' } : Worker).nextBatch where
  filePath := h.filePath
  pathHash := h.pathHash
  output := h.output
  failed := h.failed
  bytes := Nat.zero_le _
  gathered :=
    { fileSize := h.gathered.fileSize
      parityPerBatch := h.gathered.parityPerBatch
      currentBatch := by
        change wk.state.currentBatch + 1 = b + 1
        rw [h.gathered.currentBatch]
      data := fun i => by
        rw [if_neg List.not_mem_nil]
        exact Std.TreeMap.getElem?_emptyc
      parity := fun j => by
        rw [if_neg List.not_mem_nil]
        exact Std.TreeMap.getElem?_emptyc
      chunks := fun c hc => absurd hc List.not_mem_nil }
  ready := h.ready
  filled := hfilled

end Collecting

end DataDiode
