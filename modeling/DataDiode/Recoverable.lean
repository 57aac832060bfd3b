import DataDiode.Buffers
import DataDiode.Restore

/-!
# When a Batch Can Be Finalized

A batch of `k` chunks is recoverable from any `k` different shards of its code word: data chunks
before the announced end of the file, and parity shards of the announced count. The buffers may
hold more than these. A chunk past the end of the file still belongs to the last batch by its
number, and a parity shard past the announced count is kept too; the decoder passes over both.

What decides whether the decoder is asked at all is the size of the data buffer, chunks past the
end included. A buffer filled up by such chunks counts as complete, and the batch fails for a
missing chunk that could have been reconstructed.

## Main results

* `finalizeCurrentBatch_ok_iff`: when a batch is finalized, given that writing works.
* `finalizeCurrentBatch_ok_iff_recoverable_iff`: in every reachable state a batch is finalized
  exactly if it is recoverable, **unless** chunks past the end fill the buffer up.
-/

namespace DataDiode

open World

/-! ### Shards of the current batch -/

namespace ReceiveState

variable (s : ReceiveState)

/-- The number of data chunks of the current batch. -/
def dataSize : ℕ := batchDataSize s.currentBatch s.fileSize

/-- The buffered data chunks before the announced end of the file. -/
def usableData : List (ℕ × Bytes) :=
  s.dataBuffer.toList.filter (inBatch s.dataSize (s.currentBatch * batchDataChunks))

/-- The buffered parity shards below the announced count. -/
def usableParity : List (ℕ × Bytes) := s.parityBuffer.toList.filter (inBatch s.parityPerBatch 0)

/-- Every data chunk of the batch is buffered. -/
def Complete : Prop :=
  ∀ i < s.dataSize, (s.dataBuffer[s.currentBatch * batchDataChunks + i]?).isSome

/-- The batch is recoverable: there are as many usable shards as it has chunks, or every chunk
is there. -/
def Recoverable : Prop :=
  s.dataSize ≤ s.usableData.length + s.usableParity.length ∨ s.Complete

/-- The size of the data buffer tells the truth about the batch: it is below the number of
chunks, or every chunk is there, or the batch is beyond recovery anyway. Otherwise chunks past
the announced end of the file hide that one before it is missing. -/
def SizeTells : Prop :=
  s.dataBuffer.size < s.dataSize ∨ s.Complete ∨
    s.usableData.length + s.usableParity.length < s.dataSize

end ReceiveState

/-- No seek and no write fails of the operating system's own accord. -/
def Env.WritesSucceed (env : Env) : Prop :=
  ∀ n p o, env.faults n (.seek p o) = none ∧ ∀ len, env.faults n (.write p o len) = none

/-- Writes that the operating system accepts. -/
theorem writeAll_ok_of_writesSucceed {env : Env} (henv : env.WritesSucceed) (w : World) (f : File)
    (chunk : Bytes) : (w.writeAll env f chunk).1 = .ok () := by
  rw [writeAll, call, (henv _ _ _).2]

/-- Seeks that it accepts. -/
theorem seek_ok_of_writesSucceed {env : Env} (henv : env.WritesSucceed) (w : World) (f : File)
    (offset : ℕ) : (w.seek env f offset).1 = .ok () := by
  rw [seek, call, (henv _ _ _).1]

/-- The listed chunks are written if all of them are at hand. -/
theorem writeChunks_ok_iff {env : Env} (henv : env.WritesSucceed) (s : ReceiveState)
    (restored : ChunkMap) (f : File) (is : List ℕ) : ∀ w : World,
    (writeChunks env s restored f is w).1 = .ok () ↔
      ∀ i ∈ is, ∃ chunk, chunkBytes s restored i = .ok chunk := by
  induction is with
  | nil => exact fun w => ⟨fun _ i hi => absurd hi List.not_mem_nil, fun _ => rfl⟩
  | cons i is ih =>
      intro w
      rw [writeChunks]
      cases hchunk : chunkBytes s restored i with
      | error e =>
          refine ⟨fun h => absurd h (by simp), fun h => ?_⟩
          obtain ⟨chunk, hok⟩ := h i List.mem_cons_self
          exact absurd (hchunk.symm.trans hok) (by simp)
      | ok chunk =>
          have hwrite := writeAll_ok_of_writesSucceed henv w f chunk
          simp only
          split
          · rename_i e w' heq
            rw [heq] at hwrite
            exact absurd hwrite (by simp)
          · rename_i w' heq
            rw [ih w', List.forall_mem_cons]
            exact ⟨fun h => ⟨⟨chunk, hchunk⟩, h⟩, fun h => h.2⟩

/-! ### Chunks at hand -/

/-- No chunk is longer than a full one. -/
theorem expectedLen_le (fileSize i : ℕ) : expectedLen fileSize i ≤ chunkSize := by
  have hmod : fileSize % chunkSize < chunkSize := Nat.mod_lt _ (by decide)
  rw [expectedLen]
  split
  · split
    · exact le_rfl
    · exact hmod.le
  · exact le_rfl

/-- The chunks of the batch that are buffered have the length they have to have. -/
def ReceiveState.FullChunks (s : ReceiveState) : Prop :=
  ∀ i < s.dataSize, ∀ data, s.dataBuffer[s.currentBatch * batchDataChunks + i]? = some data →
    data.length = expectedLen s.fileSize (s.currentBatch * batchDataChunks + i)

/-- A chunk is at hand if it is buffered or restored. -/
theorem chunkBytes_ok_iff {s : ReceiveState} (hfull : s.FullChunks) {restored : ChunkMap}
    (hrestored : ∀ (i : ℕ) (shard : Bytes), restored[i]? = some shard → shard.length = shardSize)
    {i : ℕ} (hi : i < s.dataSize) : (∃ chunk, chunkBytes s restored i = .ok chunk) ↔
      (s.dataBuffer[s.currentBatch * batchDataChunks + i]?).isSome ∨ (restored[i]?).isSome := by
  rw [chunkBytes]
  cases hdata : s.dataBuffer[s.currentBatch * batchDataChunks + i]? with
  | some data =>
      have hlen := hfull i hi data hdata
      simp only [hlen, lt_irrefl, if_false]
      exact ⟨fun _ => Or.inl rfl, fun _ => ⟨_, rfl⟩⟩
  | none =>
      cases hget : restored[i]? with
      | some shard =>
          have hlen := hrestored i shard hget
          have hle := expectedLen_le s.fileSize (s.currentBatch * batchDataChunks + i)
          have hshort : ¬(shard.length <
              expectedLen s.fileSize (s.currentBatch * batchDataChunks + i)) := by
            rw [hlen, shardSize]
            rw [chunkSize] at hle
            omega
          simp only [if_neg hshort]
          exact ⟨fun _ => Or.inr rfl, fun _ => ⟨_, rfl⟩⟩
      | none =>
          constructor
          · rintro ⟨chunk, h⟩
            exact absurd h (by simp)
          · rintro (h | h)
            · exact absurd h (by simp)
            · exact absurd h (by simp)

/-! ### Counting -/

namespace ReceiveState

variable {s : ReceiveState}

/-- Not all that is buffered can be used. -/
theorem length_usableData_le : s.usableData.length ≤ s.dataBuffer.size := by
  rw [← Std.TreeMap.length_toList]
  exact List.length_filter_le _ _

/-- Not all parity that is buffered can be used. -/
theorem length_usableParity_le : s.usableParity.length ≤ s.parityBuffer.size := by
  rw [← Std.TreeMap.length_toList]
  exact List.length_filter_le _ _

/-- A complete batch has as many buffered chunks as it needs. -/
theorem Complete.le_size (h : s.Complete) : s.dataSize ≤ s.dataBuffer.size := by
  have hsub : (Finset.range s.dataSize).map
      ⟨fun i => s.currentBatch * batchDataChunks + i, add_right_injective _⟩ ⊆
        s.dataBuffer.keys.toFinset := by
    intro k hk
    obtain ⟨i, hi, rfl⟩ := Finset.mem_map.mp hk
    have hsome := h i (Finset.mem_range.mp hi)
    rw [Std.TreeMap.isSome_getElem?_eq_contains, Std.TreeMap.contains_iff_mem] at hsome
    exact List.mem_toFinset.mpr (Std.TreeMap.mem_keys.mpr hsome)
  have hcard := Finset.card_le_card hsub
  rw [Finset.card_map, Finset.card_range] at hcard
  rw [← Std.TreeMap.length_keys]
  exact hcard.trans (List.toFinset_card_le _)

/-- What a reachable state has buffered can be fed to the decoder. -/
theorem Buffered.feedable (h : s.Buffered) : s.Feedable := by
  refine ⟨fun e he => ?_, fun e he => ?_⟩
  · have hentry := h.data e.1 e.2 (Std.TreeMap.mem_toList_iff_getElem?_eq_some.mp he)
    exact ⟨(Finset.mem_Ico.mp hentry.1).1, hentry.2.2.trans (by decide)⟩
  · exact (h.parity e.1 e.2 (Std.TreeMap.mem_toList_iff_getElem?_eq_some.mp he)).2

/-- A chunk is fed to the decoder if it is buffered. -/
theorem Feedable.mem_originals_iff (h : s.Feedable) {i : ℕ} (hi : i < s.dataSize) :
    i ∈ (s.originals s.dataSize).map Prod.fst ↔
      (s.dataBuffer[s.currentBatch * batchDataChunks + i]?).isSome := by
  rw [originals, List.map_map, List.mem_map]
  constructor
  · rintro ⟨e, he, rfl⟩
    have hmem := (List.mem_filter.mp he).1
    rw [Function.comp_apply, Nat.add_sub_cancel' (h.data e hmem).1,
      Std.TreeMap.mem_toList_iff_getElem?_eq_some.mp hmem]
    rfl
  · intro hsome
    obtain ⟨d, hd⟩ := Option.isSome_iff_exists.mp hsome
    refine ⟨(s.currentBatch * batchDataChunks + i, d), List.mem_filter.mpr
      ⟨Std.TreeMap.mem_toList_iff_getElem?_eq_some.mpr hd, ?_⟩, ?_⟩
    · exact decide_eq_true (by simpa using hi)
    · simp

end ReceiveState

/-! ### Finalizing -/

/-- A buffer that counts as complete: nothing is restored, and the chunks are at hand if all of
them are buffered. -/
theorem restoreBatch_chunkBytes_of_le {env : Env} {s : ReceiveState} (hfull : s.FullChunks)
    (hsize : s.dataSize ≤ s.dataBuffer.size) (w : World) :
    (∃ restored, (restoreBatch env s s.dataSize w).1 = .ok restored ∧
        ∀ i < s.dataSize, ∃ chunk, chunkBytes s restored i = .ok chunk) ↔ s.Complete := by
  have hempty : ∀ i : ℕ, (∅ : ChunkMap)[i]? = none := fun i => Std.TreeMap.getElem?_emptyc
  have hat : ∀ i < s.dataSize, (∃ chunk, chunkBytes s ∅ i = .ok chunk) ↔
      (s.dataBuffer[s.currentBatch * batchDataChunks + i]?).isSome := fun i hi => by
    rw [chunkBytes_ok_iff hfull (fun j shard h => absurd h (by simp)) hi, hempty]
    simp
  rw [restoreBatch, if_pos hsize]
  constructor
  · rintro ⟨restored, hok, hall⟩
    obtain rfl := Except.ok.inj hok
    exact fun i hi => (hat i hi).mp (hall i hi)
  · exact fun hcomplete => ⟨∅, rfl, fun i hi => (hat i hi).mpr (hcomplete i hi)⟩

/-- A buffer that does not count as complete: the chunks are at hand if there are enough shards
for the decoder. -/
theorem restoreBatch_chunkBytes_of_lt {env : Env} {s : ReceiveState} (hbuf : s.Buffered)
    (hfull : s.FullChunks) (hparity : 1 ≤ s.parityPerBatch)
    (hsupports : env.rs.supports s.dataSize s.parityPerBatch = true)
    (hsize : s.dataBuffer.size < s.dataSize) (w : World) :
    (∃ restored, (restoreBatch env s s.dataSize w).1 = .ok restored ∧
        ∀ i < s.dataSize, ∃ chunk, chunkBytes s restored i = .ok chunk) ↔
      s.dataSize ≤ s.usableData.length + s.usableParity.length := by
  have hfeed := hbuf.feedable
  have horiginals : (s.originals s.dataSize).length = s.usableData.length := by
    rw [ReceiveState.originals, List.length_map]
    rfl
  have hrecoveries : s.recoveries = s.usableParity := rfl
  have hdata := s.length_usableData_le
  have hshards := s.length_usableParity_le
  rw [restoreBatch, if_neg (not_le.mpr hsize), if_neg (Nat.one_le_iff_ne_zero.mp hparity)]
  split
  · rename_i hfew
    refine ⟨?_, fun h => by omega⟩
    rintro ⟨restored, hok, -⟩
    exact absurd hok (by simp)
  rw [hfeed.decodeBatch_eq hsupports, horiginals, hrecoveries]
  by_cases henough : s.dataSize ≤ s.usableData.length + s.usableParity.length
  · have henough' : s.dataSize ≤ (s.originals s.dataSize).length + s.recoveries.length := by
      rw [horiginals]
      exact henough
    obtain ⟨hrestored, hlen, hget⟩ := hfeed.getElem?_decoded hsupports henough'
    rw [hrecoveries] at hrestored hlen hget
    rw [if_neg (not_lt.mpr henough)]
    refine ⟨fun _ => henough, fun _ => ⟨_, rfl, fun i hi => ?_⟩⟩
    rw [chunkBytes_ok_iff hfull (fun j shard h => hlen _ ((hget j shard).mp h)) hi,
      ← hfeed.mem_originals_iff hi]
    by_cases hmem : i ∈ (s.originals s.dataSize).map Prod.fst
    · exact Or.inl hmem
    · obtain ⟨d, hd⟩ := hrestored i hi hmem
      rw [(hget i d).mpr hd]
      exact Or.inr rfl
  · rw [if_pos (not_le.mp henough)]
    refine ⟨?_, fun h => absurd h henough⟩
    rintro ⟨restored, hok, -⟩
    exact absurd hok (by simp)

/-- **When the chunks of a batch are at hand**: all are buffered, or too few for a complete
buffer, but enough shards for the decoder. -/
theorem restoreBatch_chunkBytes_iff {env : Env} {s : ReceiveState} (hbuf : s.Buffered)
    (hfull : s.FullChunks) (hparity : 1 ≤ s.parityPerBatch)
    (hsupports : env.rs.supports s.dataSize s.parityPerBatch = true) (w : World) :
    (∃ restored, (restoreBatch env s s.dataSize w).1 = .ok restored ∧
        ∀ i < s.dataSize, ∃ chunk, chunkBytes s restored i = .ok chunk) ↔
      s.Complete ∨ s.dataBuffer.size < s.dataSize ∧
        s.dataSize ≤ s.usableData.length + s.usableParity.length := by
  rcases le_or_gt s.dataSize s.dataBuffer.size with hsize | hsize
  · rw [restoreBatch_chunkBytes_of_le hfull hsize]
    exact ⟨Or.inl, fun h => h.resolve_right fun hlt => absurd hlt.1 (not_lt.mpr hsize)⟩
  · rw [restoreBatch_chunkBytes_of_lt hbuf hfull hparity hsupports hsize]
    exact ⟨fun h => Or.inr ⟨hsize, h⟩,
      fun h => (h.resolve_left fun hcomplete => absurd hcomplete.le_size (not_le.mpr hsize)).2⟩

/-- **When a batch is finalized**, given that writing works. -/
theorem finalizeCurrentBatch_ok_iff {env : Env} (henv : env.WritesSucceed) {wk : Worker}
    {f : File} (hout : wk.state.output = some f) (hbuf : wk.Buffered)
    (hfull : wk.state.FullChunks) (hparity : 1 ≤ wk.state.parityPerBatch)
    (hparity' : wk.state.parityPerBatch ≤ batchParityChunks) (hsize : 0 < wk.state.dataSize) :
    (finalizeCurrentBatch env wk).1 = .ok () ↔
      wk.state.Complete ∨ wk.state.dataBuffer.size < wk.state.dataSize ∧
        wk.state.dataSize ≤ wk.state.usableData.length + wk.state.usableParity.length := by
  have hle : wk.state.dataSize ≤ batchDataChunks := batchDataSize_le _ _
  have hsupports : env.rs.supports wk.state.dataSize wk.state.parityPerBatch = true := by
    rw [batchDataChunks] at hle
    rw [batchParityChunks] at hparity'
    exact env.rs.supports_of_le hsize (by omega) hparity (by omega)
  rw [← restoreBatch_chunkBytes_iff hbuf hfull hparity hsupports wk.world, finalizeCurrentBatch]
  rw [← ReceiveState.dataSize, if_neg (Nat.pos_iff_ne_zero.mp hsize)]
  have hbatch : (writeBatch env wk.state wk.state.dataSize wk.world).1 = .ok () ↔
      ∃ restored, (restoreBatch env wk.state wk.state.dataSize wk.world).1 = .ok restored ∧
        ∀ i < wk.state.dataSize, ∃ chunk, chunkBytes wk.state restored i = .ok chunk := by
    rw [writeBatch, hout]
    split
    · rename_i e w heq
      rw [heq]
      constructor
      · exact fun h => absurd h (by simp)
      · rintro ⟨restored, h, -⟩
        exact absurd h (by simp)
    · rename_i restored w heq
      have hseek := seek_ok_of_writesSucceed henv w f (batchOffset wk.state.currentBatch)
      rw [heq]
      simp only
      split
      · rename_i e w' heq'
        rw [heq'] at hseek
        exact absurd hseek (by simp)
      · rw [writeChunks_ok_iff henv]
        constructor
        · exact fun h => ⟨restored, rfl, fun i hi => h i (List.mem_range.mpr hi)⟩
        · rintro ⟨restored', hok, hall⟩ i hi
          rw [Except.ok.inj hok]
          exact hall i (List.mem_range.mp hi)
  rw [← hbatch]
  split <;> rename_i heq <;> rw [heq]

/-- **A batch is finalized exactly if it is recoverable**, in every state reached by datagrams,
if and only if the size of the data buffer tells the truth: chunks past the announced end of the
file do not fill it up while one before it is missing and could be reconstructed. -/
theorem finalizeCurrentBatch_ok_iff_recoverable_iff (env : Env) (henv : env.WritesSucceed)
    (fs : Tree) (raws : List Bytes) (wk : Worker) (hwk : wk = run env (.new fs) raws)
    (hactive : wk.state.filePath.isSome) (_hfailed : wk.state.failed = false)
    (hparity : 1 ≤ wk.state.parityPerBatch)
    (hparity' : wk.state.parityPerBatch ≤ batchParityChunks) (hsize : 0 < wk.state.dataSize)
    (hfull : wk.state.FullChunks) :
    ((finalizeCurrentBatch env wk).1 = .ok () ↔ wk.state.Recoverable) ↔
      wk.state.SizeTells := by
  have hinv : wk.Inv env := by
    rw [hwk]
    exact Worker.Inv.run (.of_new rfl) raws
  have hbuf : wk.Buffered := by
    rw [hwk]
    exact Worker.Buffered.run (.of_new rfl) (.of_new rfl) raws
  obtain ⟨p, hp⟩ := Option.isSome_iff_exists.mp hactive
  rw [finalizeCurrentBatch_ok_iff henv (hinv.output p hp) hbuf hfull hparity hparity' hsize,
    ReceiveState.Recoverable, ReceiveState.SizeTells]
  simp only [← not_le]
  tauto

/-- The START packet of a file of one byte, and a chunk past its end. -/
noncomputable def pastEnd : List Bytes :=
  [encodePacket pkgTypeStart 1 emptyHash (encodeParityField 100) [97],
    encodePacket pkgTypeData 5 emptyHash (referenceEnv.md5.hex [98]) [98]]

/-- A parity shard of the file. -/
noncomputable def pastEndShard : Bytes :=
  encodePacketInto pkgTypeParity 0 emptyHash
    (referenceEnv.md5.hex (List.replicate shardSize 0)) (List.replicate shardSize 0)

/-- The worker with the chunk past the end of the file and its first parity shard. -/
noncomputable def pastEndWorker : Worker :=
  run referenceEnv (.new referenceTree) (pastEnd ++ [pastEndShard])

/-- The buffer is as large as the batch, but the only chunk of the file is missing. -/
theorem pastEndWorker_state :
    let s := pastEndWorker.state
    s.filePath.isSome ∧ s.failed = false ∧ s.parityPerBatch = 100 ∧ s.dataSize = 1 ∧
      s.dataBuffer[0]? = none ∧ s.currentBatch = 0 ∧ s.dataBuffer.size = 1 ∧
        1 ≤ s.usableParity.length := by
  have hfacts : let s := (run referenceEnv (.new referenceTree) pastEnd).state
      s.filePath.isSome ∧ s.failed = false ∧ s.parityPerBatch = 100 ∧ s.dataSize = 1 ∧
        s.dataBuffer[0]? = none ∧ s.currentBatch = 0 ∧ s.dataBuffer.size = 1 ∧
          s.pathHash = some emptyHash ∧ s.parityBuffer.toList = [] ∧ s.bytesBuffered = 1 := by
    decide +kernel
  obtain ⟨hactive, hfailed, hparity, hsize, hmissing, hbatch, hcount, hpath, hempty, hbytes⟩ :=
    hfacts
  have hnone : (run referenceEnv (.new referenceTree) pastEnd).state.parityBuffer.contains 0 =
      false := by
    rw [← Bool.not_eq_true, Std.TreeMap.contains_iff_mem, ← Std.TreeMap.mem_keys,
      ← Std.TreeMap.map_fst_toList_eq_keys, hempty]
    exact List.not_mem_nil
  have hkeep : pastEndWorker =
      bufferParity (run referenceEnv (.new referenceTree) pastEnd)
        ⟨pkgTypeParity, 0, emptyHash, referenceEnv.md5.hex (List.replicate shardSize 0),
          List.replicate shardSize 0⟩ 0 := by
    have hstep := handlePacket_parity referenceEnv 0 hactive hfailed hpath
      (by decide) (by decide) (List.length_replicate (n := shardSize) (a := 0))
    simp only [hbatch, batchForParity, Nat.zero_div, lt_irrefl, if_false, hfailed, and_self,
      if_true, Nat.zero_mod] at hstep
    rw [pastEndWorker, run_append, ← hstep, pastEndShard, run, List.foldl_cons, List.foldl_nil]
  have hfits : ¬bufferByteLimit <
      saturatingAdd 1 (List.replicate shardSize (0 : UInt8)).length := by
    rw [List.length_replicate]
    decide
  rw [hkeep]
  clear hkeep
  generalize run referenceEnv (.new referenceTree) pastEnd = wk at *
  generalize referenceEnv.md5.hex (List.replicate shardSize 0) = digest
  rw [bufferParity, hnone, if_neg Bool.false_ne_true, hbytes, if_neg hfits]
  refine ⟨hactive, hfailed, hparity, hsize, hmissing, hbatch, hcount, ?_⟩
  refine List.length_pos_iff.mpr (List.ne_nil_of_mem (a := (0, List.replicate shardSize 0)) ?_)
  refine List.mem_filter.mpr ⟨Std.TreeMap.mem_toList_iff_getElem?_eq_some.mpr ?_, ?_⟩
  · exact Std.TreeMap.getElem?_insert_self
  · simp only [inBatch, hparity, decide_eq_true_eq]
    decide

/-- The chunks in the buffer are full. -/
theorem pastEndWorker_fullChunks : pastEndWorker.state.FullChunks := by
  obtain ⟨-, -, -, hsize, hmissing, hbatch, -⟩ := pastEndWorker_state
  intro i hi data hdata
  obtain rfl : i = 0 := by omega
  rw [hbatch, Nat.zero_mul, hmissing] at hdata
  exact absurd hdata (by simp)

/-- In the reference environment all writes succeed. -/
theorem referenceEnv_writesSucceed : referenceEnv.WritesSucceed := fun _ _ _ => ⟨rfl, fun _ => rfl⟩

/-- A recoverable batch that is not finalized: the buffer is filled up by a chunk past the end
of the file. -/
theorem finalizeCurrentBatch_past_end :
    pastEndWorker = run referenceEnv (.new referenceTree) (pastEnd ++ [pastEndShard]) ∧
      pastEndWorker.state.filePath.isSome ∧ pastEndWorker.state.failed = false ∧
      1 ≤ pastEndWorker.state.parityPerBatch ∧
      pastEndWorker.state.parityPerBatch ≤ batchParityChunks ∧ 0 < pastEndWorker.state.dataSize ∧
      pastEndWorker.state.FullChunks ∧ pastEndWorker.state.Recoverable ∧
      (finalizeCurrentBatch referenceEnv pastEndWorker).1 ≠ .ok () := by
  obtain ⟨hactive, hfailed, hparity, hsize, hmissing, hbatch, hcount, hshard⟩ :=
    pastEndWorker_state
  have hpos : 1 ≤ pastEndWorker.state.parityPerBatch := by omega
  have hle : pastEndWorker.state.parityPerBatch ≤ batchParityChunks := by
    rw [hparity]
    decide
  have hstart : (Worker.new referenceTree).Inv referenceEnv := .of_new rfl
  have hinv : pastEndWorker.Inv referenceEnv := hstart.run _
  have hbuf : pastEndWorker.Buffered := Worker.Buffered.run hstart (.of_new rfl) _
  obtain ⟨p, hp⟩ := Option.isSome_iff_exists.mp hactive
  refine ⟨rfl, hactive, hfailed, hpos, hle, by omega, pastEndWorker_fullChunks,
    Or.inl (by omega), ?_⟩
  rw [ne_eq, finalizeCurrentBatch_ok_iff referenceEnv_writesSucceed (hinv.output p hp) hbuf
    pastEndWorker_fullChunks hpos hle (by omega)]
  rintro (hcomplete | ⟨hlt, -⟩)
  · have hsome := hcomplete 0 (by omega)
    rw [hbatch, Nat.zero_mul, hmissing] at hsome
    exact absurd hsome (by simp)
  · omega

/-- The equivalence at that state: neither side holds. -/
theorem finalizeCurrentBatch_ok_iff_recoverable_iff_pastEnd :
    ((finalizeCurrentBatch referenceEnv pastEndWorker).1 = .ok () ↔
      pastEndWorker.state.Recoverable) ↔ pastEndWorker.state.SizeTells := by
  obtain ⟨hactive, hfailed, hparity, hsize, -⟩ := pastEndWorker_state
  exact finalizeCurrentBatch_ok_iff_recoverable_iff referenceEnv referenceEnv_writesSucceed
    referenceTree (pastEnd ++ [pastEndShard]) pastEndWorker rfl hactive hfailed (by omega)
    (by rw [hparity]; decide) (by omega) pastEndWorker_fullChunks

end DataDiode
