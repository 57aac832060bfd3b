import DataDiode.Buffers
import DataDiode.Checked
import DataDiode.Delivery
import DataDiode.UdpTransfer

/-!
# No Datagram Makes the Receiver Panic

The checked receiver computes what the receiver on unbounded integers computes: no slice, index or
integer operation is out of range, whatever the datagrams announce. The sizes and counts of a
packet are texts of ten digits, so batch numbers and positions stay far below `2 ^ 64`; the parity
count is any 64-bit number, and is only compared; the buffers hold chunks of the current batch in
the sizes of the protocol; and a flow in progress is shorter than its announced length.

## Main results

* `ReceiveState.InRange`: what the arithmetic of the worker thread relies on.
* `Checked.finalizeCurrentBatch_eq`, `Checked.advanceBatches_eq`: the batch arithmetic in range.
* `Checked.handlePacket_eq`: one turn of the worker loop, which keeps the invariant.
* `Checked.handle_eq`: one turn of the forwarding thread.
* `checked_eq`: **no panic and no wrap-around**, for every sequence of datagrams.
-/

namespace DataDiode

open World

/-- What the arithmetic of the worker thread relies on. -/
structure ReceiveState.InRange (s : ReceiveState) : Prop where
  fileSize : s.fileSize < countBound
  parityPerBatch : s.parityPerBatch < u64Bound
  currentBatch : s.currentBatch < countBound
  buffered : s.Buffered

namespace ReceiveState.InRange

variable {s : ReceiveState}

/-- Nothing is announced and nothing buffered. -/
theorem of_new (h : s = .new) : s.InRange := by
  rw [h]
  exact ⟨by decide, by decide, by decide, .of_empty rfl rfl rfl⟩

/-- The buffers do not matter once they are cleared, and neither does the number of the batch as
long as it is in range. -/
theorem cleared (h : s.InRange) {b : ℕ} (hb : b < countBound) :
    ({ s.clearBuffers with currentBatch := b } : ReceiveState).InRange :=
  ⟨h.fileSize, h.parityPerBatch, hb, .of_empty rfl rfl rfl⟩

/-- The chunks of a file can be counted. -/
theorem totalChunks_lt (h : s.InRange) : totalChunks s.fileSize < countBound := by
  have hsize := h.fileSize
  simp only [totalChunks, chunkSize, countBound] at hsize ⊢
  omega

/-- The chunks of the current batch have numbers of 64 bits. -/
theorem end_lt (h : s.InRange) : (s.currentBatch + 1) * batchDataChunks + 1 < u64Bound := by
  have hbatch := h.currentBatch
  simp only [batchDataChunks, countBound, u64Bound] at hbatch ⊢
  omega

/-- The first chunk of a batch has a number. -/
theorem start_lt (h : s.InRange) : s.currentBatch * batchDataChunks < u64Bound :=
  lt_of_le_of_lt (Nat.mul_le_mul_right _ (Nat.le_succ _)) ((Nat.lt_succ_self _).trans h.end_lt)

/-- The current batch has a position of 64 bits in the file. -/
theorem offset_lt (h : s.InRange) : s.currentBatch * batchDataChunks * chunkSize < u64Bound := by
  have hbatch := h.currentBatch
  simp only [batchDataChunks, chunkSize, countBound, u64Bound] at hbatch ⊢
  omega

end ReceiveState.InRange

namespace Checked

/-! ### Headers -/

/-- A field of a header. -/
theorem slice_eq {raw : Bytes} {a b : ℕ} (hab : a ≤ b) (hb : b ≤ raw.length) :
    Machine.slice raw a b = some (slice raw a b) := Machine.slice_eq hab hb

/-- A datagram that is long enough for a header has every field of it. -/
theorem decodePacket_eq (raw : Bytes) : decodePacket raw = some (DataDiode.decodePacket raw) := by
  rw [decodePacket, DataDiode.decodePacket]
  split
  · rfl
  rename_i hlen
  simp only [headerSize] at hlen
  rw [slice_eq (by omega) (by omega), slice_eq (by omega) (by omega),
    slice_eq (by omega) (by omega), slice_eq (by omega) (by omega),
    Machine.sliceFrom_eq (by omega)]
  simp only [Option.bind_eq_bind, Option.bind_some]
  cases parseText 256 (slice raw 0 1) with
  | none => rfl
  | some pkgType =>
      cases parseText u64Bound (slice raw 1 11) with
      | none => rfl
      | some count => rfl

/-! ### Batches -/

variable {env : Env} {s : ReceiveState} {wk : Worker}

/-- The size of a batch does not overflow. -/
theorem batchDataSize_eq (h : s.InRange) :
    batchDataSize s.currentBatch s.fileSize =
      some (DataDiode.batchDataSize s.currentBatch s.fileSize) := by
  have htotal : totalChunks s.fileSize < u64Bound := h.totalChunks_lt.trans (by decide)
  rw [batchDataSize, DataDiode.batchDataSize, Machine.fit_eq htotal,
    Machine.fit_eq (h.currentBatch.trans (by decide))]
  simp only [Option.bind_eq_bind, Option.bind_some]
  rw [Machine.mul_eq h.start_lt, Option.bind_some]
  split
  · rfl
  · rename_i hlt
    rw [Machine.sub_eq (by omega), Option.bind_some]

-- Out of range, the product of the batch number overflows.
example : batchDataSize (2 ^ 60) 1 = none := rfl

/-- The copy into the shard is between slices of the same length. -/
theorem padShard_eq (data : Bytes) : padShard data = some (DataDiode.padShard data) := by
  have hlen : min data.length shardSize ≤ shardSize := min_le_right _ _
  rw [padShard]
  simp only [Option.bind_eq_bind]
  rw [Machine.sliceTo_eq (by rwa [List.length_replicate]), Option.bind_some,
    Machine.sliceTo_eq (min_le_left _ _), Option.bind_some,
    Machine.sliceFrom_eq (by rwa [List.length_replicate]), Option.bind_some, if_pos (by
      rw [List.length_take, List.length_take, List.length_replicate]
      omega), DataDiode.padShard, List.drop_replicate]
  congr 2
  · rw [← List.take_take, List.take_of_length_le (List.length_take_le' _ _)]
  · congr 1
    omega

/-- The locals of the finalization of the current batch. -/
abbrev Batch.of (s : ReceiveState) : Batch where
  parityPerBatch := s.parityPerBatch
  dataSize := DataDiode.batchDataSize s.currentBatch s.fileSize
  totalChunks := DataDiode.totalChunks s.fileSize
  lastChunkSizeOverall := if s.fileSize % chunkSize = 0 then chunkSize else s.fileSize % chunkSize
  batchStartChunk := s.currentBatch * batchDataChunks

/-- Feeding the decoder does not overflow. -/
theorem feedOriginal_eq {dataSize start : ℕ} {dec : RsDecoder} {entry : ℕ × Bytes}
    (h : entry.1 < u64Bound) :
    feedOriginal dataSize start dec entry =
      some (DataDiode.feedOriginal dataSize start dec entry) := by
  rw [feedOriginal, DataDiode.feedOriginal, Machine.fit_eq h]
  simp only [Option.bind_eq_bind, Option.bind_some]
  split
  · rfl
  · rw [padShard_eq, Option.bind_some]
    cases dec.addOriginalShard (entry.1 - start) (DataDiode.padShard entry.2) <;> rfl

/-- Feeding the decoder with parity does not overflow. -/
theorem feedRecovery_eq {parityPerBatch : ℕ} {dec : RsDecoder} {entry : ℕ × Bytes}
    (h : entry.1 < u64Bound) :
    feedRecovery parityPerBatch dec entry =
      some (DataDiode.feedRecovery parityPerBatch dec entry) := by
  rw [feedRecovery, DataDiode.feedRecovery, Machine.fit_eq h]
  simp only [Option.bind_eq_bind, Option.bind_some]
  split
  · rfl
  · rename_i hlen
    rw [Machine.sliceTo_eq (by omega), Option.bind_some]
    cases dec.addRecoveryShard entry.1 (entry.2.take shardSize) <;> rfl

/-- The numbers of the buffered chunks are those of the current batch. -/
theorem decodeBatch_eq (h : s.InRange) :
    decodeBatch env s (.of s) =
      some (DataDiode.decodeBatch env s (DataDiode.batchDataSize s.currentBatch s.fileSize)) := by
  have hdata : ∀ e ∈ s.dataBuffer.toList, e.1 < u64Bound := fun e he => by
    have hmem := (h.buffered.data e.1 e.2 (Std.TreeMap.mem_toList_iff_getElem?_eq_some.mp he)).1
    exact (Finset.mem_Ico.mp hmem).2.trans ((Nat.lt_succ_self _).trans h.end_lt)
  have hparity : ∀ e ∈ s.parityBuffer.toList, e.1 < u64Bound := fun e he =>
    (h.buffered.parity e.1 e.2 (Std.TreeMap.mem_toList_iff_getElem?_eq_some.mp he)).1.trans
      (by decide)
  rw [decodeBatch, DataDiode.decodeBatch]
  simp only
  cases RsDecoder.new env.rs (DataDiode.batchDataSize s.currentBatch s.fileSize)
    s.parityPerBatch shardSize with
  | error e => rfl
  | ok dec =>
      simp only [bind, Except.bind]
      rw [Machine.foldExcept_eq (fun dec e he => feedOriginal_eq (hdata e he)), Option.bind_some]
      cases s.dataBuffer.toList.foldlM (DataDiode.feedOriginal _ _) dec with
      | error e => rfl
      | ok dec =>
          simp only
          rw [Machine.foldExcept_eq (fun dec e he => feedRecovery_eq (hparity e he)),
            Option.bind_some]
          cases s.parityBuffer.toList.foldlM (DataDiode.feedRecovery _) dec with
          | error e => rfl
          | ok dec => cases hdecode : dec.decode env.rs <;> simp only [hdecode]

/-- Restoring a batch does not overflow. -/
theorem restoreBatch_eq (h : s.InRange) (w : World) :
    restoreBatch env s (.of s) w = some
      (DataDiode.restoreBatch env s (DataDiode.batchDataSize s.currentBatch s.fileSize) w) := by
  obtain ⟨hdata, hparity⟩ := h.buffered.size_le
  rw [restoreBatch, DataDiode.restoreBatch, decodeBatch_eq h]
  simp only [Option.bind_eq_bind, Option.bind_some]
  by_cases hfull : DataDiode.batchDataSize s.currentBatch s.fileSize ≤ s.dataBuffer.size
  · rw [if_pos hfull, if_pos hfull]
  rw [if_neg hfull, if_neg hfull]
  by_cases hfec : s.parityPerBatch = 0
  · rw [if_pos hfec, if_pos hfec, Machine.sub_eq (by omega), Option.bind_some]
  have hsum : s.dataBuffer.size + s.parityBuffer.size < u64Bound :=
    lt_of_le_of_lt (Nat.add_le_add hdata hparity) (by decide)
  rw [if_neg hfec, if_neg hfec, Machine.add_eq hsum, Option.bind_some]
  by_cases hfew : s.dataBuffer.size + s.parityBuffer.size <
      DataDiode.batchDataSize s.currentBatch s.fileSize
  · rw [if_pos hfew, if_pos hfew]
  · rw [if_neg hfew, if_neg hfew]
    cases DataDiode.decodeBatch env s _ <;> rfl

/-- A chunk of the batch has a number of 64 bits, and is as long as its check says. -/
theorem chunkBytes_eq (h : s.InRange) (restored : ChunkMap) {i : ℕ} (hi : i < batchDataChunks) :
    chunkBytes s (.of s) restored i = some (DataDiode.chunkBytes s restored i) := by
  have hend := h.end_lt
  rw [Nat.succ_mul] at hend
  rw [chunkBytes, DataDiode.chunkBytes]
  simp only [Option.bind_eq_bind]
  rw [Machine.add_eq (by omega), Option.bind_some, Machine.add_eq (by omega), Option.bind_some]
  have hexpected : (if s.currentBatch * batchDataChunks + i + 1 = totalChunks s.fileSize then
      if s.fileSize % chunkSize = 0 then chunkSize else s.fileSize % chunkSize else chunkSize) =
        expectedLen s.fileSize (s.currentBatch * batchDataChunks + i) := rfl
  rw [hexpected]
  cases s.dataBuffer[s.currentBatch * batchDataChunks + i]? with
  | some data =>
      simp only
      split
      · rfl
      · rename_i hlen
        rw [Machine.sliceTo_eq (by omega), Option.bind_some]
  | none =>
      cases restored[i]? with
      | none => rfl
      | some shard =>
          simp only
          split
          · rfl
          · rename_i hlen
            rw [Machine.sliceTo_eq (by omega), Option.bind_some]

/-- Writing chunks does not overflow. -/
theorem writeChunks_eq (h : s.InRange) (restored : ChunkMap) (file : File) {is : List ℕ}
    (his : ∀ i ∈ is, i < batchDataChunks) (w : World) :
    writeChunks env s (.of s) restored file is w =
      some (DataDiode.writeChunks env s restored file is w) := by
  induction is generalizing w with
  | nil => rfl
  | cons i is ih =>
      rw [writeChunks, DataDiode.writeChunks, chunkBytes_eq h restored (his i List.mem_cons_self)]
      simp only [Option.bind_eq_bind, Option.bind_some]
      cases DataDiode.chunkBytes s restored i with
      | error e => rfl
      | ok chunk =>
          simp only
          rcases w.writeAll env file chunk with ⟨_ | _, w'⟩
          · rfl
          · exact ih (fun i hi => his i (List.mem_cons_of_mem _ hi)) w'

/-- Writing a batch does not overflow. -/
theorem writeBatch_eq (h : s.InRange) (w : World) :
    writeBatch env s (.of s) w =
      some (DataDiode.writeBatch env s (DataDiode.batchDataSize s.currentBatch s.fileSize) w) := by
  rw [writeBatch, DataDiode.writeBatch, restoreBatch_eq h]
  simp only [Option.bind_eq_bind, Option.bind_some]
  rcases DataDiode.restoreBatch env s _ w with ⟨e | restored, w⟩
  · rfl
  simp only
  cases s.output with
  | none => rfl
  | some file =>
      simp only [Batch.of]
      rw [Machine.mul_eq h.offset_lt, Option.bind_some, ← batchOffset]
      rcases w.seek env file (batchOffset s.currentBatch) with ⟨_ | _, w'⟩
      · rfl
      · exact writeChunks_eq h restored file
          (fun i hi => (List.mem_range.mp hi).trans_le (batchDataSize_le _ _)) w'

/-- Finalizing a batch does not overflow. -/
theorem finalizeCurrentBatch_eq (h : wk.state.InRange) :
    finalizeCurrentBatch env wk = some (DataDiode.finalizeCurrentBatch env wk) := by
  have hremainder : wk.state.fileSize % chunkSize < u64Bound :=
    (Nat.mod_lt _ (by decide)).trans (by decide)
  rw [finalizeCurrentBatch, DataDiode.finalizeCurrentBatch, Machine.fit_eq h.parityPerBatch,
    batchDataSize_eq h]
  simp only [Option.bind_eq_bind, Option.bind_some]
  split
  · rfl
  rw [Machine.fit_eq (h.totalChunks_lt.trans (by decide)), Option.bind_some,
    Machine.fit_eq hremainder, Option.bind_some,
    Machine.fit_eq (h.currentBatch.trans (by decide)), Option.bind_some,
    Machine.mul_eq h.start_lt, Option.bind_some, writeBatch_eq h, Option.bind_some]
  rcases DataDiode.writeBatch env wk.state _ wk.world with ⟨_ | _, w⟩ <;> rfl

/-- Advancing is in range, and so is where it leads. -/
theorem advanceBatches_eq {n : ℕ} (h : wk.state.InRange)
    (hn : wk.state.currentBatch + n < countBound) :
    advanceBatches env n wk = some (DataDiode.advanceBatches env n wk) ∧
      (DataDiode.advanceBatches env n wk).state.InRange := by
  induction n generalizing wk with
  | zero => exact ⟨rfl, h⟩
  | succ n ih =>
      rw [advanceBatches, DataDiode.advanceBatches]
      by_cases hfailed : wk.state.failed = true
      · rw [if_pos hfailed, if_pos hfailed]
        exact ⟨rfl, h⟩
      have hstate := finalizeCurrentBatch_state env wk
      rw [if_neg hfailed, if_neg hfailed, finalizeCurrentBatch_eq h]
      simp only [Option.bind_eq_bind, Option.bind_some]
      rcases hfinal : DataDiode.finalizeCurrentBatch env wk with ⟨e | ⟨⟩, wk'⟩
      · rw [hfinal] at hstate
        rcases hstate with ⟨-, -, hstate⟩ | ⟨hok, -⟩
        · have h' : wk'.state.InRange := by
            rw [hstate]
            exact h
          exact ⟨rfl, h'.fileSize, h'.parityPerBatch, h'.currentBatch,
            h'.buffered.data, h'.buffered.parity, h'.buffered.bytes⟩
        · exact absurd hok (by simp)
      · rw [hfinal] at hstate
        rcases hstate with ⟨_, herr, -⟩ | ⟨-, hstate⟩
        · exact absurd herr (by simp)
        have hbatch : wk'.state.currentBatch = wk.state.currentBatch := by
          rw [hstate]
          rfl
        have hnext : wk'.nextBatch.state.InRange := by
          rw [Worker.nextBatch, hstate]
          exact h.cleared (by change wk.state.currentBatch + 1 < _; omega)
        have hfits : wk'.state.currentBatch + 1 < u64Bound := by
          rw [hbatch]
          exact lt_of_le_of_lt (by omega) (hn.trans (by decide))
        simp only
        rw [Machine.add_eq hfits, Option.bind_some]
        exact ih hnext (by change wk'.state.currentBatch + 1 + n < _; omega)

/-! ### The worker loop -/

/-- The worker's state is in range after a step that keeps the transfer, the buffers and the range
of the batch number. -/
theorem inRange_of_sameTransfer {wk' : Worker} (h : wk.state.InRange)
    (hsame : SameTransfer wk wk') (hbatch : wk'.state.currentBatch < countBound)
    (hbuffered : wk'.Buffered) : wk'.state.InRange where
  fileSize := by
    rw [hsame.fileSize]
    exact h.fileSize
  parityPerBatch := by
    rw [hsame.parityPerBatch]
    exact h.parityPerBatch
  currentBatch := hbatch
  buffered := hbuffered

/-- A chunk of either kind is handled in range, if keeping it in its batch is. -/
theorem acceptChunk_eq {packet : Packet} {pkgType batch : ℕ} {buffer : Worker → Worker}
    (h : wk.state.InRange) (hbatch : batch < countBound)
    (hbuffer : (isChunkValid env wk.world packet wk.state pkgType).1 = true →
      ∀ wk' : Worker, wk'.state.InRange → batch = wk'.state.currentBatch →
        (buffer wk').state.InRange) :
    acceptChunk env wk packet pkgType batch buffer =
        some (DataDiode.acceptChunk env wk packet pkgType batch buffer) ∧
      (DataDiode.acceptChunk env wk packet pkgType batch buffer).state.InRange := by
  rw [acceptChunk, DataDiode.acceptChunk]
  by_cases hfailed : wk.state.failed = true
  · rw [if_pos hfailed, if_pos hfailed]
    exact ⟨rfl, h⟩
  rw [if_neg hfailed, if_neg hfailed]
  rcases hvalid : isChunkValid env wk.world packet wk.state pkgType with ⟨_ | _, w⟩
  · exact ⟨rfl, h⟩
  obtain ⟨hadvance, hrange⟩ :
      (if wk.state.currentBatch < batch then advanceToBatch env wk batch else some wk) =
          some (if wk.state.currentBatch < batch then DataDiode.advanceToBatch env wk batch
            else wk) ∧
        (if wk.state.currentBatch < batch then DataDiode.advanceToBatch env wk batch
          else wk).state.InRange := by
    by_cases hlt : wk.state.currentBatch < batch
    · rw [if_pos hlt, if_pos hlt]
      exact advanceBatches_eq h (by omega)
    · rw [if_neg hlt, if_neg hlt]
      exact ⟨rfl, h⟩
  simp only [Option.bind_eq_bind]
  rw [hadvance, Option.bind_some]
  generalize (if wk.state.currentBatch < batch then DataDiode.advanceToBatch env wk batch
    else wk) = wk' at hrange ⊢
  refine ⟨rfl, ?_⟩
  split
  · rename_i hcurrent
    exact hbuffer (by rw [hvalid]) wk' hrange hcurrent.2
  · exact hrange

/-- **DATA packets do not overflow**, and leave the state in range. -/
theorem handleData_eq {packet : Packet} (h : wk.state.InRange)
    (hcount : packet.count < countBound) :
    handleData env wk packet = some (DataDiode.handleData env wk packet) ∧
      (DataDiode.handleData env wk packet).state.InRange := by
  have hbatch : batchForData packet.count < countBound :=
    lt_of_le_of_lt (Nat.div_le_self _ _) hcount
  refine acceptChunk_eq h hbatch fun hvalid wk' h' hcurrent => ?_
  refine inRange_of_sameTransfer h' (bufferData_sameTransfer wk' packet) ?_
    (Worker.Buffered.bufferData h'.buffered hcurrent ((isChunkValid_length hvalid).1 rfl)).1
  rw [bufferData_currentBatch]
  exact h'.currentBatch

/-- **PARITY packets do not overflow** either. -/
theorem handleParity_eq {packet : Packet} (h : wk.state.InRange)
    (hcount : packet.count < countBound) :
    handleParity env wk packet = some (DataDiode.handleParity env wk packet) ∧
      (DataDiode.handleParity env wk packet).state.InRange := by
  have hbatch : batchForParity packet.count < countBound :=
    lt_of_le_of_lt (Nat.div_le_self _ _) hcount
  refine acceptChunk_eq h hbatch fun hvalid wk' h' _ => ?_
  refine inRange_of_sameTransfer h' (bufferParity_sameTransfer wk' packet _) ?_
    (Worker.Buffered.bufferParity h'.buffered (Nat.mod_lt _ (by decide))
      ((isChunkValid_length hvalid).2 rfl)).1
  rw [bufferParity_currentBatch]
  exact h'.currentBatch

/-- Finalizing the last batch does not overflow. -/
theorem finalizeLast_eq (h : wk.state.InRange) (relPath : Str) :
    finalizeLast env wk relPath = some (DataDiode.finalizeLast env wk relPath) := by
  rw [finalizeLast, DataDiode.finalizeLast, finalizeCurrentBatch_eq h]
  simp only [Option.bind_eq_bind, Option.bind_some]
  split
  · rfl
  · rcases DataDiode.finalizeCurrentBatch env wk with ⟨_ | _, wk'⟩ <;> rfl

/-- **ENDs do not overflow**. -/
theorem finishFile_eq (h : wk.state.InRange) :
    finishFile env wk = some (DataDiode.finishFile env wk) := by
  rw [finishFile, DataDiode.finishFile]
  cases wk.state.filePath with
  | none => rfl
  | some relPath =>
      simp only [Option.bind_eq_bind]
      rw [finalizeLast_eq h, Option.bind_some]

/-- The parity count of a START packet is a number of 64 bits. -/
theorem parityField_lt (bytes : Bytes) : (decodeParityField bytes).getD 0 < u64Bound := by
  cases hfield : decodeParityField bytes with
  | none => decide
  | some n =>
      rw [decodeParityField, parseText] at hfield
      split at hfield
      · exact (Decimal.parseUnsigned_eq_some_iff.mp hfield).2.2
      · exact absurd hfield (by simp)

/-- What a START announces is in range, since it has been read from ten digits. -/
theorem handleStart_inRange {packet : Packet} (hinv : wk.Inv env) (h : wk.state.InRange)
    (hcount : packet.count < countBound) : (handleStart env wk packet).state.InRange := by
  rcases newFile_state hinv (Utf8.fromUtf8Lossy packet.data) packet.count packet.pathHash
      ((decodeParityField packet.dataHash).getD 0) with ⟨-, hsame⟩ | hnew | ⟨-, hopen⟩
  · rw [handleStart, hsame]
    exact h
  · exact .of_new hnew
  · rw [handleStart, hopen]
    exact ⟨hcount, parityField_lt _, (by decide : 0 < countBound), .of_empty rfl rfl rfl⟩

/-- **One turn of the worker loop** is in range, and so is the state it leaves. -/
theorem handlePacket_eq (hinv : wk.Inv env) (h : wk.state.InRange) (raw : Bytes) :
    handlePacket env wk raw = some (DataDiode.handlePacket env wk raw) ∧
      (DataDiode.handlePacket env wk raw).state.InRange := by
  rw [handlePacket, DataDiode.handlePacket, decodePacket_eq]
  simp only [Option.bind_eq_bind, Option.bind_some]
  cases hdecode : DataDiode.decodePacket raw with
  | none => exact ⟨rfl, h⟩
  | some packet =>
      have hcount := decodePacket_count_lt hdecode
      simp only
      rw [dispatch, DataDiode.dispatch]
      split
      · exact ⟨rfl, handleStart_inRange hinv h hcount⟩
      split
      · exact handleData_eq h hcount
      split
      · exact handleParity_eq h hcount
      split
      · rename_i hend
        obtain ⟨p, hp⟩ := Option.isSome_iff_exists.mp hend.2
        exact ⟨finishFile_eq h, .of_new (finishFile_state env hp)⟩
      split <;> exact ⟨rfl, h⟩

/-- A run is in range. -/
theorem run_eq (hinv : wk.Inv env) (h : wk.state.InRange) (raws : List Bytes) :
    run env wk raws = some (DataDiode.run env wk raws) := by
  induction raws generalizing wk with
  | nil => rfl
  | cons raw raws ih =>
      obtain ⟨hstep, hrange⟩ := handlePacket_eq hinv h raw
      rw [run, List.foldlM_cons, hstep, run_cons]
      exact ih (hinv.handlePacket raw).1 hrange

/-! ### The forwarding thread -/

/-- What the arithmetic of the forwarding thread relies on. -/
structure FlowInRange (fwd : UdpForwardState) : Prop where
  wellFormed : fwd.WellFormed
  previousCount : fwd.previousCount < countBound

/-- Without a flow there is nothing to overflow. -/
theorem flowInRange_reset (fwd : UdpForwardState) : FlowInRange fwd.reset :=
  ⟨fwd.wellFormed_reset, (by decide : 0 < countBound)⟩

/-- An accepted fragment leaves its own number as the previous one. -/
theorem previousCount_of_accepts {fwd flow : UdpForwardState} {a : Arrival}
    (h : Accepts fwd a flow) : flow.previousCount = a.packet.count := by
  rcases h with h | h
  · rw [h.flow_eq, h.count]
  · rw [h.flow_eq]

/-- What a packet of the forwarder leaves is in range. -/
theorem flowInRange_handle {f : Forwarder} {a : Arrival} (h : FlowInRange f.fwd)
    (hcount : a.packet.count < countBound) : FlowInRange (f.handle a).fwd := by
  refine ⟨UdpForwardState.wellFormed_handle h.wellFormed a, ?_⟩
  cases f.handle_effect a with
  | ignored hfwd hsent =>
      rw [hfwd]
      exact h.previousCount
  | dropped hid hfwd hsent =>
      rw [hfwd]
      exact (flowInRange_reset _).previousCount
  | accepted haccept hpart hsent =>
      rw [previousCount_of_accepts haccept]
      exact hcount
  | completed flow haccept hfull hfwd hsent =>
      rw [hfwd]
      exact (flowInRange_reset _).previousCount

/-- A flow in progress is shorter than its announced length, and its fragments are numbered by
ten digits. -/
theorem handleNext_eq {f : Forwarder} (h : FlowInRange f.fwd) (a : Arrival) (declaredSize : ℕ) :
    handleNext f a a.packet.flowId declaredSize = some (f.handleNext a declaredSize) := by
  rw [handleNext, Forwarder.handleNext]
  by_cases hid : f.fwd.currentId ≠ some a.packet.flowId
  · rw [if_pos hid, if_pos (Or.inl hid)]
  have hnext : f.fwd.previousCount + 1 < u64Bound :=
    lt_of_le_of_lt h.previousCount (by decide)
  have hlt : f.fwd.fullPacket.length < f.fwd.expectedSize :=
    (h.wellFormed.active fun hnone => hid (by simp [hnone])).2.1
  rw [if_neg hid, Machine.add_eq hnext]
  simp only [Option.bind_eq_bind, Option.bind_some]
  by_cases hcount : a.packet.count ≠ f.fwd.previousCount + 1
  · rw [if_pos hcount, if_pos (Or.inr hcount)]
  rw [if_neg hcount, if_neg (not_or.mpr ⟨hid, hcount⟩), Machine.sub_eq hlt.le, Option.bind_some]
  split
  · rfl
  · split <;> rfl

/-- **One turn of the forwarding thread** is in range. -/
theorem handle_eq {f : Forwarder} {a : Arrival} (h : FlowInRange f.fwd)
    (hhash : 8 ≤ a.packet.dataHash.length) : handle f a = some (f.handle a) := by
  rw [handle, Forwarder.handle, Machine.sliceTo_eq hhash]
  cases a.packet.declaredSize with
  | none => rfl
  | some declaredSize =>
      simp only [Option.bind_eq_bind, Option.bind_some]
      split
      · rfl
      · exact handleNext_eq h a declaredSize

/-- The forwarding thread on decoded packets is in range. -/
theorem forwardUdpPackets_eq {f : Forwarder} (h : FlowInRange f.fwd) {as : List Arrival}
    (has : ∀ a ∈ as, ∃ raw, DataDiode.decodePacket raw = some a.packet) :
    forwardUdpPackets f as = some (DataDiode.forwardUdpPackets f as) := by
  induction as generalizing f with
  | nil => rfl
  | cons a as ih =>
      obtain ⟨raw, hdecode⟩ := has a List.mem_cons_self
      have hhash := (decodePacket_hash_length hdecode).2
      rw [forwardUdpPackets, List.foldlM_cons, handle_eq h (by omega)]
      exact ih (flowInRange_handle h (decodePacket_count_lt hdecode))
        fun a ha => has a (List.mem_cons_of_mem _ ha)

end Checked

/-! ### No panic -/

/-- **No datagram makes the receiver panic or wrap**: on every sequence of datagrams, whatever the
operating system fails, every slice and every integer operation of the worker loop is in range,
and so it is in the forwarding thread, on packets decoded from the datagrams, in any order and at
any time. -/
theorem checked_eq (env : Env) (fs : Tree) (raws : List Bytes) (now : ℕ) (as : List Arrival)
    (has : ∀ a ∈ as, ∃ raw ∈ raws, decodePacket raw = some a.packet) :
    Checked.run env (.new fs) raws = some (run env (.new fs) raws) ∧
      Checked.forwardUdpPackets (.new now) as = some (forwardUdpPackets (.new now) as) := by
  have hidle : Checked.FlowInRange (Forwarder.new now).fwd :=
    ⟨⟨fun _ => ⟨rfl, rfl, rfl⟩, fun h => absurd rfl h⟩, (by decide : 0 < countBound)⟩
  refine ⟨Checked.run_eq (.of_new rfl) (.of_new rfl) raws,
    Checked.forwardUdpPackets_eq hidle fun a ha => ?_⟩
  obtain ⟨raw, -, hdecode⟩ := has a ha
  exact ⟨raw, hdecode⟩

/-- A transfer of two chunks, of which one is restored, and a datagram of two fragments. -/
noncomputable def mixedTraffic : List Bytes :=
  restoredChunk ++ [twoChunks.endPacket] ++ udpFragments longDatagram

/-- The transfer and the datagram, in the worker and in the forwarding thread. -/
theorem checked_eq_mixed :
    Checked.run referenceEnv (.new referenceTree) mixedTraffic =
        some (run referenceEnv (.new referenceTree) mixedTraffic) ∧
      Checked.forwardUdpPackets (.new 0) (longDatagram.packets.map Packet.atOnce) =
        some (forwardUdpPackets (.new 0) (longDatagram.packets.map Packet.atOnce)) := by
  refine checked_eq referenceEnv referenceTree mixedTraffic 0 _ fun a ha => ?_
  obtain ⟨p, hp, rfl⟩ := List.mem_map.mp ha
  have hdecoded : some p ∈ (udpFragments longDatagram).map decodePacket := by
    rw [map_decodePacket_udpFragments longDatagram_sendable]
    exact List.mem_map_of_mem hp
  obtain ⟨raw, hraw, hdecode⟩ := List.mem_map.mp hdecoded
  exact ⟨raw, List.mem_append_right _ hraw, hdecode⟩

end DataDiode
