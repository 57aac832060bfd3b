import DataDiode.Invariant

/-!
# What the Receiver Holds in Memory

The invariant of the receive state under any traffic: the buffered chunks belong to the current
batch and have the sizes of the protocol, and the byte counter is the sum of their lengths. A
batch has room for a bounded number of chunks of each kind, so the counter stays far below the
limit at which the receiver would give a transfer up.

## Main results

* `ReceiveState.Buffered.bytesBuffered_le`: the memory held for one batch.
* `Worker.Buffered.handlePacket`, `Worker.Buffered.run`: the invariant, step by step and for every
  run.
-/

namespace DataDiode

open World

/-! ### The bytes of a buffer -/

namespace ChunkMap

/-- The sum of the lengths of all buffered chunks. -/
def bytes (m : ChunkMap) : ℕ := (m.toList.map fun e => e.2.length).sum

/-- Nothing is buffered at first. -/
theorem bytes_empty : bytes ∅ = 0 := rfl

/-- A new chunk adds its length. -/
theorem bytes_insert {m : ChunkMap} {k : ℕ} (hk : ¬m.contains k = true) (d : Bytes) :
    bytes (m.insert k d) = bytes m + d.length := by
  have hrest : (m.toList.filter fun e => ¬(k == e.1) = true) = m.toList := by
    refine List.filter_eq_self.mpr fun e he => ?_
    have hmem : e.1 ∈ m := Std.TreeMap.mem_keys.mp (by
      rw [← Std.TreeMap.map_fst_toList_eq_keys]
      exact List.mem_map_of_mem he)
    rw [decide_eq_true_eq, beq_iff_eq]
    rintro rfl
    exact hk (Std.TreeMap.contains_iff_mem.mpr hmem)
  have hperm : (m.insert k d).toList.Perm ((k, d) :: m.toList) := by
    have h : (m.insert k d).toList.Perm ((k, d) :: m.toList.filter fun e => ¬(k == e.1) = true) :=
      Std.TreeMap.toList_insert_perm
    rwa [hrest] at h
  rw [bytes, bytes, (hperm.map _).sum_eq, List.map_cons, List.sum_cons, Nat.add_comm]

/-- A buffer has no more chunks than numbers for them. -/
theorem size_le {m : ChunkMap} {s : Finset ℕ} (h : ∀ k d, m[k]? = some d → k ∈ s) :
    m.size ≤ s.card := by
  rw [← Std.TreeMap.length_toList, ← List.length_map Prod.fst, ← List.toFinset_card_of_nodup (by
    rw [Std.TreeMap.map_fst_toList_eq_keys]
    exact Std.TreeMap.nodup_keys)]
  refine Finset.card_le_card fun k hk => ?_
  obtain ⟨e, he, rfl⟩ := List.mem_map.mp (List.mem_toFinset.mp hk)
  exact h e.1 e.2 (Std.TreeMap.mem_toList_iff_getElem?_eq_some.mp he)

/-- Chunks of bounded length under finitely many numbers have a bounded sum. -/
theorem bytes_le {m : ChunkMap} {s : Finset ℕ} {n : ℕ}
    (h : ∀ k d, m[k]? = some d → k ∈ s ∧ d.length ≤ n) : bytes m ≤ s.card * n := by
  have hsum : bytes m ≤ m.size * n := by
    have hle := List.sum_le_card_nsmul (m.toList.map fun e => e.2.length) n (by
      intro x hx
      obtain ⟨e, he, rfl⟩ := List.mem_map.mp hx
      exact (h e.1 e.2 (Std.TreeMap.mem_toList_iff_getElem?_eq_some.mp he)).2)
    rwa [List.length_map, smul_eq_mul, Std.TreeMap.length_toList] at hle
  exact hsum.trans (Nat.mul_le_mul_right n (size_le fun k d hk => (h k d hk).1))

/-- The entries after a chunk has been added. -/
theorem getElem?_insert_eq_some {m : ChunkMap} {k i : ℕ} {d d' : Bytes}
    (h : (m.insert k d)[i]? = some d') : i = k ∧ d' = d ∨ m[i]? = some d' := by
  rw [Std.TreeMap.getElem?_insert] at h
  split at h
  · rename_i heq
    rw [Std.LawfulEqOrd.compare_eq_iff_eq] at heq
    exact Or.inl ⟨heq.symm, (Option.some.inj h).symm⟩
  · exact Or.inr h

end ChunkMap

/-! ### The invariant -/

/-- The numbers of the data chunks of a batch. -/
def batchNumbers (batch : ℕ) : Finset ℕ :=
  Finset.Ico (batch * batchDataChunks) ((batch + 1) * batchDataChunks)

/-- The memory held for a batch at most. -/
def batchBytes : ℕ := batchDataChunks * chunkSize + batchParityChunks * shardSize

/-- The buffers hold chunks of the current batch, and the counter their lengths. -/
structure ReceiveState.Buffered (s : ReceiveState) : Prop where
  data : ∀ k d, s.dataBuffer[k]? = some d →
    k ∈ batchNumbers s.currentBatch ∧ 1 ≤ d.length ∧ d.length ≤ chunkSize
  parity : ∀ k d, s.parityBuffer[k]? = some d → k < batchParityChunks ∧ d.length = shardSize
  bytes : s.bytesBuffered = ChunkMap.bytes s.dataBuffer + ChunkMap.bytes s.parityBuffer

/-- A batch has a thousand numbers. -/
theorem card_batchNumbers (batch : ℕ) : (batchNumbers batch).card = batchDataChunks := by
  rw [batchNumbers, Nat.card_Ico, Nat.succ_mul, Nat.add_sub_cancel_left]

/-- A batch has no more data chunks than numbers. -/
theorem batchDataSize_le (batchIdx fileSize : ℕ) :
    batchDataSize batchIdx fileSize ≤ batchDataChunks := by
  rw [batchDataSize]
  split
  · exact Nat.zero_le _
  · exact min_le_right _ _

/-- A data chunk is in the batch of its number. -/
theorem mem_batchNumbers (count : ℕ) : count ∈ batchNumbers (batchForData count) := by
  rw [batchNumbers, Finset.mem_Ico, batchForData, batchDataChunks]
  omega

namespace ReceiveState.Buffered

variable {s : ReceiveState}

/-- Empty buffers. -/
theorem of_empty (hdata : s.dataBuffer = ∅) (hparity : s.parityBuffer = ∅)
    (hbytes : s.bytesBuffered = 0) : s.Buffered := by
  refine ⟨fun k d h => ?_, fun k d h => ?_, ?_⟩
  · rw [hdata, Std.TreeMap.getElem?_emptyc] at h
    exact absurd h (by simp)
  · rw [hparity, Std.TreeMap.getElem?_emptyc] at h
    exact absurd h (by simp)
  · rw [hbytes, hdata, hparity, ChunkMap.bytes_empty]

/-- The number of chunks held for one batch. -/
theorem size_le (h : s.Buffered) :
    s.dataBuffer.size ≤ batchDataChunks ∧ s.parityBuffer.size ≤ batchParityChunks := by
  constructor
  · have hle := ChunkMap.size_le fun k d hk => (h.data k d hk).1
    rwa [card_batchNumbers] at hle
  · have hle := ChunkMap.size_le fun k d hk => Finset.mem_range.mpr (h.parity k d hk).1
    rwa [Finset.card_range] at hle

/-- **The memory held for one batch** is bounded. -/
theorem bytesBuffered_le (h : s.Buffered) : s.bytesBuffered ≤ batchBytes := by
  have hdata : ChunkMap.bytes s.dataBuffer ≤ (batchNumbers s.currentBatch).card * chunkSize :=
    ChunkMap.bytes_le fun k d hk => ⟨(h.data k d hk).1, (h.data k d hk).2.2⟩
  have hparity : ChunkMap.bytes s.parityBuffer ≤
      (Finset.range batchParityChunks).card * shardSize :=
    ChunkMap.bytes_le fun k d hk =>
      ⟨Finset.mem_range.mpr (h.parity k d hk).1, (h.parity k d hk).2.le⟩
  rw [card_batchNumbers] at hdata
  rw [Finset.card_range] at hparity
  rw [h.bytes, batchBytes]
  exact Nat.add_le_add hdata hparity

/-- One more chunk of the protocol stays within the byte limit, and is added without
saturation. -/
theorem room (h : s.Buffered) {n : ℕ} (hn : n ≤ shardSize) :
    ¬bufferByteLimit < saturatingAdd s.bytesBuffered n ∧
      saturatingAdd s.bytesBuffered n = s.bytesBuffered + n := by
  have hle := h.bytesBuffered_le
  simp only [batchBytes, batchDataChunks, chunkSize, batchParityChunks, shardSize] at hle hn
  have hexact : saturatingAdd s.bytesBuffered n = s.bytesBuffered + n := by
    rw [saturatingAdd, u64Bound]
    exact min_eq_left (by omega)
  rw [hexact, bufferByteLimit]
  exact ⟨by omega, rfl⟩

end ReceiveState.Buffered

/-! ### The handlers -/

/-- The worker's buffers hold chunks of the current batch. -/
def Worker.Buffered (wk : Worker) : Prop := wk.state.Buffered

/-- A valid chunk has the size of its kind. -/
theorem isChunkValid_length {env : Env} {w : World} {packet : Packet} {state : ReceiveState}
    {pkgType : ℕ} (h : (isChunkValid env w packet state pkgType).1 = true) :
    (pkgType = pkgTypeData → 1 ≤ packet.data.length ∧ packet.data.length ≤ chunkSize) ∧
      (pkgType = pkgTypeParity → packet.data.length = shardSize) := by
  rw [isChunkValid] at h
  split at h
  · exact absurd h (by simp)
  split at h
  · exact absurd h (by simp)
  rename_i hdata
  split at h
  · exact absurd h (by simp)
  rename_i hparity
  refine ⟨fun htype => ?_, fun htype => ?_⟩
  · by_contra hlen
    exact hdata ⟨htype, hlen⟩
  · by_contra hlen
    exact hparity ⟨htype, hlen⟩

/-- A chunk of the transfer in progress, of the size of its kind and with its own digest, is
valid. -/
theorem isChunkValid_of_digest {env : Env} {packet : Packet} {state : ReceiveState} (w : World)
    {pkgType : ℕ} (hpath : state.pathHash = some packet.pathHash)
    (hdata : pkgType = pkgTypeData → 1 ≤ packet.data.length ∧ packet.data.length ≤ chunkSize)
    (hparity : pkgType = pkgTypeParity → packet.data.length = shardSize)
    (hdigest : packet.dataHash = env.md5.hex packet.data) :
    isChunkValid env w packet state pkgType = (true, w) := by
  rw [isChunkValid, if_neg (fun h => h.2 hpath), if_neg (fun h => h.2 (hdata h.1)),
    if_neg (fun h => h.2 (hparity h.1)), if_neg (fun h => h hdigest.symm)]

/-- **A parity shard of the transfer in progress** is taken for the batch of its number. -/
theorem handlePacket_parity (env : Env) {wk : Worker} (count : ℕ) {pathHash data : Bytes}
    (hactive : wk.state.filePath.isSome) (hfailed : wk.state.failed = false)
    (hpath : wk.state.pathHash = some pathHash) (hhash : pathHash.length = 32)
    (hcount : count < countBound) (hlen : data.length = shardSize) :
    handlePacket env wk (encodePacketInto pkgTypeParity count pathHash (env.md5.hex data) data) =
      let wk' := if wk.state.currentBatch < batchForParity count then
        advanceToBatch env wk (batchForParity count) else wk
      if wk'.state.failed = false ∧ batchForParity count = wk'.state.currentBatch then
        bufferParity wk' ⟨pkgTypeParity, count, pathHash, env.md5.hex data, data⟩
          (count % batchParityChunks)
      else wk' := by
  have hdecode : decodePacket
      (encodePacketInto pkgTypeParity count pathHash (env.md5.hex data) data) =
        some ⟨pkgTypeParity, count, pathHash, env.md5.hex data, data⟩ :=
    decodePacket_encodePacket _ (by decide) hcount hhash (env.md5.length_hex _)
  have hvalid : isChunkValid env wk.world
      ⟨pkgTypeParity, count, pathHash, env.md5.hex data, data⟩ wk.state pkgTypeParity =
        (true, wk.world) :=
    isChunkValid_of_digest wk.world hpath (fun h => absurd h (by decide)) (fun _ => hlen) rfl
  have hfirst : ¬(pkgTypeParity = pkgTypeStart) := by decide
  have hsecond : ¬(pkgTypeParity = pkgTypeData ∧ wk.state.filePath.isSome) :=
    fun h => absurd h.1 (by decide)
  rw [handlePacket, hdecode]
  simp only
  rw [dispatch, if_neg hfirst, if_neg hsecond, if_pos ⟨rfl, hactive⟩, handleParity, acceptChunk,
    if_neg (by rw [hfailed]; exact Bool.false_ne_true), hvalid]

namespace Worker.Buffered

variable {wk : Worker}

/-- Nothing is buffered without a transfer. -/
theorem of_new (h : wk.state = .new) : wk.Buffered := by
  rw [Worker.Buffered, h]
  exact .of_empty rfl rfl rfl

/-- A transfer that has just been opened has nothing in its buffers. -/
theorem of_opened {env : Env} {p : Str} {size : ℕ} {pathHash : Bytes} {parity : ℕ}
    (h : wk.state = .opened env p size pathHash parity) : wk.Buffered := by
  rw [Worker.Buffered, h]
  exact .of_empty rfl rfl rfl

/-- A data chunk of the current batch is kept, and no limit is met. -/
theorem bufferData (h : wk.Buffered) {packet : Packet}
    (hbatch : batchForData packet.count = wk.state.currentBatch)
    (hlen : 1 ≤ packet.data.length ∧ packet.data.length ≤ chunkSize) :
    (bufferData wk packet).Buffered ∧ (DataDiode.bufferData wk packet).world = wk.world := by
  obtain ⟨hfits, hexact⟩ := h.room (hlen.2.trans (by decide))
  rw [DataDiode.bufferData]
  by_cases hnew : wk.state.dataBuffer.contains packet.count = true
  · rw [if_pos hnew]
    exact ⟨h, rfl⟩
  rw [if_neg hnew, if_neg hfits]
  refine ⟨⟨fun k d hk => ?_, h.parity, ?_⟩, rfl⟩
  · rcases ChunkMap.getElem?_insert_eq_some hk with ⟨rfl, rfl⟩ | hk
    · exact ⟨hbatch ▸ mem_batchNumbers packet.count, hlen⟩
    · exact h.data k d hk
  · change saturatingAdd wk.state.bytesBuffered packet.data.length =
      ChunkMap.bytes (wk.state.dataBuffer.insert packet.count packet.data) +
        ChunkMap.bytes wk.state.parityBuffer
    rw [hexact, ChunkMap.bytes_insert hnew, h.bytes]
    omega

/-- A parity shard is kept, and no limit is met. -/
theorem bufferParity (h : wk.Buffered) {packet : Packet} {i : ℕ} (hi : i < batchParityChunks)
    (hlen : packet.data.length = shardSize) :
    (bufferParity wk packet i).Buffered ∧
      (DataDiode.bufferParity wk packet i).world = wk.world := by
  obtain ⟨hfits, hexact⟩ := h.room hlen.le
  rw [DataDiode.bufferParity]
  by_cases hnew : wk.state.parityBuffer.contains i = true
  · rw [if_pos hnew]
    exact ⟨h, rfl⟩
  rw [if_neg hnew, if_neg hfits]
  refine ⟨⟨h.data, fun k d hk => ?_, ?_⟩, rfl⟩
  · rcases ChunkMap.getElem?_insert_eq_some hk with ⟨rfl, rfl⟩ | hk
    · exact ⟨hi, hlen⟩
    · exact h.parity k d hk
  · change saturatingAdd wk.state.bytesBuffered packet.data.length =
      ChunkMap.bytes wk.state.dataBuffer +
        ChunkMap.bytes (wk.state.parityBuffer.insert i packet.data)
    rw [hexact, ChunkMap.bytes_insert hnew, h.bytes, Nat.add_assoc]

end Worker.Buffered

/-- Finalizing a batch clears its buffers, or leaves the state as it is. -/
theorem finalizeCurrentBatch_state (env : Env) (wk : Worker) :
    (∃ e, (finalizeCurrentBatch env wk).1 = .error e ∧
        (finalizeCurrentBatch env wk).2.state = wk.state) ∨
      (finalizeCurrentBatch env wk).1 = .ok () ∧
        (finalizeCurrentBatch env wk).2.state = wk.state.clearBuffers := by
  rw [finalizeCurrentBatch]
  split
  · exact Or.inr ⟨rfl, rfl⟩
  · split
    · rename_i e w heq
      exact Or.inl ⟨e, rfl, rfl⟩
    · exact Or.inr ⟨rfl, rfl⟩

/-- Advancing keeps the invariant: a batch that is left behind has been cleared, and the one
that could not be finalized stays the current one. -/
theorem advanceBatches_buffered (env : Env) (n : ℕ) : ∀ {wk : Worker}, wk.Buffered →
    (advanceBatches env n wk).Buffered := by
  induction n with
  | zero => exact fun h => h
  | succ n ih =>
      intro wk h
      rw [advanceBatches]
      split
      · exact h
      have hstate := finalizeCurrentBatch_state env wk
      split
      · rename_i e wk' heq
        rw [heq] at hstate
        rcases hstate with ⟨e', -, hstate⟩ | ⟨hok, -⟩
        · have h' : wk'.Buffered := by
            rw [Worker.Buffered, hstate]
            exact h
          exact ⟨h'.data, h'.parity, h'.bytes⟩
        · exact absurd hok (by simp)
      · rename_i wk' heq
        rw [heq] at hstate
        rcases hstate with ⟨e', herr, -⟩ | ⟨-, hstate⟩
        · exact absurd herr (by simp)
        · have hnext : wk'.nextBatch.state =
              { wk.state.clearBuffers with currentBatch := wk'.state.currentBatch + 1 } := by
            rw [Worker.nextBatch, hstate]
          refine ih ?_
          rw [Worker.Buffered, hnext]
          exact .of_empty rfl rfl rfl

/-- A chunk of either kind keeps the invariant, if keeping it in its batch does. -/
theorem acceptChunk_buffered {env : Env} {wk : Worker} (h : wk.Buffered) {packet : Packet}
    {pkgType batch : ℕ} {buffer : Worker → Worker}
    (hbuffer : (isChunkValid env wk.world packet wk.state pkgType).1 = true →
      ∀ wk' : Worker, wk'.Buffered → batch = wk'.state.currentBatch → (buffer wk').Buffered) :
    (acceptChunk env wk packet pkgType batch buffer).Buffered := by
  have hadvance : Worker.Buffered
      (if wk.state.currentBatch < batch then advanceToBatch env wk batch else wk) := by
    split
    · exact advanceBatches_buffered env _ h
    · exact h
  rw [acceptChunk]
  split
  · exact h
  split
  · exact h
  rename_i w hvalid
  dsimp only
  generalize (if wk.state.currentBatch < batch then advanceToBatch env wk batch else wk) = wk'
    at hadvance ⊢
  split
  · rename_i hcurrent
    exact hbuffer (by rw [hvalid]) _ hadvance hcurrent.2
  · exact hadvance

/-- DATA packets keep to the limits. -/
theorem handleData_buffered (env : Env) {wk : Worker} (h : wk.Buffered) (packet : Packet) :
    (handleData env wk packet).Buffered :=
  acceptChunk_buffered h fun hvalid _ h' hbatch =>
    (h'.bufferData hbatch ((isChunkValid_length hvalid).1 rfl)).1

/-- PARITY packets keep to the limits. -/
theorem handleParity_buffered (env : Env) {wk : Worker} (h : wk.Buffered) (packet : Packet) :
    (handleParity env wk packet).Buffered :=
  acceptChunk_buffered h fun hvalid _ h' _ =>
    (h'.bufferParity (Nat.mod_lt _ (by decide)) ((isChunkValid_length hvalid).2 rfl)).1

/-- **Every packet** keeps the invariant, whatever it is. -/
theorem Worker.Buffered.handlePacket {env : Env} {wk : Worker} (hinv : wk.Inv env)
    (h : wk.Buffered) (raw : Bytes) : (handlePacket env wk raw).Buffered := by
  rw [DataDiode.handlePacket]
  split
  · exact h
  rename_i packet _
  rw [dispatch]
  split
  · rcases newFile_state hinv (Utf8.fromUtf8Lossy packet.data) packet.count packet.pathHash
        ((decodeParityField packet.dataHash).getD 0) with ⟨-, hsame⟩ | hnew | ⟨-, hopen⟩
    · rw [handleStart, hsame]
      exact h
    · exact .of_new hnew
    · exact .of_opened hopen
  split
  · exact handleData_buffered env h packet
  split
  · exact handleParity_buffered env h packet
  split
  · rename_i hend
    obtain ⟨p, hp⟩ := Option.isSome_iff_exists.mp hend.2
    exact .of_new (finishFile_state env hp)
  split <;> exact h

/-- **Every run** keeps the invariant. -/
theorem Worker.Buffered.run {env : Env} {wk : Worker} (hinv : wk.Inv env) (h : wk.Buffered)
    (raws : List Bytes) : (run env wk raws).Buffered := by
  induction raws generalizing wk with
  | nil => exact h
  | cons raw raws ih => exact ih (hinv.handlePacket raw).1 (h.handlePacket hinv raw)

end DataDiode
