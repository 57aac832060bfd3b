import DataDiode.ReceiveState

/-!
# Finalizing Batches

A batch is finalized when the next one begins, or when the transfer ends: its missing chunks
are reconstructed from the parity shards if need be (`restoreBatch`), and all its chunks are
written at the position of the batch in the output file (`writeChunks`).

The loop of the source that advances batch by batch runs as often as the distance to the
target batch, and stops early at the first batch that cannot be finalized.

A batch leaves the state untouched but for its buffers, and these only if it has been written:
after an error the buffers still hold what was received.
-/

namespace DataDiode

open World

/-- A chunk zero-padded to a shard, cut if it is longer. -/
def padShard (data : Bytes) : Bytes :=
  data.take shardSize ++ List.replicate (shardSize - data.length) 0

/-- Feed one buffered data chunk to a decoder; a chunk past the batch is passed over. -/
def feedOriginal (dataSize batchStartChunk : ℕ) (dec : RsDecoder) (entry : ℕ × Bytes) :
    Except Text RsDecoder :=
  let idxInBatch := entry.1 - batchStartChunk
  if dataSize ≤ idxInBatch then .ok dec
  else
    match dec.addOriginalShard idxInBatch (padShard entry.2) with
    | .ok dec => .ok dec
    | .error e => .error [.lit "FEC add_original[", .nat idxInBatch, .lit "]: ", .rs e]

/-- Feed one buffered parity shard to a decoder; a shard past the announced count is passed
over. -/
def feedRecovery (parityPerBatch : ℕ) (dec : RsDecoder) (entry : ℕ × Bytes) :
    Except Text RsDecoder :=
  if parityPerBatch ≤ entry.1 ∨ entry.2.length < shardSize then .ok dec
  else
    match dec.addRecoveryShard entry.1 (entry.2.take shardSize) with
    | .ok dec => .ok dec
    | .error e => .error [.lit "FEC add_recovery[", .nat entry.1, .lit "]: ", .rs e]

/-- The missing chunks of the current batch, reconstructed from what is buffered. -/
def decodeBatch (env : Env) (state : ReceiveState) (dataSize : ℕ) : Except Text ChunkMap :=
  match RsDecoder.new env.rs dataSize state.parityPerBatch shardSize with
  | .error e => .error [.lit "FEC decoder for batch ", .nat state.currentBatch, .lit ": ", .rs e]
  | .ok dec => do
      let dec ← state.dataBuffer.toList.foldlM
        (feedOriginal dataSize (state.currentBatch * batchDataChunks)) dec
      let dec ← state.parityBuffer.toList.foldlM (feedRecovery state.parityPerBatch) dec
      match dec.decode env.rs with
      | .error e => .error [.lit "FEC decode batch ", .nat state.currentBatch, .lit ": ", .rs e]
      | .ok restored => .ok (Std.TreeMap.ofList restored)

/-- The reconstructed chunks of the current batch: none if enough data chunks are buffered. -/
def restoreBatch (env : Env) (state : ReceiveState) (dataSize : ℕ) (w : World) :
    Except Text ChunkMap × World :=
  if dataSize ≤ state.dataBuffer.size then (.ok ∅, w)
  else if state.parityPerBatch = 0 then
    (.error [.lit "Batch ", .nat state.currentBatch, .lit " missing ",
      .nat (dataSize - state.dataBuffer.size), .lit " chunks and FEC is disabled"], w)
  else if state.dataBuffer.size + state.parityBuffer.size < dataSize then
    (.error [.lit "Batch ", .nat state.currentBatch, .lit " insufficient: ",
      .nat state.dataBuffer.size, .lit " data + ", .nat state.parityBuffer.size,
      .lit " parity, need ", .nat dataSize], w)
  else
    match decodeBatch env state dataSize with
    | .error e => (.error e, w)
    | .ok restored =>
        (.ok restored, w.info [.lit "FEC reconstructed ", .nat restored.size,
          .lit " chunk(s) for batch ", .nat state.currentBatch])

/-- The length the `i`-th chunk of a file has to have. -/
def expectedLen (fileSize i : ℕ) : ℕ :=
  if i + 1 = totalChunks fileSize then
    if fileSize % chunkSize = 0 then chunkSize else fileSize % chunkSize
  else chunkSize

/-- The bytes of the `i`-th chunk of the current batch: buffered, or else reconstructed, and
cut to the length the chunk has to have. -/
def chunkBytes (state : ReceiveState) (restored : ChunkMap) (i : ℕ) : Except Text Bytes :=
  let absIdx := state.currentBatch * batchDataChunks + i
  let len := expectedLen state.fileSize absIdx
  match state.dataBuffer[absIdx]? with
  | some data =>
      if data.length < len then
        .error [.lit "Chunk ", .nat absIdx, .lit " too short: ", .nat data.length, .lit " < ",
          .nat len]
      else .ok (data.take len)
  | none =>
      match restored[i]? with
      | some shard =>
          if shard.length < len then
            .error [.lit "Restored chunk ", .nat absIdx, .lit " too short: ", .nat shard.length,
              .lit " < ", .nat len]
          else .ok (shard.take len)
      | none =>
          .error [.lit "Chunk ", .nat absIdx, .lit " still missing after reconstruction"]

/-- Write the listed chunks of the current batch one after the other. -/
def writeChunks (env : Env) (state : ReceiveState) (restored : ChunkMap) (file : File) :
    List ℕ → World → Except Text Unit × World
  | [], w => (.ok (), w)
  | i :: is, w =>
      match chunkBytes state restored i with
      | .error e => (.error e, w)
      | .ok chunk =>
          match w.writeAll env file chunk with
          | (.error e, w) => (.error [.lit "write: ", .io e], w)
          | (.ok (), w) => writeChunks env state restored file is w

/-- The state with nothing buffered. -/
def ReceiveState.clearBuffers (state : ReceiveState) : ReceiveState :=
  { state with dataBuffer := ∅, parityBuffer := ∅, bytesBuffered := 0 }

/-- The first byte of the current batch in the output file. -/
def batchOffset (batchIdx : ℕ) : ℕ := batchIdx * batchDataChunks * chunkSize

/-- Write the current batch out: reconstruct, seek, write. -/
def writeBatch (env : Env) (state : ReceiveState) (dataSize : ℕ) (w : World) :
    Except Text Unit × World :=
  match restoreBatch env state dataSize w with
  | (.error e, w) => (.error e, w)
  | (.ok restored, w) =>
      match state.output with
      | none => (.error [.lit "No output file open"], w)
      | some file =>
          match w.seek env file (batchOffset state.currentBatch) with
          | (.error e, w) =>
              (.error [.lit "seek to ", .nat (batchOffset state.currentBatch), .lit ": ", .io e], w)
          | (.ok (), w) => writeChunks env state restored file (List.range dataSize) w

/-- Reconstruct the current batch from buffered data and parity, write it to the output
file, and clear the per-batch buffers. A batch without chunks is only cleared. -/
def finalizeCurrentBatch (env : Env) (wk : Worker) : Except Text Unit × Worker :=
  let dataSize := batchDataSize wk.state.currentBatch wk.state.fileSize
  if dataSize = 0 then (.ok (), { wk with state := wk.state.clearBuffers })
  else
    match writeBatch env wk.state dataSize wk.world with
    | (.error e, w) => (.error e, { wk with world := w })
    | (.ok (), w) => (.ok (), { wk with state := wk.state.clearBuffers, world := w })

/-- The worker with the next batch as its current one. -/
def Worker.nextBatch (wk : Worker) : Worker :=
  { wk with state := { wk.state with currentBatch := wk.state.currentBatch + 1 } }

/-- Finalize up to `n` batches, one after the other, until one cannot be finalized. -/
def advanceBatches (env : Env) : ℕ → Worker → Worker
  | 0, wk => wk
  | n + 1, wk =>
      if wk.state.failed then wk
      else
        match finalizeCurrentBatch env wk with
        | (.error e, wk) =>
            (wk.error ([.lit "Batch ", .nat wk.state.currentBatch, .lit " finalize failed for ",
              .debug wk.shownPath, .lit " (safe: ", .debug (logSafe wk.shownPath),
              .lit "): "] ++ e)).markFailed
        | (.ok (), wk) => advanceBatches env n wk.nextBatch

/-- Finalize the current batch and the batches after it until the target batch is
current. -/
def advanceToBatch (env : Env) (wk : Worker) (targetBatch : ℕ) : Worker :=
  advanceBatches env (targetBatch - wk.state.currentBatch) wk

end DataDiode
