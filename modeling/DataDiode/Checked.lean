import DataDiode.Machine
import DataDiode.Receiver
import DataDiode.UdpForward

/-!
# The Receiver on 64-bit Integers

The receiver once more, operation by operation: the integer arithmetic, the conversions between
integer types and the slices of the worker thread and of the UDP forwarding thread are the partial
operations of `Machine`, at the width of a 64-bit target. A function is `none` on an input on which
the program panics, or wraps where it is built without overflow checks.

Saturating operations and comparisons cannot go out of range, and divisions are by constants; they
are as before, and so is what has neither arithmetic nor slices: `newFile`, the handlers of the
file system, and keeping a chunk. The counters of `Stats` are not part of this.
-/

namespace DataDiode

namespace Checked

open World

/-! ### Headers -/

/-- Read a datagram. -/
def decodePacket (raw : Bytes) : Option (Option Packet) :=
  if raw.length < headerSize then some none
  else do
    let typeField ← Machine.slice raw 0 1
    match parseText 256 typeField with
    | none => some none
    | some pkgType => do
        let countField ← Machine.slice raw 1 11
        match parseText u64Bound countField with
        | none => some none
        | some count => do
            let pathHash ← Machine.slice raw 11 43
            let dataHash ← Machine.slice raw 43 75
            let data ← Machine.sliceFrom raw 75
            some (some ⟨pkgType, count, pathHash, dataHash, data⟩)

/-! ### Batches -/

/-- The number of data chunks of one batch of a file. -/
def batchDataSize (batchIdx fileSize : ℕ) : Option ℕ := do
  let total ← Machine.fit u64Bound (totalChunks fileSize)
  let idx ← Machine.fit u64Bound batchIdx
  let start ← Machine.mul u64Bound idx batchDataChunks
  if total ≤ start then some 0
  else do
    let rest ← Machine.sub total start
    some (min rest batchDataChunks)

/-- A chunk copied into a shard of zeros. -/
def padShard (data : Bytes) : Option Bytes := do
  let padded := List.replicate shardSize 0
  let copyLen := min data.length shardSize
  let target ← Machine.sliceTo padded copyLen
  let source ← Machine.sliceTo data copyLen
  let rest ← Machine.sliceFrom padded copyLen
  -- The copy panics on slices of different lengths.
  if target.length = source.length then some (source ++ rest) else none

/-- Feed one buffered data chunk to a decoder. -/
def feedOriginal (dataSize batchStartChunk : ℕ) (dec : RsDecoder) (entry : ℕ × Bytes) :
    Option (Except Text RsDecoder) := do
  let absIdx ← Machine.fit u64Bound entry.1
  let idxInBatch := absIdx - batchStartChunk
  if dataSize ≤ idxInBatch then some (.ok dec)
  else do
    let padded ← padShard entry.2
    match dec.addOriginalShard idxInBatch padded with
    | .ok dec => some (.ok dec)
    | .error e => some (.error [.lit "FEC add_original[", .nat idxInBatch, .lit "]: ", .rs e])

/-- Feed one buffered parity shard to a decoder. -/
def feedRecovery (parityPerBatch : ℕ) (dec : RsDecoder) (entry : ℕ × Bytes) :
    Option (Except Text RsDecoder) := do
  let idx ← Machine.fit u64Bound entry.1
  if parityPerBatch ≤ idx ∨ entry.2.length < shardSize then some (.ok dec)
  else do
    let shard ← Machine.sliceTo entry.2 shardSize
    match dec.addRecoveryShard idx shard with
    | .ok dec => some (.ok dec)
    | .error e => some (.error [.lit "FEC add_recovery[", .nat idx, .lit "]: ", .rs e])

/-- The local variables of the finalization of a batch. -/
structure Batch where
  parityPerBatch : ℕ
  dataSize : ℕ
  totalChunks : ℕ
  lastChunkSizeOverall : ℕ
  batchStartChunk : ℕ

/-- The missing chunks of the current batch, reconstructed from what is buffered. -/
def decodeBatch (env : Env) (state : ReceiveState) (b : Batch) : Option (Except Text ChunkMap) :=
  match RsDecoder.new env.rs b.dataSize b.parityPerBatch shardSize with
  | .error e =>
      some (.error [.lit "FEC decoder for batch ", .nat state.currentBatch, .lit ": ", .rs e])
  | .ok dec => do
      match ← Machine.foldExcept (feedOriginal b.dataSize b.batchStartChunk) dec
        state.dataBuffer.toList with
      | .error e => some (.error e)
      | .ok dec => do
          match ← Machine.foldExcept (feedRecovery b.parityPerBatch) dec
            state.parityBuffer.toList with
          | .error e => some (.error e)
          | .ok dec =>
              match dec.decode env.rs with
              | .error e =>
                  some (.error [.lit "FEC decode batch ", .nat state.currentBatch, .lit ": ",
                    .rs e])
              | .ok restored => some (.ok (Std.TreeMap.ofList restored))

/-- The reconstructed chunks of the current batch. -/
def restoreBatch (env : Env) (state : ReceiveState) (b : Batch) (w : World) :
    Option (Except Text ChunkMap × World) :=
  if b.dataSize ≤ state.dataBuffer.size then some (.ok ∅, w)
  else if b.parityPerBatch = 0 then do
    let missing ← Machine.sub b.dataSize state.dataBuffer.size
    some (.error [.lit "Batch ", .nat state.currentBatch, .lit " missing ", .nat missing,
      .lit " chunks and FEC is disabled"], w)
  else do
    let received ← Machine.add u64Bound state.dataBuffer.size state.parityBuffer.size
    if received < b.dataSize then
      some (.error [.lit "Batch ", .nat state.currentBatch, .lit " insufficient: ",
        .nat state.dataBuffer.size, .lit " data + ", .nat state.parityBuffer.size,
        .lit " parity, need ", .nat b.dataSize], w)
    else do
      match ← decodeBatch env state b with
      | .error e => some (.error e, w)
      | .ok restored =>
          some (.ok restored, w.info [.lit "FEC reconstructed ", .nat restored.size,
            .lit " chunk(s) for batch ", .nat state.currentBatch])

/-- The bytes of the `i`-th chunk of the current batch. -/
def chunkBytes (state : ReceiveState) (b : Batch) (restored : ChunkMap) (i : ℕ) :
    Option (Except Text Bytes) := do
  let absIdx ← Machine.add u64Bound b.batchStartChunk i
  let next ← Machine.add u64Bound absIdx 1
  let expectedLen := if next = b.totalChunks then b.lastChunkSizeOverall else chunkSize
  match state.dataBuffer[absIdx]? with
  | some data =>
      if data.length < expectedLen then
        some (.error [.lit "Chunk ", .nat absIdx, .lit " too short: ", .nat data.length,
          .lit " < ", .nat expectedLen])
      else do
        let chunk ← Machine.sliceTo data expectedLen
        some (.ok chunk)
  | none =>
      match restored[i]? with
      | some shard =>
          if shard.length < expectedLen then
            some (.error [.lit "Restored chunk ", .nat absIdx, .lit " too short: ",
              .nat shard.length, .lit " < ", .nat expectedLen])
          else do
            let chunk ← Machine.sliceTo shard expectedLen
            some (.ok chunk)
      | none =>
          some (.error [.lit "Chunk ", .nat absIdx, .lit " still missing after reconstruction"])

/-- Write the listed chunks of the current batch one after the other. -/
def writeChunks (env : Env) (state : ReceiveState) (b : Batch) (restored : ChunkMap)
    (file : File) : List ℕ → World → Option (Except Text Unit × World)
  | [], w => some (.ok (), w)
  | i :: is, w => do
      match ← chunkBytes state b restored i with
      | .error e => some (.error e, w)
      | .ok chunk =>
          match w.writeAll env file chunk with
          | (.error e, w) => some (.error [.lit "write: ", .io e], w)
          | (.ok (), w) => writeChunks env state b restored file is w

/-- Write the current batch out. -/
def writeBatch (env : Env) (state : ReceiveState) (b : Batch) (w : World) :
    Option (Except Text Unit × World) := do
  match ← restoreBatch env state b w with
  | (.error e, w) => some (.error e, w)
  | (.ok restored, w) =>
      match state.output with
      | none => some (.error [.lit "No output file open"], w)
      | some file => do
          let offset ← Machine.mul u64Bound b.batchStartChunk chunkSize
          match w.seek env file offset with
          | (.error e, w) => some (.error [.lit "seek to ", .nat offset, .lit ": ", .io e], w)
          | (.ok (), w) => writeChunks env state b restored file (List.range b.dataSize) w

/-- Reconstruct the current batch, write it to the output file, and clear the buffers. -/
def finalizeCurrentBatch (env : Env) (wk : Worker) : Option (Except Text Unit × Worker) := do
  let parityPerBatch ← Machine.fit u64Bound wk.state.parityPerBatch
  let dataSize ← batchDataSize wk.state.currentBatch wk.state.fileSize
  if dataSize = 0 then some (.ok (), { wk with state := wk.state.clearBuffers })
  else do
    let total ← Machine.fit u64Bound (totalChunks wk.state.fileSize)
    let remainder ← Machine.fit u64Bound (wk.state.fileSize % chunkSize)
    let idx ← Machine.fit u64Bound wk.state.currentBatch
    let start ← Machine.mul u64Bound idx batchDataChunks
    let last := if remainder = 0 then chunkSize else remainder
    match ← writeBatch env wk.state ⟨parityPerBatch, dataSize, total, last, start⟩ wk.world with
    | (.error e, w) => some (.error e, { wk with world := w })
    | (.ok (), w) => some (.ok (), { wk with state := wk.state.clearBuffers, world := w })

/-- Finalize up to `n` batches, one after the other, until one cannot be finalized. -/
def advanceBatches (env : Env) : ℕ → Worker → Option Worker
  | 0, wk => some wk
  | n + 1, wk =>
      if wk.state.failed then some wk
      else do
        match ← finalizeCurrentBatch env wk with
        | (.error e, wk) =>
            some (wk.error ([.lit "Batch ", .nat wk.state.currentBatch,
              .lit " finalize failed for ", .debug wk.shownPath, .lit " (safe: ",
              .debug (logSafe wk.shownPath), .lit "): "] ++ e)).markFailed
        | (.ok (), wk) => do
            let next ← Machine.add u64Bound wk.state.currentBatch 1
            advanceBatches env n { wk with state := { wk.state with currentBatch := next } }

/-- Finalize batches until the target batch is current. The distance counts the turns of the loop
and is computed nowhere in the program. -/
def advanceToBatch (env : Env) (wk : Worker) (targetBatch : ℕ) : Option Worker :=
  advanceBatches env (targetBatch - wk.state.currentBatch) wk

/-! ### The worker loop -/

/-- Handle a chunk of either kind. -/
def acceptChunk (env : Env) (wk : Worker) (packet : Packet) (pkgType batch : ℕ)
    (buffer : Worker → Worker) : Option Worker :=
  if wk.state.failed then some wk
  else
    match isChunkValid env wk.world packet wk.state pkgType with
    | (false, w) => some { wk with world := w }
    | (true, _) => do
        let wk ← (if wk.state.currentBatch < batch then advanceToBatch env wk batch else some wk)
        some (if wk.state.failed = false ∧ batch = wk.state.currentBatch then buffer wk else wk)

/-- A DATA packet, with checked arithmetic. -/
def handleData (env : Env) (wk : Worker) (packet : Packet) : Option Worker :=
  acceptChunk env wk packet pkgTypeData (batchForData packet.count) fun wk =>
    bufferData wk packet

/-- A PARITY packet, with checked arithmetic. -/
def handleParity (env : Env) (wk : Worker) (packet : Packet) : Option Worker :=
  acceptChunk env wk packet pkgTypeParity (batchForParity packet.count) fun wk =>
    bufferParity wk packet (packet.count % batchParityChunks)

/-- Finalize the last batch of the transfer in progress, unless it has failed already. -/
def finalizeLast (env : Env) (wk : Worker) (relPath : Str) : Option Worker :=
  if wk.state.failed then some wk
  else do
    match ← finalizeCurrentBatch env wk with
    | (.ok (), wk) => some wk
    | (.error e, wk) =>
        some (wk.error ([.lit "Final batch failed for ", .debug relPath, .lit " (safe: ",
          .debug (logSafe relPath), .lit "): "] ++ e)).markFailed

/-- End the transfer in progress. -/
def finishFile (env : Env) (wk : Worker) : Option Worker :=
  match wk.state.filePath with
  | none => some wk
  | some relPath => do
      let wk ← finalizeLast env wk relPath
      let wk := { wk with state := { wk.state with output := none } }
      some (if wk.state.failed then abandon env wk relPath else publish env wk relPath)

/-- Handle a decoded packet. -/
def dispatch (env : Env) (wk : Worker) (packet : Packet) : Option Worker :=
  if packet.pkgType = pkgTypeStart then some (handleStart env wk packet)
  else if packet.pkgType = pkgTypeData ∧ wk.state.filePath.isSome then handleData env wk packet
  else if packet.pkgType = pkgTypeParity ∧ wk.state.filePath.isSome then
    handleParity env wk packet
  else if packet.pkgType = pkgTypeEnd ∧ wk.state.filePath.isSome then finishFile env wk
  else if packet.pkgType = pkgTypeUdp ∧ env.udpForwardingEnabled then
    some (handleUdp wk packet)
  else some wk

/-- One turn of the worker loop. -/
def handlePacket (env : Env) (wk : Worker) (raw : Bytes) : Option Worker := do
  match ← decodePacket raw with
  | none => some (wk.error [.lit "Failed to decode packet"])
  | some packet => dispatch env wk packet

/-- The worker loop on a sequence of datagrams. -/
def run (env : Env) (wk : Worker) (raws : List Bytes) : Option Worker :=
  raws.foldlM (handlePacket env) wk

/-! ### The forwarding thread -/

/-- Handle a continuation fragment. The successor of the previous count is only computed for a
fragment of the flow in progress. -/
def handleNext (f : Forwarder) (a : Arrival) (id : Bytes) (declaredSize : ℕ) :
    Option Forwarder :=
  if f.fwd.currentId ≠ some id then some f
  else do
    let next ← Machine.add u64Bound f.fwd.previousCount 1
    if a.packet.count ≠ next then some f
    else if declaredSize ≠ f.fwd.expectedSize then
      some (f.warn [.lit "UDP: fragment ", .nat a.packet.count, .lit " declares size ",
        .nat declaredSize, .lit " but flow is pinned to ", .nat f.fwd.expectedSize,
        .lit "; dropping it"])
    else do
      let remaining ← Machine.sub f.fwd.expectedSize f.fwd.fullPacket.length
      if a.packet.data = [] ∨ chunkSize < a.packet.data.length ∨
          remaining < a.packet.data.length then
        some { f.warn [.lit "UDP: fragment ", .nat a.packet.count, .lit " of ",
            .nat a.packet.data.length, .lit " bytes invalid for ", .nat remaining,
            .lit " remaining; dropping flow"] with fwd := f.fwd.reset }
      else
        some (f.proceed
          { f.fwd with
            fullPacket := f.fwd.fullPacket ++ a.packet.data
            previousCount := a.packet.count
            lastActivity := a.stamp } a.sendFault)

/-- Handle one packet. The identifier is cut out before the kind of the fragment is known. -/
def handle (f : Forwarder) (a : Arrival) : Option Forwarder :=
  match a.packet.declaredSize with
  | none => some (f.warn [.lit "UDP: unparseable size field, dropping packet"])
  | some declaredSize => do
      let id ← Machine.sliceTo a.packet.dataHash 8
      if a.packet.count = 0 then some (f.handleFirst a declaredSize)
      else handleNext f a id declaredSize

/-- The thread's loop on a sequence of arrivals. -/
def forwardUdpPackets (f : Forwarder) (as : List Arrival) : Option Forwarder := as.foldlM handle f

end Checked

end DataDiode
