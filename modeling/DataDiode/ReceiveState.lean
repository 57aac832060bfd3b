import Std.Data.TreeMap
import DataDiode.Packet
import DataDiode.World

/-!
# The Receiver's State

The state of the transfer in progress, the statistics, and the operations on them that touch
no file: chunk validation, buffering, and the reset at the end of a transfer. The worker
thread owns all of it (`Worker`), together with the world it acts on and the packets it hands
to the UDP forwarding thread.
-/

namespace DataDiode

open World

/-- Safety cap on memory held for the current batch. -/
def bufferByteLimit : ℕ := 8 * 1024 * 1024

/-- A map from packet numbers to payloads, iterated in ascending order. -/
abbrev ChunkMap := Std.TreeMap ℕ Bytes

/-- The transfer in progress. -/
structure ReceiveState where
  bytesTransferred : ℕ
  filePath : Option Str
  fileSize : ℕ
  parityPerBatch : ℕ
  pathHash : Option Bytes
  /-- Index of the batch currently being collected. -/
  currentBatch : ℕ
  /-- Data chunks for the current batch, keyed by absolute chunk count. -/
  dataBuffer : ChunkMap
  /-- Parity shards for the current batch, keyed by index within the batch. -/
  parityBuffer : ChunkMap
  bytesBuffered : ℕ
  failed : Bool
  output : Option File

/-- The state with no transfer in progress. -/
def ReceiveState.new : ReceiveState where
  bytesTransferred := 0
  filePath := none
  fileSize := 0
  parityPerBatch := 0
  pathHash := none
  currentBatch := 0
  dataBuffer := ∅
  parityBuffer := ∅
  bytesBuffered := 0
  failed := false
  output := none

/-- Counters over all transfers. -/
structure Stats where
  filesTransferred : ℕ
  filesFailed : ℕ
  totalTransferred : ℕ
  deriving DecidableEq, Repr

def Stats.new : Stats := ⟨0, 0, 0⟩

/-- The worker thread: its state, its counters, the world, and the packets it has sent to the
UDP forwarding thread. -/
structure Worker where
  state : ReceiveState
  stats : Stats
  world : World
  udpTx : List Packet

namespace Worker

/-- The worker at its start. -/
def new (fs : Tree) : Worker := ⟨.new, .new, .new fs, []⟩

def error (wk : Worker) (text : Text) : Worker := { wk with world := wk.world.error text }
def info (wk : Worker) (text : Text) : Worker := { wk with world := wk.world.info text }

/-- The worker with its transfer marked as failed. -/
def markFailed (wk : Worker) : Worker := { wk with state := { wk.state with failed := true } }

/-- The path of the transfer in progress, as error messages show it. -/
def shownPath (wk : Worker) : Str := wk.state.filePath.getD ['?']

end Worker

/-- Validate a chunk against the current transfer and the expected payload length for the
packet type. -/
def isChunkValid (env : Env) (w : World) (packet : Packet) (state : ReceiveState)
    (pkgType : ℕ) : Bool × World :=
  if state.pathHash ≠ none ∧ state.pathHash ≠ some packet.pathHash then
    (false, w.warn [.lit "Path hash mismatch in chunk ", .nat packet.count])
  else if pkgType = pkgTypeData ∧ ¬(1 ≤ packet.data.length ∧ packet.data.length ≤ chunkSize) then
    (false, w.warn [.lit "DATA chunk ", .nat packet.count, .lit " size ",
      .nat packet.data.length, .lit " outside 1..=", .nat chunkSize])
  else if pkgType = pkgTypeParity ∧ packet.data.length ≠ shardSize then
    (false, w.warn [.lit "PARITY shard ", .nat packet.count, .lit " size ",
      .nat packet.data.length, .lit " != SHARD_SIZE (", .nat shardSize, .lit ")"])
  else if env.md5.hex packet.data ≠ packet.dataHash then
    (false, w.warn [.lit "Data hash mismatch in chunk ", .nat packet.count])
  else (true, w)

def batchForData (count : ℕ) : ℕ := count / batchDataChunks

def batchForParity (count : ℕ) : ℕ := count / batchParityChunks

/-- The number of data chunks of a file. -/
def totalChunks (fileSize : ℕ) : ℕ := (fileSize + chunkSize - 1) / chunkSize

/-- The number of data chunks of one batch of a file. -/
def batchDataSize (batchIdx fileSize : ℕ) : ℕ :=
  let start := batchIdx * batchDataChunks
  if totalChunks fileSize ≤ start then 0
  else min (totalChunks fileSize - start) batchDataChunks

/-- Refuse a chunk because of the byte limit: the transfer is marked as failed. -/
def refuseChunk (wk : Worker) (what : String) : Worker :=
  (wk.error [.lit what, .nat bufferByteLimit, .lit " bytes) exceeded for ",
    .debug wk.shownPath, .lit " (safe: ", .debug (logSafe wk.shownPath), .lit ")"]).markFailed

/-- Keep a data chunk of the current batch, once. -/
def bufferData (wk : Worker) (packet : Packet) : Worker :=
  if wk.state.dataBuffer.contains packet.count then wk
  else if bufferByteLimit < saturatingAdd wk.state.bytesBuffered packet.data.length then
    refuseChunk wk "Data buffer size limit ("
  else
    { wk with
      state := { wk.state with
        bytesBuffered := saturatingAdd wk.state.bytesBuffered packet.data.length
        bytesTransferred := saturatingAdd wk.state.bytesTransferred packet.data.length
        dataBuffer := wk.state.dataBuffer.insert packet.count packet.data }
      stats := { wk.stats with
        totalTransferred := saturatingAdd wk.stats.totalTransferred packet.data.length } }

/-- Keep a parity shard of the current batch, once. -/
def bufferParity (wk : Worker) (packet : Packet) (idxInBatch : ℕ) : Worker :=
  if wk.state.parityBuffer.contains idxInBatch then wk
  else if bufferByteLimit < saturatingAdd wk.state.bytesBuffered packet.data.length then
    refuseChunk wk "Parity buffer size limit ("
  else
    { wk with
      state := { wk.state with
        bytesBuffered := saturatingAdd wk.state.bytesBuffered packet.data.length
        parityBuffer := wk.state.parityBuffer.insert idxInBatch packet.data } }

/-- End the transfer in progress, if there is one: count it, and forget its state. -/
def resetTransfer (wk : Worker) (success : Bool) : Worker :=
  match wk.state.filePath with
  | none => { wk with state := .new }
  | some p =>
      if success then
        { wk.info [.lit "Finished receiving ", .debug p, .lit " (safe: ", .debug (logSafe p),
            .lit ")"] with
          state := .new
          stats := { wk.stats with filesTransferred := wk.stats.filesTransferred + 1 } }
      else
        { wk with
          state := .new
          stats := { wk.stats with filesFailed := wk.stats.filesFailed + 1 } }

end DataDiode
