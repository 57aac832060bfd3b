import DataDiode.Batches

/-!
# The Receiver

The handlers of the worker thread, from the decoded packet down to the file system: a START
packet opens a transfer (`newFile`), DATA and PARITY packets fill the current batch and
advance to later ones (`handleData`, `handleParity`), an END packet publishes the file
(`finishFile`), a UDP packet goes to the forwarding thread. `handlePacket` is one turn of the
worker loop on a raw datagram, `run` the loop on a sequence of them.

A file under reception is written to `<path>.partial` in the output directory and renamed to
`<path>` at the end; a transfer that fails leaves an empty `<path>.failed` instead.
-/

namespace DataDiode

open World UnixPath

/-- The suffix of files under reception. -/
def partialSuffix : Str := ['.', 'p', 'a', 'r', 't', 'i', 'a', 'l']

/-- The suffix of the marker of a failed transfer. -/
def failedSuffix : Str := ['.', 'f', 'a', 'i', 'l', 'e', 'd']

/-- The place of a received file. -/
def Env.finalPath (env : Env) (relPath : Str) : Path := join env.outputDir relPath

/-- The place of a file under reception. -/
def Env.partialPath (env : Env) (relPath : Str) : Path :=
  join env.outputDir (relPath ++ partialSuffix)

/-- The place of the marker of a failed transfer. -/
def Env.failedPath (env : Env) (relPath : Str) : Path :=
  join env.outputDir (relPath ++ failedSuffix)

namespace World

/-- Leave the marker of a failed transfer in place of the file. -/
def markFailure (env : Env) (w : World) (relPath : Str) : World :=
  let w := (w.removeFile env (env.finalPath relPath)).2
  let w :=
    match parent (env.failedPath relPath) with
    | some dir => (w.createDirAll env dir).2
    | none => w
  (w.openWrite env (env.failedPath relPath) false).2

/-- Make the directory a path lies in. -/
def createParent (env : Env) (w : World) (p : Path) : Except IoError Unit × World :=
  match parent p with
  | some dir => w.createDirAll env dir
  | none => (.ok (), w)

/-- Open the file under reception, empty, in its announced size. -/
def openOutputFile (env : Env) (w : World) (relPath : Str) (fileSize : ℕ) :
    Except IoError File × World :=
  match w.createParent env (env.partialPath relPath) with
  | (.error e, w) => (.error e, w)
  | (.ok (), w) =>
      match w.openWrite env (env.partialPath relPath) true with
      | (.error e, w) => (.error e, w)
      | (.ok f, w) =>
          if 0 < fileSize then
            match w.setLen env f fileSize with
            | (.error e, w) => (.error e, w)
            | (.ok (), w) => (.ok f, w)
          else (.ok f, w)

/-- The contents of a file, read for its SHA-256 digest. -/
def sha256File (env : Env) (w : World) (p : Path) : Except Text Bytes × World :=
  match w.call env (.openRead p) (fun _ t => t)
      (fun t => onFile env p fun l =>
        if (t.contents l).isSome then .ok t else .error (t.unreachable l)) with
  | (.error e, w) => (.error [.lit "open ", .display p, .lit ": ", .io e], w)
  | (.ok (), w) =>
      match w.call env (.read p) (fun _ t => t) (fun t => .ok t) with
      | (.error e, w) => (.error [.lit "read ", .display p, .lit ": ", .io e], w)
      | (.ok (), w) => (.ok ((w.fs.contents (env.locate p)).getD []), w)

/-- Log the digest of a received file. -/
def logDigest (env : Env) (w : World) (relPath : Str) : World :=
  match w.sha256File env (env.finalPath relPath) with
  | (.ok contents, w) =>
      match w.fileLen env (env.finalPath relPath) with
      | (len, w) =>
          w.info [.lit "Received file ", .debug relPath, .lit " (safe: ",
            .debug (logSafe relPath), .lit ") size ", .nat len, .lit " SHA-256 ",
            .sha256 contents]
  | (.error e, w) =>
      w.warn ([.lit "Failed to compute SHA-256 of ", .debug relPath, .lit " (safe: ",
        .debug (logSafe relPath), .lit "): "] ++ e)

/-- Remove the marker of an earlier failure, if there is one. -/
def clearFailure (env : Env) (w : World) (relPath : Str) : World :=
  match w.pathExists env (env.failedPath relPath) with
  | (true, w) => (w.removeFile env (env.failedPath relPath)).2
  | (false, w) => w

end World

/-- Give up the transfer in progress: no output, no partial file, a failure marker. -/
def abandon (env : Env) (wk : Worker) (relPath : Str) : Worker :=
  let w := (wk.world.removeFile env (env.partialPath relPath)).2
  resetTransfer
    { wk with
      state := { wk.state with output := none }
      world := w.markFailure env relPath } false

/-- Give up an unfinished transfer of another file. -/
def preempt (env : Env) (wk : Worker) : Worker :=
  match wk.state.filePath with
  | none => wk
  | some prev =>
      abandon env
        (wk.error [.lit "Unfinished previous transfer of ", .display (logSafe prev),
          .lit " failed"]) prev

/-- Count a START packet that is refused for its path, and forget the state. -/
def rejectStart (wk : Worker) (reason : String) (path : Str) : Worker :=
  let wk := wk.error [.lit reason, .debug path, .lit " (safe: ", .debug (logSafe path), .lit ")"]
  resetTransfer
    { wk with stats := { wk.stats with filesFailed := wk.stats.filesFailed + 1 } } false

/-- Open a transfer of an accepted path. -/
def openTransfer (env : Env) (wk : Worker) (path : Str) (size : ℕ) (pathHash : Bytes)
    (parityPerBatch : ℕ) : Worker :=
  let w := (wk.world.removeFile env (env.finalPath path)).2
  let w := (w.removeFile env (env.partialPath path)).2
  let w := (w.removeFile env (env.failedPath path)).2
  match w.openOutputFile env path size with
  | (.error e, w) =>
      { wk with
        stats := { wk.stats with filesFailed := wk.stats.filesFailed + 1 }
        world := (w.error [.lit "Failed to open output file ", .display (logSafe path),
          .lit ": ", .io e]).markFailure env path }
  | (.ok output, w) =>
      { wk with
        state := { wk.state with
          filePath := some path
          pathHash := some pathHash
          fileSize := size
          parityPerBatch := parityPerBatch
          currentBatch := 0
          output := some output }
        world := w.info [.lit "Receiving file ", .display (logSafe path), .lit " (size ",
          .nat size, .lit ", parity per batch ", .nat parityPerBatch, .lit ")"] }

/-- Handle the announcement of a file. The announcement of the file in progress is taken for
a repetition; any other one ends the transfer in progress. -/
def newFile (env : Env) (wk : Worker) (path : Str) (size : ℕ) (pathHash : Bytes)
    (parityPerBatch : ℕ) : Worker :=
  if wk.state.filePath = some path then wk
  else
    let wk := preempt env wk
    if isSafeRelPath path = false then rejectStart wk "Rejected unsafe START path: " path
    else if '\x00' ∈ path then rejectStart wk "Rejected START path containing NUL: " path
    else openTransfer env wk path size pathHash parityPerBatch

/-- Finalize the last batch of the transfer in progress, unless it has failed already. -/
def finalizeLast (env : Env) (wk : Worker) (relPath : Str) : Worker :=
  if wk.state.failed then wk
  else
    match finalizeCurrentBatch env wk with
    | (.ok (), wk) => wk
    | (.error e, wk) =>
        (wk.error ([.lit "Final batch failed for ", .debug relPath, .lit " (safe: ",
          .debug (logSafe relPath), .lit "): "] ++ e)).markFailed

/-- Publish the file of the transfer in progress: rename it, log its digest, clear an old
failure marker. -/
def publish (env : Env) (wk : Worker) (relPath : Str) : Worker :=
  match wk.world.rename env (env.partialPath relPath) (env.finalPath relPath) with
  | (.error e, w) =>
      abandon env
        { wk with world := w.error [.lit "Failed to rename ", .debug relPath, .lit " (safe: ",
            .debug (logSafe relPath), .lit ") -> ", .debug (env.finalPath relPath), .lit ": ",
            .io e] } relPath
  | (.ok (), w) =>
      resetTransfer
        { wk with world := (w.logDigest env relPath).clearFailure env relPath } true

/-- End the transfer in progress. -/
def finishFile (env : Env) (wk : Worker) : Worker :=
  match wk.state.filePath with
  | none => wk
  | some relPath =>
      let wk := finalizeLast env wk relPath
      let wk := { wk with state := { wk.state with output := none } }
      if wk.state.failed then abandon env wk relPath else publish env wk relPath

/-- Handle a chunk of either kind: validate it, advance to its batch, and keep it if its batch
is the current one. -/
def acceptChunk (env : Env) (wk : Worker) (packet : Packet) (pkgType batch : ℕ)
    (buffer : Worker → Worker) : Worker :=
  if wk.state.failed then wk
  else
    match isChunkValid env wk.world packet wk.state pkgType with
    | (false, w) => { wk with world := w }
    | (true, _) =>
        let wk := if wk.state.currentBatch < batch then advanceToBatch env wk batch else wk
        if wk.state.failed = false ∧ batch = wk.state.currentBatch then buffer wk else wk

/-- A DATA packet belongs to the batch of its number. -/
def handleData (env : Env) (wk : Worker) (packet : Packet) : Worker :=
  acceptChunk env wk packet pkgTypeData (batchForData packet.count) fun wk =>
    bufferData wk packet

/-- A PARITY packet to that of its own. -/
def handleParity (env : Env) (wk : Worker) (packet : Packet) : Worker :=
  acceptChunk env wk packet pkgTypeParity (batchForParity packet.count) fun wk =>
    bufferParity wk packet (packet.count % batchParityChunks)

/-- A START packet announces a file: its path, its size, and the number of parity chunks. -/
def handleStart (env : Env) (wk : Worker) (packet : Packet) : Worker :=
  newFile env wk (Utf8.fromUtf8Lossy packet.data) packet.count packet.pathHash
    ((decodeParityField packet.dataHash).getD 0)

/-- Hand a packet to the UDP forwarding thread. -/
def handleUdp (wk : Worker) (packet : Packet) : Worker :=
  { wk with
    stats := { wk.stats with
      totalTransferred := wk.stats.totalTransferred + packet.data.length }
    udpTx := wk.udpTx ++ [packet] }

/-- Handle a decoded packet. Packets of a transfer are ignored while none is in progress. -/
def dispatch (env : Env) (wk : Worker) (packet : Packet) : Worker :=
  if packet.pkgType = pkgTypeStart then handleStart env wk packet
  else if packet.pkgType = pkgTypeData ∧ wk.state.filePath.isSome then handleData env wk packet
  else if packet.pkgType = pkgTypeParity ∧ wk.state.filePath.isSome then
    handleParity env wk packet
  else if packet.pkgType = pkgTypeEnd ∧ wk.state.filePath.isSome then finishFile env wk
  else if packet.pkgType = pkgTypeUdp ∧ env.udpForwardingEnabled then handleUdp wk packet
  else wk

/-- One turn of the worker loop: decode a datagram and handle it. -/
def handlePacket (env : Env) (wk : Worker) (raw : Bytes) : Worker :=
  match decodePacket raw with
  | none => wk.error [.lit "Failed to decode packet"]
  | some packet => dispatch env wk packet

/-- The worker loop on a sequence of datagrams. -/
def run (env : Env) (wk : Worker) (raws : List Bytes) : Worker :=
  raws.foldl (handlePacket env) wk

end DataDiode
