import DataDiode.Crypto
import DataDiode.Source

/-!
# The Sender

`sendFileChunks` sends one file: START packets, the chunks of the file as DATA packets with
the PARITY packets of each batch behind it, END packets, and at last the removal of the
file. The socket may report a full buffer any number of times before it takes a packet, or
fail for good (`Net`); the file may be read in pieces or be written to by others
(`DataDiode.Source`).

Failures of DATA, START and END packets end the transfer; failures of PARITY packets are
passed over.

## Main results

* `SendLoop.loop_eof`, `SendLoop.loop_chunk`: the turns of the sending loop.
* `emitted`: the packets that leave the sender for a file nobody else touches, over a socket
  that takes every packet.
-/

namespace DataDiode

/-- How often control packets are sent. -/
def controlResend : ℕ := 3

/-- How the socket takes a packet. -/
inductive SendOutcome
  | ok
  /-- No buffer space: try again. -/
  | enobufs
  | failed
  deriving DecidableEq, Repr

/-- The socket: how it takes the next packets, and what it has taken. When the outcomes have
run out, it takes everything. -/
structure Net where
  outcomes : List SendOutcome
  sent : List Bytes

/-- A socket that takes everything. -/
def Net.ideal : Net := ⟨[], []⟩

/-- The outcome of one packet, after waiting for buffer space. -/
def settle : List SendOutcome → Bool × List SendOutcome
  | [] => (true, [])
  | .ok :: rest => (true, rest)
  | .enobufs :: rest => settle rest
  | .failed :: rest => (false, rest)

/-- Send a packet, retrying while there is no buffer space. -/
def sendToBlocking (net : Net) (packet : Bytes) : Bool × Net :=
  match settle net.outcomes with
  | (true, rest) => (true, ⟨rest, net.sent ++ [packet]⟩)
  | (false, rest) => (false, ⟨rest, net.sent⟩)

/-- A socket that takes everything. -/
theorem sendToBlocking_of_outcomes_nil {net : Net} (h : net.outcomes = []) (packet : Bytes) :
    sendToBlocking net packet = (true, ⟨[], net.sent ++ [packet]⟩) := by
  rw [sendToBlocking, h]
  rfl

/-- Send a packet `n` times, up to the first failure. -/
def sendTimes (packet : Bytes) : ℕ → Net → Bool × Net
  | 0, net => (true, net)
  | n + 1, net =>
      match sendToBlocking net packet with
      | (true, net) => sendTimes packet n net
      | (false, net) => (false, net)

/-- Send a packet `times` times, but at least once. -/
def sendWithRetry (net : Net) (packet : Bytes) (times : ℕ) : Bool × Net :=
  sendTimes packet (max times 1) net

/-- The START packet of a file: its size, its path and the number of parity chunks. -/
def startPacket (libs : Libs) (filesize : ℕ) (relPath : Str) (parityCount : ℕ) : Bytes :=
  encodePacket pkgTypeStart filesize (libs.md5.hex (Utf8.encode relPath))
    (encodeParityField parityCount) (Utf8.encode relPath)

/-- An announcement is sent several times. -/
def sendStartPacket (libs : Libs) (net : Net) (filesize : ℕ) (relPath : Str)
    (parityCount : ℕ) : Bool × Net :=
  sendWithRetry net (startPacket libs filesize relPath parityCount) controlResend

/-- The END packet of a file: its path and the number of its chunks. -/
def endPacket (relPath : Str) (count : ℕ) : Bytes :=
  encodePacket pkgTypeEnd count emptyHash emptyHash (Utf8.encode relPath)

/-- Send the END packets and remove the file. -/
def sendEndPacket (net : Net) (src : Source) (relPath : Str) (count : ℕ) :
    Bool × Net × Source :=
  match sendWithRetry net (endPacket relPath count) controlResend with
  | (false, net) => (false, net, src)
  | (true, net) => (src.removeFile.1, net, src.removeFile.2)

/-- The DATA packet of a chunk: its number and its digest. -/
def dataPacket (libs : Libs) (relPathHash : Bytes) (chunk : Bytes) (count : ℕ) : Bytes :=
  encodePacketInto pkgTypeData count relPathHash (libs.md5.hex chunk) chunk

/-- A chunk is sent once. -/
def sendDataPacket (libs : Libs) (net : Net) (relPathHash chunk : Bytes) (count : ℕ) :
    Bool × Net :=
  sendToBlocking net (dataPacket libs relPathHash chunk count)

/-- A chunk in a zeroed shard buffer. -/
def fillShard (data : Bytes) : Bytes := data ++ List.replicate (shardSize - data.length) 0

/-- The PARITY packets of a batch: its recovery shards, numbered on from those of the batches
before. -/
def parityPackets (libs : Libs) (relPathHash : Bytes) (recovery : List Bytes)
    (parityCount batchIdx : ℕ) : List Bytes :=
  recovery.zipIdx.map fun parity =>
    encodePacketInto pkgTypeParity (batchIdx * parityCount + parity.2) relPathHash
      (libs.md5.hex parity.1) parity.1

/-- Send the PARITY packets of a batch. A packet that cannot be sent is passed over. -/
def sendParityPackets (libs : Libs) (net : Net) (relPathHash : Bytes)
    (dataPayloads : List Bytes) (parityCount batchIdx : ℕ) : Except RsError Unit × Net :=
  if dataPayloads = [] ∨ parityCount = 0 then (.ok (), net)
  else
    match libs.rs.runEncoder (dataPayloads.map fillShard) parityCount with
    | .error e => (.error e, net)
    | .ok recovery =>
        (.ok (), (parityPackets libs relPathHash recovery parityCount batchIdx).foldl
          (fun net packet => (sendToBlocking net packet).2) net)

/-- The state of the sending loop. -/
structure SendLoop where
  net : Net
  src : Source
  reader : Reader
  count : ℕ
  batchIdx : ℕ
  batchPayloads : List Bytes

namespace SendLoop

/-- Send the parity of the batch, even if that fails, and start the next batch. -/
def flushBatch (libs : Libs) (relPathHash : Bytes) (st : SendLoop) : SendLoop :=
  { st with
    net := (sendParityPackets libs st.net relPathHash st.batchPayloads batchParityChunks
      st.batchIdx).2
    batchIdx := st.batchIdx + 1
    batchPayloads := [] }

/-- Send a chunk, and the parity of its batch if the batch is full. -/
def sendChunk (libs : Libs) (relPathHash : Bytes) (st : SendLoop) (chunk : Bytes) :
    Bool × SendLoop :=
  match sendDataPacket libs st.net relPathHash chunk st.count with
  | (false, net) => (false, { st with net := net })
  | (true, net) =>
      let st := { st with
        net := net, count := st.count + 1, batchPayloads := st.batchPayloads ++ [chunk] }
      (true, if st.batchPayloads.length = batchDataChunks then st.flushBatch libs relPathHash
        else st)

/-- Sending a chunk neither looks at the file nor reads from it. -/
theorem sendChunk_src (libs : Libs) (relPathHash : Bytes) (st : SendLoop) (chunk : Bytes) :
    (st.sendChunk libs relPathHash chunk).2.src = st.src ∧
      (st.sendChunk libs relPathHash chunk).2.reader = st.reader := by
  rw [sendChunk]
  split
  · exact ⟨rfl, rfl⟩
  · dsimp only
    split <;> exact ⟨rfl, rfl⟩

/-- Send the file chunk by chunk, until it ends or something fails. -/
def loop (libs : Libs) (relPathHash : Bytes) (st : SendLoop) : Bool × SendLoop :=
  match _h : readChunk st.src st.reader chunkSize [] with
  | (none, r, s) => (false, { st with reader := r, src := s })
  | (some chunk, r, s) =>
      if chunk = [] then (true, { st with reader := r, src := s })
      else
        match _hs : ({ st with reader := r, src := s } : SendLoop).sendChunk libs relPathHash
            chunk with
        | (false, st) => (false, st)
        | (true, st) => loop libs relPathHash st
  termination_by (st.src.schedule.length, (st.reader.remaining st.src).length)
  decreasing_by
    rename_i st₀ hne
    have hkeep := sendChunk_src libs relPathHash { st₀ with reader := r, src := s } chunk
    rw [_hs] at hkeep
    obtain ⟨hsrc, hreader⟩ := hkeep
    simp only at hsrc hreader
    rw [hsrc, hreader]
    have hp := readChunk_progress st₀.src st₀.reader chunkSize []
    rw [_h] at hp
    rcases hp with hlt | ⟨hsame, hfresh⟩
    · exact Prod.Lex.left _ _ hlt
    · simp only at hsame
      subst hsame
      obtain ⟨fresh, hchunk, hrem⟩ := hfresh chunk rfl
      rw [List.nil_append] at hchunk
      subst hchunk
      refine Prod.Lex.right _ ?_
      have hpos := List.length_pos_iff.mpr hne
      rw [hrem, List.length_append]
      simp only
      omega

/-- The loop ends at the end of the file. -/
theorem loop_eof {libs : Libs} {relPathHash : Bytes} {st : SendLoop} {r : Reader} {s : Source}
    (hread : readChunk st.src st.reader chunkSize [] = (some [], r, s)) :
    st.loop libs relPathHash = (true, { st with reader := r, src := s }) := by
  rw [loop]
  split
  · rename_i heq
    rw [hread] at heq
    simp at heq
  · rename_i heq
    rw [hread, Prod.mk.injEq, Prod.mk.injEq, Option.some.injEq] at heq
    obtain ⟨rfl, rfl, rfl⟩ := heq
    rw [if_pos rfl]

/-- The loop goes on behind a chunk that is sent. -/
theorem loop_chunk {libs : Libs} {relPathHash : Bytes} {st st' : SendLoop} {r : Reader}
    {s : Source} {chunk : Bytes}
    (hread : readChunk st.src st.reader chunkSize [] = (some chunk, r, s)) (hne : chunk ≠ [])
    (hsend : ({ st with reader := r, src := s } : SendLoop).sendChunk libs relPathHash chunk =
      (true, st')) :
    st.loop libs relPathHash = st'.loop libs relPathHash := by
  rw [loop]
  split
  · rename_i heq
    rw [hread] at heq
    simp at heq
  · rename_i heq
    rw [hread, Prod.mk.injEq, Prod.mk.injEq, Option.some.injEq] at heq
    obtain ⟨rfl, rfl, rfl⟩ := heq
    rw [if_neg hne]
    split
    · rename_i heq'
      exact absurd (hsend.symm.trans heq') (by simp)
    · rename_i heq'
      rw [(Prod.mk.inj (hsend.symm.trans heq')).2]

end SendLoop

/-- Send one file. -/
def sendFileChunks (libs : Libs) (net : Net) (src : Source) (relPath : Str) :
    Bool × Net × Source :=
  let relPathHash := libs.md5.hex (Utf8.encode relPath)
  match src.metadataLen with
  | (none, src) => (false, net, src)
  | (some filesize, src) =>
      match sendStartPacket libs net filesize relPath batchParityChunks with
      | (false, net) => (false, net, src)
      | (true, net) =>
          match src.openFile with
          | (none, src) => (false, net, src)
          | (some inode, src) =>
              match SendLoop.loop libs relPathHash ⟨net, src, .new inode, 0, 0, []⟩ with
              | (false, st) => (false, st.net, st.src)
              | (true, st) =>
                  let st := if st.batchPayloads = [] then st
                    else st.flushBatch libs relPathHash
                  sendEndPacket st.net st.src relPath st.count

/-- The packets sent for a file nobody else touches, over a socket that takes every packet. -/
def emitted (libs : Libs) (relPath : Str) (contents : Bytes) : List Bytes :=
  (sendFileChunks libs .ideal (.ofContents contents) relPath).2.1.sent

end DataDiode
