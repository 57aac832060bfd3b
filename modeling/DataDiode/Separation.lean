import DataDiode.Invariant
import DataDiode.UdpTransfer

/-!
# Files and Datagrams Side by Side

File packets and the packets of the UDP forwarder share the line, the datagrams of the receiver and
the worker thread. They have nothing else in common: whatever arrives, the files are handled as if
there were no UDP packets among it, and the UDP packets are handed on as if there were nothing else.

The counter of transferred bytes is the one place where both meet; no decision depends on it.

## Main results

* `dispatch_withUdp`: no handler of a file packet looks at what belongs to the forwarder.
* `run_separated`: any traffic, against its file packets alone and its UDP packets alone.
-/

namespace DataDiode

open World

/-- A datagram that the receiver reads as a UDP packet. -/
def udpPacket? (raw : Bytes) : Option Packet :=
  (decodePacket raw).filter fun packet => packet.pkgType = pkgTypeUdp

/-- A datagram of any other kind, also one that cannot be decoded. -/
def isFileTraffic (raw : Bytes) : Bool := (udpPacket? raw).isNone

/-- The UDP packets of some traffic. -/
def udpTraffic (raws : List Bytes) : List Packet := raws.filterMap udpPacket?

/-- The other datagrams of some traffic. -/
def fileTraffic (raws : List Bytes) : List Bytes := raws.filter isFileTraffic

/-- The file packets of two parts. -/
theorem fileTraffic_append (raws raws' : List Bytes) :
    fileTraffic (raws ++ raws') = fileTraffic raws ++ fileTraffic raws' := List.filter_append ..

/-- UDP packets are those that decode to one. -/
theorem udpPacket?_eq_some_iff {raw : Bytes} {packet : Packet} :
    udpPacket? raw = some packet ↔
      decodePacket raw = some packet ∧ packet.pkgType = pkgTypeUdp := by
  rw [udpPacket?, Option.filter_eq_some_iff, decide_eq_true_eq]

/-- The worker with another count of bytes, and other packets handed on. -/
def Worker.withUdp (wk : Worker) (total : ℕ) (udpTx : List Packet) : Worker :=
  { wk with stats := { wk.stats with totalTransferred := total }, udpTx := udpTx }

namespace Worker

variable (wk : Worker) (total : ℕ) (udpTx : List Packet)

/-- What belongs to the forwarder is no part of the state. -/
@[simp] theorem state_withUdp : (wk.withUdp total udpTx).state = wk.state := rfl

/-- What belongs to the forwarder is no part of the world. -/
@[simp] theorem world_withUdp : (wk.withUdp total udpTx).world = wk.world := rfl

/-- What belongs to the forwarder are the packets handed on. -/
@[simp] theorem udpTx_withUdp : (wk.withUdp total udpTx).udpTx = udpTx := rfl

/-- A worker with what belongs to it. -/
theorem withUdp_self : wk.withUdp wk.stats.totalTransferred wk.udpTx = wk := rfl

end Worker

/-! ### The handlers of file packets -/

section Handlers

variable (env : Env) (wk : Worker) (total : ℕ) (udpTx : List Packet)

variable {wk total udpTx} in
/-- The end of a transfer does not look at it. -/
theorem resetTransfer_withUdp {wk' : Worker} (h : wk' = wk.withUdp total udpTx) (success : Bool) :
    resetTransfer wk' success = (resetTransfer wk success).withUdp total udpTx := by
  rw [h, resetTransfer, resetTransfer, Worker.state_withUdp]
  split
  · rfl
  · split <;> rfl

variable {wk total udpTx} in
/-- Giving up a transfer does not look at what belongs to the forwarder. -/
theorem abandon_withUdp {wk' : Worker} (h : wk' = wk.withUdp total udpTx) (p : Str) :
    abandon env wk' p = (abandon env wk p).withUdp total udpTx := by
  rw [h, abandon, abandon]
  refine resetTransfer_withUdp ?_ false
  rfl

/-- Giving up the earlier transfer does not look at it. -/
theorem preempt_withUdp :
    preempt env (wk.withUdp total udpTx) = (preempt env wk).withUdp total udpTx := by
  rw [preempt, preempt, Worker.state_withUdp]
  split
  · rfl
  · refine abandon_withUdp env ?_ _
    rfl

/-- Refusing a START does not look at it. -/
theorem rejectStart_withUdp (reason : String) (path : Str) :
    rejectStart (wk.withUdp total udpTx) reason path =
      (rejectStart wk reason path).withUdp total udpTx := by
  rw [rejectStart, rejectStart]
  refine resetTransfer_withUdp ?_ false
  rfl

/-- Opening a transfer does not look at it. -/
theorem openTransfer_withUdp (path : Str) (size : ℕ) (pathHash : Bytes) (parity : ℕ) :
    openTransfer env (wk.withUdp total udpTx) path size pathHash parity =
      (openTransfer env wk path size pathHash parity).withUdp total udpTx := by
  rw [openTransfer, openTransfer, Worker.world_withUdp]
  dsimp only
  split <;> rfl

/-- A START, whatever becomes of it, does not look at it. -/
theorem newFile_withUdp (path : Str) (size : ℕ) (pathHash : Bytes) (parity : ℕ) :
    newFile env (wk.withUdp total udpTx) path size pathHash parity =
      (newFile env wk path size pathHash parity).withUdp total udpTx := by
  rw [newFile, newFile, Worker.state_withUdp, preempt_withUdp]
  split
  · rfl
  · dsimp only
    split
    · exact rejectStart_withUdp ..
    · split
      · exact rejectStart_withUdp ..
      · exact openTransfer_withUdp ..

/-- Finalizing a batch does not look at it. -/
theorem finalizeCurrentBatch_withUdp :
    finalizeCurrentBatch env (wk.withUdp total udpTx) =
      ((finalizeCurrentBatch env wk).1, (finalizeCurrentBatch env wk).2.withUdp total udpTx) := by
  rw [finalizeCurrentBatch, finalizeCurrentBatch, Worker.state_withUdp, Worker.world_withUdp]
  split
  · rfl
  · split <;> rfl

/-- Finalizing the last batch does not look at it. -/
theorem finalizeLast_withUdp (p : Str) :
    finalizeLast env (wk.withUdp total udpTx) p = (finalizeLast env wk p).withUdp total udpTx := by
  rw [finalizeLast, finalizeLast, Worker.state_withUdp, finalizeCurrentBatch_withUdp]
  split
  · rfl
  · generalize finalizeCurrentBatch env wk = result
    obtain ⟨_ | _, wk'⟩ := result <;> rfl

/-- Publishing a file does not look at it. -/
theorem publish_withUdp (p : Str) :
    publish env (wk.withUdp total udpTx) p = (publish env wk p).withUdp total udpTx := by
  rw [publish, publish, Worker.world_withUdp]
  split
  · refine abandon_withUdp env ?_ p
    rfl
  · refine resetTransfer_withUdp ?_ true
    rfl

/-- An END does not look at it. -/
theorem finishFile_withUdp :
    finishFile env (wk.withUdp total udpTx) = (finishFile env wk).withUdp total udpTx := by
  rw [finishFile, finishFile, Worker.state_withUdp]
  split
  · rfl
  · rename_i p _
    rw [finalizeLast_withUdp]
    dsimp only
    generalize finalizeLast env wk p = wk'
    rw [Worker.state_withUdp]
    split
    · refine abandon_withUdp env ?_ p
      rfl
    · exact publish_withUdp env { wk' with state := { wk'.state with output := none } }
        total udpTx p

/-- Leaving batches behind does not look at it. -/
theorem advanceBatches_withUdp (n : ℕ) : ∀ wk : Worker,
    advanceBatches env n (wk.withUdp total udpTx) =
      (advanceBatches env n wk).withUdp total udpTx := by
  induction n with
  | zero => exact fun _ => rfl
  | succ n ih =>
      intro wk
      rw [advanceBatches, advanceBatches, Worker.state_withUdp, finalizeCurrentBatch_withUdp]
      split
      · rfl
      · generalize finalizeCurrentBatch env wk = result
        obtain ⟨_ | _, wk'⟩ := result
        · rfl
        · exact ih wk'.nextBatch

/-- Going on to the batch of a chunk does not look at it. -/
theorem advanceToBatch_withUdp (batch : ℕ) :
    advanceToBatch env (wk.withUdp total udpTx) batch =
      (advanceToBatch env wk batch).withUdp total udpTx :=
  advanceBatches_withUdp env total udpTx _ wk

/-- Buffering a parity chunk does not look at it. -/
theorem bufferParity_withUdp (packet : Packet) (idx : ℕ) :
    bufferParity (wk.withUdp total udpTx) packet idx =
      (bufferParity wk packet idx).withUdp total udpTx := by
  rw [bufferParity, bufferParity, Worker.state_withUdp]
  split
  · rfl
  · split <;> rfl

/-- Keeping a DATA chunk counts its bytes. -/
theorem bufferData_withUdp (packet : Packet) :
    ∃ total', bufferData (wk.withUdp total udpTx) packet =
      (bufferData wk packet).withUdp total' udpTx := by
  rw [bufferData, bufferData, Worker.state_withUdp]
  split
  · exact ⟨total, rfl⟩
  · split
    · exact ⟨total, rfl⟩
    · exact ⟨saturatingAdd total packet.data.length, rfl⟩

/-- A chunk is taken or not whatever the forwarder has; only the counter of bytes moves. -/
theorem acceptChunk_withUdp (packet : Packet) (pkgType batch : ℕ) {buffer : Worker → Worker}
    (hbuffer : ∀ wk : Worker, ∃ total',
      buffer (wk.withUdp total udpTx) = (buffer wk).withUdp total' udpTx) :
    ∃ total', acceptChunk env (wk.withUdp total udpTx) packet pkgType batch buffer =
      (acceptChunk env wk packet pkgType batch buffer).withUdp total' udpTx := by
  rw [acceptChunk, acceptChunk, Worker.state_withUdp, Worker.world_withUdp]
  split
  · exact ⟨total, rfl⟩
  · generalize isChunkValid env wk.world packet wk.state pkgType = valid
    obtain ⟨_ | _, w⟩ := valid
    · exact ⟨total, rfl⟩
    · dsimp only
      rw [advanceToBatch_withUdp, ← apply_ite (Worker.withUdp · total udpTx)]
      generalize (if wk.state.currentBatch < batch then advanceToBatch env wk batch else wk) = wk'
      rw [Worker.state_withUdp]
      split
      · exact hbuffer wk'
      · exact ⟨total, rfl⟩

/-- **No handler of a file packet** looks at what belongs to the forwarder. -/
theorem dispatch_withUdp {packet : Packet} (h : packet.pkgType ≠ pkgTypeUdp) :
    ∃ total', dispatch env (wk.withUdp total udpTx) packet =
      (dispatch env wk packet).withUdp total' udpTx := by
  rw [dispatch, dispatch, Worker.state_withUdp]
  split
  · exact ⟨total, newFile_withUdp ..⟩
  · split
    · exact acceptChunk_withUdp env wk total udpTx packet _ _ fun wk =>
        bufferData_withUdp wk total udpTx packet
    · split
      · exact acceptChunk_withUdp env wk total udpTx packet _ _ fun wk =>
          ⟨total, bufferParity_withUdp wk total udpTx packet _⟩
      · split
        · exact ⟨total, finishFile_withUdp ..⟩
        · rw [if_neg fun hudp => h hudp.1, if_neg fun hudp => h hudp.1]
          exact ⟨total, rfl⟩

/-- A datagram of the file traffic. -/
theorem handlePacket_withUdp {raw : Bytes} (h : isFileTraffic raw = true) :
    ∃ total', handlePacket env (wk.withUdp total udpTx) raw =
      (handlePacket env wk raw).withUdp total' udpTx := by
  rw [handlePacket, handlePacket]
  split
  · exact ⟨total, rfl⟩
  · rename_i packet hdecode
    refine dispatch_withUdp env wk total udpTx fun hudp => ?_
    rw [isFileTraffic, udpPacket?_eq_some_iff.mpr ⟨hdecode, hudp⟩] at h
    exact absurd h (by simp)

end Handlers

/-! ### The packets handed on -/

/-- A datagram of the file traffic hands nothing on. -/
theorem handlePacket_udpTx (env : Env) (wk : Worker) {raw : Bytes}
    (h : isFileTraffic raw = true) : (handlePacket env wk raw).udpTx = wk.udpTx := by
  obtain ⟨total, htotal⟩ :=
    handlePacket_withUdp env wk wk.stats.totalTransferred wk.udpTx h
  rw [Worker.withUdp_self] at htotal
  rw [htotal]
  rfl

/-- A UDP packet is handed on, and counted. -/
theorem handlePacket_udp {env : Env} (henv : env.udpForwardingEnabled = true) (wk : Worker)
    {raw : Bytes} {packet : Packet} (h : udpPacket? raw = some packet) :
    handlePacket env wk raw = wk.withUdp (wk.stats.totalTransferred + packet.data.length)
      (wk.udpTx ++ [packet]) := by
  obtain ⟨hdecode, hudp⟩ := udpPacket?_eq_some_iff.mp h
  simp [handlePacket, hdecode, dispatch, hudp, henv, pkgTypeStart, pkgTypeData, pkgTypeParity,
    pkgTypeEnd, pkgTypeUdp, handleUdp, Worker.withUdp]

/-- A run of the worker, but for the count of bytes, is that of the file packets alone, with the UDP
packets handed on. -/
theorem run_eq_withUdp {env : Env} (henv : env.udpForwardingEnabled = true) (wk : Worker)
    (raws : List Bytes) : ∃ total, run env wk raws =
      (run env wk (fileTraffic raws)).withUdp total (wk.udpTx ++ udpTraffic raws) := by
  induction raws using List.reverseRecOn with
  | nil => exact ⟨_, by rw [udpTraffic, List.filterMap_nil, List.append_nil]; exact wk.withUdp_self⟩
  | append_singleton raws raw ih =>
      obtain ⟨total, ih⟩ := ih
      have hfiles : fileTraffic (raws ++ [raw]) =
          fileTraffic raws ++ if isFileTraffic raw then [raw] else [] := by
        rw [fileTraffic, List.filter_append, List.filter_singleton, Bool.cond_eq_ite, fileTraffic]
      have hudps : udpTraffic (raws ++ [raw]) = udpTraffic raws ++ [raw].filterMap udpPacket? :=
        List.filterMap_append
      rw [run_concat, ih, hfiles, hudps]
      cases hraw : udpPacket? raw with
      | none =>
          have hfile : isFileTraffic raw = true := by rw [isFileTraffic, hraw]; rfl
          obtain ⟨total', hstep⟩ := handlePacket_withUdp env (run env wk (fileTraffic raws)) total
            (wk.udpTx ++ udpTraffic raws) hfile
          rw [if_pos hfile, run_concat, hstep, List.filterMap_cons_none hraw, List.filterMap_nil,
            List.append_nil]
          exact ⟨total', rfl⟩
      | some packet =>
          have hudp : ¬isFileTraffic raw = true := by rw [isFileTraffic, hraw]; simp
          rw [if_neg hudp, List.append_nil, handlePacket_udp henv _ hraw,
            List.filterMap_cons_some hraw, List.filterMap_nil, ← List.append_assoc]
          exact ⟨_, rfl⟩

/-- **Files and datagrams do not disturb each other.** Whatever arrives, in whatever state and
whatever the operating system fails: the transfer in progress, the directory tree, the calls, the
log and the counts of files are what the file packets alone would have left, and exactly the UDP
packets are handed on, in their order. -/
theorem run_separated {env : Env} (henv : env.udpForwardingEnabled = true) (wk : Worker)
    (raws : List Bytes) :
    (run env wk raws).state = (run env wk (fileTraffic raws)).state ∧
      (run env wk raws).world = (run env wk (fileTraffic raws)).world ∧
      (run env wk raws).stats.filesTransferred =
        (run env wk (fileTraffic raws)).stats.filesTransferred ∧
      (run env wk raws).stats.filesFailed = (run env wk (fileTraffic raws)).stats.filesFailed ∧
      (run env wk raws).udpTx = wk.udpTx ++ udpTraffic raws := by
  obtain ⟨total, h⟩ := run_eq_withUdp henv wk raws
  rw [h]
  exact ⟨rfl, rfl, rfl, rfl, rfl⟩

/-- Datagrams that the receiver reads as UDP packets, all of them. -/
theorem udpTraffic_of_map {raws : List Bytes} {packets : List Packet}
    (h : raws.map decodePacket = packets.map some)
    (htypes : ∀ packet ∈ packets, packet.pkgType = pkgTypeUdp) :
    udpTraffic raws = packets ∧ fileTraffic raws = [] := by
  induction raws generalizing packets with
  | nil =>
      rw [List.map_nil, eq_comm, List.map_eq_nil_iff] at h
      rw [h]
      exact ⟨rfl, rfl⟩
  | cons raw raws ih =>
      cases packets with
      | nil => exact absurd h (by simp)
      | cons packet packets =>
          obtain ⟨hdecode, hrest⟩ := List.cons.inj h
          obtain ⟨hudps, hfiles⟩ := ih hrest fun p hp => htypes p (List.mem_cons_of_mem _ hp)
          have hraw : udpPacket? raw = some packet :=
            udpPacket?_eq_some_iff.mpr ⟨hdecode, htypes packet List.mem_cons_self⟩
          refine ⟨?_, ?_⟩
          · rw [udpTraffic, List.filterMap_cons_some hraw]
            exact congrArg (packet :: ·) hudps
          · rw [fileTraffic, List.filter_cons_of_neg (by simp [isFileTraffic, hraw])]
            exact hfiles

/-- The fragments of a datagram are UDP packets. -/
theorem UdpDatagram.Sendable.traffic {d : UdpDatagram} (hd : d.Sendable) :
    udpTraffic (udpFragments d) = d.packets ∧ fileTraffic (udpFragments d) = [] :=
  udpTraffic_of_map (map_decodePacket_udpFragments hd) fun _ hp => (mem_udpDecoded hp).1

/-- An announcement between the two copies of a datagram. -/
theorem run_separated_short :
    (run referenceEnv (.new referenceTree) (udpFragments shortDatagram ++
        startPacket referenceLibs 0 ['a'] batchParityChunks :: udpFragments shortDatagram)).world =
      (run referenceEnv (.new referenceTree) (fileTraffic (udpFragments shortDatagram ++
        startPacket referenceLibs 0 ['a'] batchParityChunks ::
          udpFragments shortDatagram))).world :=
  (run_separated rfl _ _).2.1

end DataDiode
