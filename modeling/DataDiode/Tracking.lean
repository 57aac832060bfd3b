import Mathlib.Data.List.ReduceOption
import DataDiode.Collecting

/-!
# The Receiver Follows the Progress of a Transfer

The handlers of the receiver, on the packets of one file, do what `Transfer.progress` says
(`Tracks`): a chunk is buffered, passed over, or makes the receiver advance or give up; the
END packet publishes the file or leaves a failure.

## Main results

* `Tracks.handlePacket_chunk`: one chunk is one step of `Transfer.progress`.
* `Tracks.run`: any sequence of chunks and repeated announcements.
* `Collecting.handlePacket_end`, `Tracks.handlePacket_end`: the end of a transfer.
-/

namespace DataDiode

/-! ### Buffering -/

namespace Gathered

variable {libs : Libs} {t : Transfer} {b : ℕ} {got : List ChunkId} {s : ReceiveState}

/-- A batch has few packets. -/
theorem card_le (h : Gathered libs t b got s) :
    got.toFinset.card ≤ batchDataChunks + batchParityChunks := by
  have hsub : got.toFinset ⊆ (t.batchIds b).toFinset := by
    intro c hc
    obtain ⟨hchunk, hb⟩ := h.chunks c (List.mem_toFinset.mp hc)
    exact List.mem_toFinset.mpr ((t.mem_batchIds (hb ▸ hchunk.batch_lt)).mpr ⟨hchunk, hb⟩)
  have hlen := t.length_batchIds b
  have hsize := t.batchSize_le b
  calc got.toFinset.card ≤ (t.batchIds b).toFinset.card := Finset.card_le_card hsub
    _ ≤ (t.batchIds b).length := List.toFinset_card_le _
    _ ≤ batchDataChunks + batchParityChunks := by omega

/-- A packet that is gathered already adds nothing. -/
theorem cons_of_mem (h : Gathered libs t b got s) {c : ChunkId} (hc : c ∈ got) :
    Gathered libs t b (c :: got) s := by
  have hmem : ∀ c', c' ∈ c :: got ↔ c' ∈ got := by
    intro c'
    rw [List.mem_cons]
    exact ⟨fun h => h.elim (fun h => h ▸ hc) id, Or.inr⟩
  refine ⟨h.fileSize, h.parityPerBatch, h.currentBatch, fun i => ?_, fun j => ?_, fun c' hc' => ?_⟩
  · simp only [h.data i, hmem]
  · simp only [h.parity j, hmem]
  · exact h.chunks c' ((hmem c').mp hc')

/-- A DATA packet of the batch has been gathered. -/
theorem insertData (h : Gathered libs t b got s) {i : ℕ} (hi : t.HasChunk (.data i))
    (hb : (ChunkId.data i).batch = b) (bytes transferred : ℕ) :
    Gathered libs t b (.data i :: got)
      { s with
        bytesBuffered := bytes
        bytesTransferred := transferred
        dataBuffer := s.dataBuffer.insert i (t.chunkAt i) } := by
  refine ⟨h.fileSize, h.parityPerBatch, h.currentBatch, fun i' => ?_, fun j => ?_, fun c hc => ?_⟩
  · rw [Std.TreeMap.getElem?_insert, h.data]
    by_cases heq : i = i'
    · rw [heq, if_pos (by simp), if_pos List.mem_cons_self]
    · rw [if_neg (by simpa using heq)]
      simp [Ne.symm heq]
  · simp [h.parity]
  · rcases List.mem_cons.mp hc with rfl | hc
    · exact ⟨hi, hb⟩
    · exact h.chunks c hc

/-- A PARITY packet of the batch has been gathered. -/
theorem insertParity (h : Gathered libs t b got s) {j : ℕ} (hj : t.HasChunk (.parity b j))
    (bytes : ℕ) :
    Gathered libs t b (.parity b j :: got)
      { s with
        bytesBuffered := bytes
        parityBuffer := s.parityBuffer.insert j (t.recoveryShard libs b j) } := by
  refine ⟨h.fileSize, h.parityPerBatch, h.currentBatch, fun i => ?_, fun j' => ?_, fun c hc => ?_⟩
  · simp [h.data]
  · rw [Std.TreeMap.getElem?_insert, h.parity]
    by_cases heq : j = j'
    · rw [heq, if_pos (by simp), if_pos List.mem_cons_self]
    · rw [if_neg (by simpa using heq)]
      simp [Ne.symm heq]
  · rcases List.mem_cons.mp hc with rfl | hc
    · exact ⟨hj, rfl⟩
    · exact h.chunks c hc

end Gathered

/-- How a chunk is buffered. -/
def ChunkId.buffer (c : ChunkId) (packet : Packet) (wk : Worker) : Worker :=
  match c with
  | .data _ => bufferData wk packet
  | .parity _ _ => bufferParity wk packet (packet.count % batchParityChunks)

namespace Transfer

variable {env : Env} {t : Transfer}

/-- The handler of the packet of a chunk. -/
theorem handlePacket_chunk (ht : t.contents.length < countBound) {c : ChunkId}
    (hc : t.HasChunk c) {wk : Worker} (hactive : wk.state.filePath.isSome) :
    handlePacket env wk (t.chunkPacket env.toLibs c) =
      acceptChunk env wk (t.chunk env.toLibs c) (t.chunk env.toLibs c).pkgType c.batch
        (c.buffer (t.chunk env.toLibs c)) := by
  rw [handlePacket, decodePacket_chunkPacket env.toLibs hc ht]
  cases c with
  | data i =>
      have hstart : ¬(t.chunk env.toLibs (.data i)).pkgType = pkgTypeStart :=
        (by decide : ¬pkgTypeData = pkgTypeStart)
      simp only
      rw [dispatch, if_neg hstart, if_pos ⟨rfl, hactive⟩]
      rfl
  | parity b j =>
      have hstart : ¬(t.chunk env.toLibs (.parity b j)).pkgType = pkgTypeStart :=
        (by decide : ¬pkgTypeParity = pkgTypeStart)
      have hdata : ¬((t.chunk env.toLibs (.parity b j)).pkgType = pkgTypeData ∧
          wk.state.filePath.isSome) := fun h =>
        absurd h.1 (by decide : ¬pkgTypeParity = pkgTypeData)
      have hbatch : batchForParity (t.chunk env.toLibs (.parity b j)).count = b := by
        have hj := hc.2
        rw [batchParityChunks] at hj
        change (b * 100 + j) / 100 = b
        omega
      simp only
      rw [dispatch, if_neg hstart, if_neg hdata, if_pos ⟨rfl, hactive⟩, handleParity, hbatch]
      rfl

/-- The handler of the START packet. -/
theorem handlePacket_start (ht : t.contents.length < countBound) (wk : Worker) :
    handlePacket env wk (t.startPacket env.toLibs) =
      newFile env wk t.path t.contents.length (t.pathHash env.toLibs) batchParityChunks := by
  have hparity : decodeParityField (t.start env.toLibs).dataHash = some batchParityChunks :=
    decodeParityField_encodeParityField (by decide)
  rw [handlePacket, decodePacket_startPacket env.toLibs ht]
  simp only
  rw [dispatch, if_pos (show (t.start env.toLibs).pkgType = pkgTypeStart from rfl), handleStart,
    hparity]
  simp only [start, Utf8.fromUtf8Lossy_encode, Option.getD_some]

/-- The handler of the END packet. -/
theorem handlePacket_end (ht : t.contents.length < countBound) {wk : Worker}
    (hactive : wk.state.filePath.isSome) :
    handlePacket env wk t.endPacket = finishFile env wk := by
  rw [handlePacket, decodePacket_endPacket ht]
  have hstart : ¬t.finish.pkgType = pkgTypeStart := (by decide : ¬pkgTypeEnd = pkgTypeStart)
  have hdata : ¬(t.finish.pkgType = pkgTypeData ∧ wk.state.filePath.isSome) :=
    fun h => absurd h.1 (by decide : ¬pkgTypeEnd = pkgTypeData)
  have hparity : ¬(t.finish.pkgType = pkgTypeParity ∧ wk.state.filePath.isSome) :=
    fun h => absurd h.1 (by decide : ¬pkgTypeEnd = pkgTypeParity)
  simp only
  rw [dispatch, if_neg hstart, if_neg hdata, if_neg hparity, if_pos ⟨rfl, hactive⟩]

/-- The receiver finds nothing wrong with the packet of a chunk. -/
theorem isChunkValid_chunk {c : ChunkId} (hc : t.HasChunk c) (w : World) {s : ReceiveState}
    (hhash : s.pathHash = some (t.pathHash env.toLibs)) :
    isChunkValid env w (t.chunk env.toLibs c) s (t.chunk env.toLibs c).pkgType = (true, w) := by
  have hpath : ¬(s.pathHash ≠ none ∧ s.pathHash ≠ some (t.chunk env.toLibs c).pathHash) := by
    rw [hhash]
    cases c <;> exact fun h => h.2 rfl
  have hdigest : ¬(env.md5.hex (t.chunk env.toLibs c).data ≠ (t.chunk env.toLibs c).dataHash) := by
    cases c <;> exact fun h => h rfl
  have hdata : ¬((t.chunk env.toLibs c).pkgType = pkgTypeData ∧
      ¬(1 ≤ (t.chunk env.toLibs c).data.length ∧
        (t.chunk env.toLibs c).data.length ≤ chunkSize)) := by
    cases c with
    | data i =>
        refine fun h => h.2 ⟨?_, t.length_chunkAt_le i⟩
        exact List.length_pos_iff.mpr (t.chunkAt_ne_nil_iff.mpr hc)
    | parity b j => exact fun h => absurd h.1 (by decide : ¬pkgTypeParity = pkgTypeData)
  have hparity : ¬((t.chunk env.toLibs c).pkgType = pkgTypeParity ∧
      (t.chunk env.toLibs c).data.length ≠ shardSize) := by
    cases c with
    | data i => exact fun h => absurd h.1 (by decide : ¬pkgTypeData = pkgTypeParity)
    | parity b j => exact fun h => h.2 (t.length_recoveryShard env.toLibs hc.1 hc.2)
  rw [isChunkValid, if_neg hpath, if_neg hdata, if_neg hparity, if_neg hdigest]

end Transfer

namespace Collecting

variable {env : Env} {t : Transfer} {old : List FsCall} {base : Tree} {b : ℕ}
  {got : List ChunkId} {wk : Worker}

/-- The byte limit is out of reach of one batch. -/
theorem room (h : Collecting env t old base b got wk) {data : Bytes}
    (hdata : data.length ≤ shardSize) :
    ¬bufferByteLimit < saturatingAdd wk.state.bytesBuffered data.length ∧
      saturatingAdd wk.state.bytesBuffered data.length ≤
        shardSize * (wk.state.dataBuffer.size + wk.state.parityBuffer.size + 1) := by
  have hbytes := h.bytes
  have hcard := h.gathered.card_le
  have hsize := h.gathered.size_add_size
  have hsum : saturatingAdd wk.state.bytesBuffered data.length ≤
      wk.state.bytesBuffered + data.length := min_le_left _ _
  rw [hsize] at hbytes ⊢
  simp only [batchDataChunks, batchParityChunks] at hcard
  simp only [shardSize] at hbytes hdata ⊢
  rw [bufferByteLimit]
  omega

/-- **A packet of the current batch** is gathered. -/
theorem buffer (h : Collecting env t old base b got wk) {c : ChunkId} (hc : t.HasChunk c)
    (hb : c.batch = b) :
    Collecting env t old base b (c :: got) (c.buffer (t.chunk env.toLibs c) wk) := by
  cases c with
  | data i =>
      have hcontains : wk.state.dataBuffer.contains i = true ↔ .data i ∈ got := by
        rw [Std.TreeMap.contains_eq_isSome_getElem?, h.gathered.data]
        split <;> simp_all
      have hlen : (t.chunk env.toLibs (.data i)).data.length ≤ shardSize :=
        t.length_chunkAt_le_shardSize i
      obtain ⟨hfits, hbytes⟩ := h.room hlen
      have hcount : (t.chunk env.toLibs (.data i)).count = i := rfl
      rw [ChunkId.buffer, bufferData, hcount]
      by_cases hgot : .data i ∈ got
      · rw [if_pos (hcontains.mpr hgot)]
        exact { h with gathered := h.gathered.cons_of_mem hgot }
      · rw [if_neg (hcontains.not.mpr hgot), if_neg hfits]
        refine { h with
          bytes := ?_
          gathered := h.gathered.insertData hc hb _ _ }
        change _ ≤ shardSize * ((wk.state.dataBuffer.insert i _).size + wk.state.parityBuffer.size)
        rw [Std.TreeMap.size_insert, if_neg (hcontains.not.mpr hgot), Nat.add_right_comm]
        exact hbytes
  | parity b' j =>
      obtain rfl : b' = b := hb
      have hindex : (t.chunk env.toLibs (.parity b' j)).count % batchParityChunks = j := by
        have hj := hc.2
        rw [batchParityChunks] at hj
        change (b' * 100 + j) % 100 = j
        omega
      have hcontains : wk.state.parityBuffer.contains j = true ↔ .parity b' j ∈ got := by
        rw [Std.TreeMap.contains_eq_isSome_getElem?, h.gathered.parity]
        split <;> simp_all
      have hlen : (t.chunk env.toLibs (.parity b' j)).data.length ≤ shardSize :=
        (t.length_recoveryShard env.toLibs hc.1 hc.2).le
      obtain ⟨hfits, hbytes⟩ := h.room hlen
      rw [ChunkId.buffer, bufferParity, hindex]
      by_cases hgot : .parity b' j ∈ got
      · rw [if_pos (hcontains.mpr hgot)]
        exact { h with gathered := h.gathered.cons_of_mem hgot }
      · rw [if_neg (hcontains.not.mpr hgot), if_neg hfits]
        refine { h with
          bytes := ?_
          gathered := h.gathered.insertParity hc _ }
        change _ ≤ shardSize * (wk.state.dataBuffer.size + (wk.state.parityBuffer.insert j _).size)
        rw [Std.TreeMap.size_insert, if_neg (hcontains.not.mpr hgot)]
        exact hbytes

/-- **A later batch**: the next one is reached with enough packets of the current one; in all
other cases the transfer fails. -/
theorem advance (henv : env.NoFaults) (h : Collecting env t old base b got wk) {target : ℕ}
    (hlt : b < target) (htarget : target < t.batchCount) :
    if target = b + 1 ∧ t.Enough b got
    then Collecting env t old base target [] (advanceToBatch env wk target)
    else (advanceToBatch env wk target).state.failed = true := by
  have hactive : ∀ {wk : Worker} {b got}, Collecting env t old base b got wk →
      ¬wk.state.failed = true := fun h => by
    rw [h.failed]
    exact Bool.false_ne_true
  obtain ⟨n, hn⟩ : ∃ n, target - b = n + 1 := ⟨target - b - 1, by omega⟩
  rw [advanceToBatch, h.gathered.currentBatch, hn, advanceBatches, if_neg (hactive h)]
  by_cases henough : t.Enough b got
  · obtain ⟨w', hfinalize, hfilled⟩ := h.finalizeCurrentBatch_ok henv henough
    have hnext := h.next hfilled
    rw [hfinalize]
    cases n with
    | zero =>
        obtain rfl : target = b + 1 := by omega
        rw [if_pos ⟨rfl, henough⟩]
        exact hnext
    | succ n =>
        -- no packet of the next batch can have been gathered
        obtain ⟨e, herror⟩ := hnext.finalizeCurrentBatch_error
          (Transfer.not_enough_nil (t := t) (by omega))
        rw [if_neg (fun h => by omega)]
        simp only
        rw [advanceBatches, if_neg (hactive hnext), herror]
        rfl
  · obtain ⟨e, herror⟩ := h.finalizeCurrentBatch_error henough
    rw [if_neg (fun h => henough h.2), herror]
    rfl

end Collecting

/-! ### Following the progress -/

/-- The worker is as far as the progress says. -/
def Tracks (env : Env) (t : Transfer) (old : List FsCall) (base : Tree) :
    Progress → Worker → Prop
  | .failed, wk => wk.state.filePath = some t.path ∧ wk.state.failed = true
  | .collecting b got, wk => Collecting env t old base b got wk

namespace Tracks

variable {env : Env} {t : Transfer} {old : List FsCall} {base : Tree} {s : Progress} {wk : Worker}

/-- The path in progress. -/
theorem filePath (h : Tracks env t old base s wk) : wk.state.filePath = some t.path := by
  cases s with
  | failed => exact h.1
  | collecting b got => exact Collecting.filePath h

/-- A transfer is in progress. -/
theorem isSome (h : Tracks env t old base s wk) : wk.state.filePath.isSome := by
  rw [h.filePath]
  rfl

/-- **One chunk is one step** of the progress. -/
theorem handlePacket_chunk (henv : env.NoFaults) (ht : t.Small) (h : Tracks env t old base s wk)
    {c : ChunkId} (hc : t.HasChunk c) :
    Tracks env t old base (t.progress s c)
        (handlePacket env wk (t.chunkPacket env.toLibs c)) := by
  rw [Transfer.handlePacket_chunk ht.length_lt hc h.isSome, acceptChunk]
  cases s with
  | failed =>
      rw [if_pos h.2]
      exact h
  | collecting b got =>
      have h : Collecting env t old base b got wk := h
      rw [if_neg (by rw [h.failed]; exact Bool.false_ne_true), Transfer.isChunkValid_chunk hc _
        h.pathHash]
      simp only [h.gathered.currentBatch, Transfer.progress]
      rcases Nat.lt_trichotomy c.batch b with hlt | heq | hgt
      · rw [if_neg (not_lt.mpr hlt.le), if_pos hlt, h.gathered.currentBatch,
          if_neg fun h => hlt.ne h.2]
        exact h
      · rw [if_neg heq.not_gt, if_neg heq.not_lt, if_pos heq, h.gathered.currentBatch,
          if_pos ⟨h.failed, heq⟩]
        exact h.buffer hc heq
      · have hadvance := h.advance henv hgt hc.batch_lt
        rw [if_pos hgt, if_neg hgt.not_gt, if_neg hgt.ne']
        split
        · rename_i hnext
          rw [if_pos hnext] at hadvance
          rw [if_pos ⟨hadvance.failed, hadvance.gathered.currentBatch.symm⟩]
          exact hadvance.buffer hc rfl
        · rename_i hstuck
          rw [if_neg hstuck] at hadvance
          rw [if_neg fun h => Bool.false_ne_true (h.1.symm.trans hadvance)]
          exact ⟨(advanceBatches_sameTransfer env _ wk).filePath.trans h.filePath, hadvance⟩

/-- A repeated announcement changes nothing. -/
theorem handlePacket_start (ht : t.Small) (h : Tracks env t old base s wk) :
    handlePacket env wk (t.startPacket env.toLibs) = wk := by
  rw [Transfer.handlePacket_start ht.length_lt, newFile, if_pos h.filePath]

/-- The counts of finished transfers, before and after. -/
theorem handlePacket_stats (ht : t.Small) (h : Tracks env t old base s wk) {c : ChunkId}
    (hc : t.HasChunk c) :
    SameTransfer wk (handlePacket env wk (t.chunkPacket env.toLibs c)) := by
  rw [Transfer.handlePacket_chunk ht.length_lt hc h.isSome]
  refine acceptChunk_sameTransfer env wk _ _ _ fun wk => ?_
  cases c with
  | data i => exact bufferData_sameTransfer wk _
  | parity b j => exact bufferParity_sameTransfer wk _ _

end Tracks

/-- The packets of a file other than its END: a chunk, or the announcement. -/
def Transfer.bodyPacket (libs : Libs) (t : Transfer) : Option ChunkId → Bytes
  | some c => t.chunkPacket libs c
  | none => t.startPacket libs

namespace Transfer

variable (libs : Libs) (t : Transfer) (k : ℕ) {ids : List ChunkId}

/-- Announcements followed by chunks. -/
theorem map_bodyPacket : (List.replicate k none ++ ids.map some).map (t.bodyPacket libs) =
    List.replicate k (t.startPacket libs) ++ ids.map (t.chunkPacket libs) := by
  rw [List.map_append, List.map_replicate, List.map_map]
  rfl

/-- The chunks among the packets. -/
theorem reduceOption_body : (List.replicate k none ++ ids.map some).reduceOption = ids := by
  rw [List.reduceOption_append, List.reduceOption_replicate_none, List.nil_append,
    List.reduceOption, List.filterMap_map]
  exact List.filterMap_some

/-- The chunks that arrive are chunks of the file. -/
theorem hasChunk_of_mem_body (hids : ∀ c ∈ ids, t.HasChunk c) {c : ChunkId}
    (h : some c ∈ List.replicate k none ++ ids.map some) : t.HasChunk c := by
  rw [← List.reduceOption_mem_iff, reduceOption_body] at h
  exact hids c h

end Transfer

/-- **Any sequence of chunks and repeated announcements** is followed. -/
theorem Tracks.run {env : Env} {t : Transfer} {old : List FsCall} {base : Tree}
    (henv : env.NoFaults) (ht : t.Small) {cs : List (Option ChunkId)}
    (hcs : ∀ c, some c ∈ cs → t.HasChunk c) :
    ∀ {s : Progress} {wk : Worker}, Tracks env t old base s wk →
      Tracks env t old base (cs.reduceOption.foldl t.progress s)
          (DataDiode.run env wk (cs.map (t.bodyPacket env.toLibs))) ∧
        SameTransfer wk (DataDiode.run env wk (cs.map (t.bodyPacket env.toLibs))) := by
  induction cs with
  | nil => exact fun h => ⟨h, SameTransfer.refl _⟩
  | cons c cs ih =>
      intro s wk h
      have hcs' : ∀ c, some c ∈ cs → t.HasChunk c := fun c hc => hcs c (List.mem_cons_of_mem _ hc)
      rw [List.map_cons, run_cons]
      cases c with
      | none =>
          rw [List.reduceOption_cons_of_none, Transfer.bodyPacket, h.handlePacket_start ht]
          exact ih hcs' h
      | some c =>
          have hc := hcs c List.mem_cons_self
          rw [List.reduceOption_cons_of_some, List.foldl_cons]
          obtain ⟨htracks, hsame⟩ := ih hcs' (h.handlePacket_chunk henv ht hc)
          exact ⟨htracks, (h.handlePacket_stats ht hc).trans hsame⟩

/-! ### The end of a transfer -/

/-- **The END packet publishes** a file of which the last batch collected is complete. -/
theorem Collecting.handlePacket_end {env : Env} {t : Transfer} {old : List FsCall} {base : Tree}
    {b : ℕ} {got : List ChunkId} {wk : Worker} (henv : env.NoFaults) (ht : t.Small)
    (h : Collecting env t old base b got wk) (henough : t.Enough b got) {wk' : Worker}
    (hwk' : wk' = handlePacket env wk t.endPacket) :
    wk'.state = .new ∧
      wk'.stats = { wk.stats with filesTransferred := wk.stats.filesTransferred + 1 } ∧
      wk'.world.fs.contents (env.locate (env.finalPath t.path)) =
        some (t.filled ((b + 1) * batchDataChunks)) ∧
      wk'.world.fs.node (env.locate (env.partialPath t.path)) = none ∧
      wk'.world.fs.node (env.locate (env.failedPath t.path)) = none ∧
      Wrote env t old ((b + 1) * batchDataChunks) wk'.world := by
  have hactive : wk.state.filePath.isSome := by
    rw [h.filePath]
    rfl
  obtain ⟨w', hfinalize, hfilled⟩ := h.finalizeCurrentBatch_ok henv henough
  have hlast : finalizeLast env wk t.path =
      { wk with state := wk.state.clearBuffers, world := w' } := by
    rw [finalizeLast, if_neg (by rw [h.failed]; exact Bool.false_ne_true), hfinalize]
  set wk₁ : Worker :=
    { wk with state := { wk.state.clearBuffers with output := none }, world := w' } with hwk₁
  have hpath₁ : wk₁.state.filePath = some t.path := h.filePath
  have hfinish : handlePacket env wk t.endPacket = publish env wk₁ t.path := by
    rw [Transfer.handlePacket_end ht.length_lt hactive, finishFile, h.filePath]
    simp only [hlast]
    rw [if_neg (by rw [ReceiveState.clearBuffers, h.failed]; exact Bool.false_ne_true)]
  rw [hwk', hfinish]
  obtain ⟨hstate, hstats, hcontents, hpart, hmarker⟩ :=
    publish_ok henv ht.accepted hpath₁ h.ready hfilled.holds
  obtain ⟨more, hcalls, hmore, -⟩ := publish_steps env wk₁ t.path
  exact ⟨hstate, hstats, hcontents, hpart, hmarker,
    hfilled.wrote.after hcalls fun c hc => (hmore c hc).2⟩

/-- **The END packet counts a failure** otherwise. -/
theorem Tracks.handlePacket_end {env : Env} {t : Transfer} {old : List FsCall} {base : Tree}
    {s : Progress} {wk : Worker} (ht : t.Small) (h : Tracks env t old base s wk)
    (hmissing : ∀ b got, s = .collecting b got → ¬t.Enough b got) {wk' : Worker}
    (hwk' : wk' = handlePacket env wk t.endPacket) :
    wk'.state = .new ∧ wk'.stats = { wk.stats with filesFailed := wk.stats.filesFailed + 1 } := by
  have hlast : (finalizeLast env wk t.path).state.failed = true ∧
      (finalizeLast env wk t.path).state.filePath = some t.path ∧
      (finalizeLast env wk t.path).stats = wk.stats := by
    cases s with
    | failed =>
        rw [finalizeLast, if_pos h.2]
        exact ⟨h.2, h.1, rfl⟩
    | collecting b got =>
        have hpath := h.filePath
        obtain ⟨e, herror⟩ := Collecting.finalizeCurrentBatch_error h (hmissing b got rfl)
        rw [finalizeLast, if_neg (by rw [Collecting.failed h]; exact Bool.false_ne_true), herror]
        exact ⟨rfl, hpath, rfl⟩
  obtain ⟨hfailed, hpath, hstats⟩ := hlast
  rw [hwk', Transfer.handlePacket_end ht.length_lt h.isSome, finishFile, h.filePath]
  simp only
  rw [if_pos hfailed]
  refine ⟨abandon_state _ _ _, ?_⟩
  rw [abandon_stats (by rw [hpath]; rfl), hstats]

end DataDiode
