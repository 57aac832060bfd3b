import DataDiode.Buffers
import DataDiode.InOrder
import DataDiode.Reference
import DataDiode.Restore

/-!
# The Numbers of Parity Packets

The sender numbers the PARITY packets of a batch on from `batch * parityCount`, with the parity
count that it announces in the START packet. The receiver keeps the announced count and gives it
to the decoder, but it takes batch and index of a PARITY packet from its number by the constant
`batchParityChunks`. The two agree for the first shards of the first batch, and for the announced
count `batchParityChunks`; any other packet is lost, or makes the receiver leave its batch early.

## Main results

* `parityNumber_iff`: when a number stands for the batch and the index it was made from.
* `advanceBatches_ready`: a receiver that advances without failure.
* `handlePacket_keepsShard`: a PARITY packet is kept under its batch and index exactly if the
  numbers agree.
* `handlePacket_keepsShard_iff`: the same for every run of the receiver.
-/

namespace DataDiode

open World

/-! ### Numbers -/

/-- **A number stands for the batch and the index it was made from** for the first shards of the
first batch, or if the count is the constant of the receiver. -/
theorem parityNumber_iff {n b idx : ℕ} :
    batchForParity (b * n + idx) = b ∧ (b * n + idx) % batchParityChunks = idx ↔
      idx < batchParityChunks ∧ (b = 0 ∨ n = batchParityChunks) := by
  rw [batchForParity, batchParityChunks]
  constructor
  · rintro ⟨hbatch, hidx⟩
    have hnumber : b * n = b * 100 := by omega
    exact ⟨by omega, (mul_eq_mul_left_iff.mp hnumber).symm⟩
  · rintro ⟨hidx, rfl | rfl⟩
    · omega
    · omega

/-! ### Advancing -/

/-- A receiver that advances without failure stands at the target, with empty buffers if it was
not there before. -/
theorem advanceBatches_ready (env : Env) (n : ℕ) : ∀ {wk : Worker},
    (advanceBatches env n wk).state.failed = false →
      wk.state.failed = false ∧
      (advanceBatches env n wk).state.currentBatch = wk.state.currentBatch + n := by
  induction n with
  | zero => exact fun h => ⟨h, rfl⟩
  | succ n ih =>
      intro wk h
      rw [advanceBatches] at h ⊢
      by_cases hfailed : wk.state.failed = true
      · rw [if_pos hfailed, hfailed] at h
        exact absurd h (by simp)
      rw [if_neg hfailed] at h ⊢
      have hstate := finalizeCurrentBatch_state env wk
      split at h
      · exact absurd h (by simp [Worker.markFailed])
      · rename_i wk' heq
        rw [heq] at hstate
        rcases hstate with ⟨e, herr, -⟩ | ⟨-, hstate⟩
        · exact absurd herr (by simp)
        · obtain ⟨-, hbatch⟩ := ih h
          have hnext : wk'.nextBatch.state.currentBatch = wk.state.currentBatch + 1 := by
            rw [Worker.nextBatch, hstate]
            rfl
          exact ⟨by simpa using hfailed, by omega⟩

/-- A receiver in a batch is where it advances to. -/
theorem advanceToBatch_of_le {env : Env} {wk : Worker} {b : ℕ} (h : b ≤ wk.state.currentBatch) :
    advanceToBatch env wk b = wk := by
  rw [advanceToBatch, Nat.sub_eq_zero_of_le h]
  rfl

/-- A batch that is reached without a failure has been reached without one before. -/
theorem advanceToBatch_ready {env : Env} {wk : Worker} {b : ℕ} (hb : wk.state.currentBatch ≤ b)
    (h : (advanceToBatch env wk b).state.failed = false) :
    wk.state.failed = false ∧ (advanceToBatch env wk b).state.currentBatch = b := by
  obtain ⟨hfailed, hbatch⟩ := advanceBatches_ready env _ h
  exact ⟨hfailed, hbatch.trans (by omega)⟩

/-! ### Parity packets at the receiver -/

/-- The receiver waits for the shard of a batch: it is in that batch or gets there, and does not
have the shard. -/
structure Awaits (env : Env) (wk : Worker) (b idx : ℕ) : Prop where
  le : wk.state.currentBatch ≤ b
  ready : (advanceToBatch env wk b).state.failed = false
  fresh : (advanceToBatch env wk b).state.parityBuffer.contains idx = false

/-- The receiver has the shard of a batch: the transfer goes on in that batch, and the shard is
among those that the decoder is fed with. -/
structure KeepsShard (wk : Worker) (b idx : ℕ) (shard : Bytes) : Prop where
  active : wk.state.failed = false
  current : wk.state.currentBatch = b
  fed : (idx, shard) ∈ wk.state.recoveries

/-- What is fed to the decoder has been buffered. -/
theorem contains_of_mem_recoveries {s : ReceiveState} {idx : ℕ} {shard : Bytes}
    (h : (idx, shard) ∈ s.recoveries) : s.parityBuffer.contains idx = true := by
  have hmem := Std.TreeMap.mem_toList_iff_getElem?_eq_some.mp (List.mem_filter.mp h).1
  rw [← Std.TreeMap.isSome_getElem?_eq_contains, hmem]
  rfl

/-- A shard that was waited for is not there yet. -/
theorem Awaits.not_keepsShard {env : Env} {wk : Worker} {b idx : ℕ} (h : Awaits env wk b idx)
    (shard : Bytes) : ¬KeepsShard wk b idx shard := by
  intro hkeeps
  have hsame : advanceToBatch env wk b = wk := advanceToBatch_of_le hkeeps.current.ge
  have hfresh := h.fresh
  rw [hsame, contains_of_mem_recoveries hkeeps.fed] at hfresh
  exact absurd hfresh (by simp)

/-- A parity shard whose number does not fit the header is not taken for one. -/
theorem handlePacket_parity_long (env : Env) {wk : Worker} {count : ℕ} {pathHash data : Bytes}
    (hactive : wk.state.filePath.isSome) (hhash : pathHash.length = 32)
    (hcount : countBound ≤ count) (hlen : data.length = shardSize) :
    (handlePacket env wk
      (encodePacketInto pkgTypeParity count pathHash (env.md5.hex data) data)).state =
        wk.state := by
  have hdigits : 11 ≤ (Decimal.zeroPadded 10 count).length := by
    have hne := (Decimal.length_zeroPadded_eq_iff (w := 10) (n := count) (by decide)).not.mpr
      (not_lt.mpr hcount)
    have hge := Decimal.le_length_zeroPadded 10 count
    omega
  obtain ⟨htype, hparse⟩ := decimal_pkgType (t := pkgTypeParity) (by decide)
  rw [handlePacket]
  cases hdecode : decodePacket
      (encodePacketInto pkgTypeParity count pathHash (env.md5.hex data) data) with
  | none => rfl
  | some packet =>
      obtain ⟨-, hpkgType, -, -, -, hdata⟩ := decodePacket_eq_some_iff.mp hdecode
      have hparityType : packet.pkgType = pkgTypeParity := by
        have hfirst : slice (encodePacketInto pkgTypeParity count pathHash (env.md5.hex data) data)
            0 1 = Decimal.decimal pkgTypeParity := take_one_encodePacketInto (by decide) _ _ _ _
        rw [hfirst, hparse] at hpkgType
        exact (Option.some.inj hpkgType).symm
      have hlong : packet.data.length ≠ shardSize := by
        rw [hdata, encodePacketInto]
        simp only [List.length_drop, List.length_append, htype, hhash, env.md5.length_hex, hlen,
          shardSize]
        omega
      have hinvalid : (isChunkValid env wk.world packet wk.state pkgTypeParity).1 = false := by
        by_contra hvalid
        exact hlong ((isChunkValid_length (by simpa using hvalid)).2 rfl)
      have hfirst : ¬(packet.pkgType = pkgTypeStart) := by
        rw [hparityType]
        decide
      have hsecond : ¬(packet.pkgType = pkgTypeData ∧ wk.state.filePath.isSome) := by
        rw [hparityType]
        exact fun h => absurd h.1 (by decide)
      simp only
      rw [dispatch, if_neg hfirst, if_neg hsecond, if_pos ⟨hparityType, hactive⟩, handleParity,
        acceptChunk]
      split
      · rfl
      · split
        · rfl
        · rename_i heq
          rw [heq] at hinvalid
          exact absurd hinvalid (by simp)

/-- A fresh shard is kept. -/
theorem bufferParity_keepsShard {wk : Worker} (hbuf : wk.Buffered) (packet : Packet) {i : ℕ}
    (hactive : wk.state.failed = false) (hfresh : wk.state.parityBuffer.contains i = false)
    (hlen : packet.data.length = shardSize) (hi : i < wk.state.parityPerBatch) :
    KeepsShard (bufferParity wk packet i) wk.state.currentBatch i packet.data := by
  rw [bufferParity, if_neg (by rw [hfresh]; exact Bool.false_ne_true),
    if_neg (hbuf.room hlen.le).1]
  refine ⟨hactive, rfl, List.mem_filter.mpr ⟨?_, ?_⟩⟩
  · exact Std.TreeMap.mem_toList_iff_getElem?_eq_some.mpr Std.TreeMap.getElem?_insert_self
  · simpa [inBatch] using hi

/-- Keeping one shard adds no other. -/
theorem bufferParity_contains {wk : Worker} (packet : Packet) {i j : ℕ} (hne : i ≠ j)
    (hfresh : wk.state.parityBuffer.contains j = false) :
    (bufferParity wk packet i).state.parityBuffer.contains j = false := by
  rw [bufferParity]
  split
  · exact hfresh
  split
  · exact hfresh
  · have hcmp : compare i j ≠ .eq := fun h => hne (Std.LawfulEqOrd.eq_of_compare h)
    simpa [Std.TreeMap.contains_insert, hcmp] using hfresh

/-- A shard of the batch that is waited in is kept under its number. -/
theorem bufferParity_keepsShard_iff {env : Env} {wk : Worker} {b idx i : ℕ} {packet : Packet}
    (hbuf : wk.Buffered) (hlen : packet.data.length = shardSize)
    (hidx : idx < wk.state.parityPerBatch) (hawaits : Awaits env wk b idx) :
    KeepsShard (bufferParity (advanceToBatch env wk b) packet i) b idx packet.data ↔ i = idx := by
  have hcurrent := (advanceToBatch_ready hawaits.le hawaits.ready).2
  by_cases hnumber : i = idx
  · have hbuf' : (advanceToBatch env wk b).Buffered := advanceBatches_buffered env _ hbuf
    have hsame := advanceBatches_sameTransfer env (b - wk.state.currentBatch) wk
    have hkeeps := bufferParity_keepsShard hbuf' packet (i := idx) hawaits.ready hawaits.fresh hlen
      (by rw [advanceToBatch, hsame.parityPerBatch]; exact hidx)
    rw [hcurrent] at hkeeps
    rw [hnumber]
    exact ⟨fun _ => rfl, fun _ => hkeeps⟩
  · refine ⟨fun h => ?_, fun h => absurd h hnumber⟩
    have hnone := bufferParity_contains packet hnumber hawaits.fresh
    rw [contains_of_mem_recoveries h.fed] at hnone
    exact absurd hnone (by simp)

/-- A shard that counts for another batch is not kept for the one that is waited in: it is kept
for that other batch, or passed over. -/
theorem not_keepsShard_of_other {env : Env} {wk : Worker} {b b' idx i : ℕ} {packet : Packet}
    {shard : Bytes} (hawaits : Awaits env wk b idx) (hother : b' ≠ b) :
    let wk' := if wk.state.currentBatch < b' then advanceToBatch env wk b' else wk
    ¬KeepsShard (if wk'.state.failed = false ∧ b' = wk'.state.currentBatch then
      bufferParity wk' packet i else wk') b idx shard := by
  dsimp only
  generalize hwk' : (if wk.state.currentBatch < b' then advanceToBatch env wk b' else wk) = wk'
  split
  · -- the shard is kept for the other batch
    rename_i hkept
    intro hkeeps
    have hcurrent := hkeeps.current
    rw [bufferParity_currentBatch, ← hkept.2] at hcurrent
    exact hother hcurrent
  · intro hkeeps
    rw [← hwk'] at hkeeps
    split at hkeeps
    · -- the receiver leaves for the other batch
      rename_i hlt
      have hcurrent := (advanceToBatch_ready hlt.le hkeeps.active).2
      exact hother (hcurrent.symm.trans hkeeps.current)
    · exact hawaits.not_keepsShard shard hkeeps

/-- **A PARITY packet is kept under its batch and index** exactly if they are those of its
number, and the number fits the header. -/
theorem handlePacket_keepsShard (env : Env) {wk : Worker} {n b idx : ℕ} {pathHash shard : Bytes}
    (hbuf : wk.Buffered) (hactive : wk.state.filePath.isSome)
    (hpath : wk.state.pathHash = some pathHash) (hhash : pathHash.length = 32)
    (hlen : shard.length = shardSize) (hparity : wk.state.parityPerBatch = n) (hidx : idx < n)
    (hawaits : Awaits env wk b idx) :
    KeepsShard (handlePacket env wk (encodePacketInto pkgTypeParity (b * n + idx) pathHash
        (env.md5.hex shard) shard)) b idx shard ↔
      idx < batchParityChunks ∧ (b = 0 ∨ n = batchParityChunks) ∧ b * n + idx < countBound := by
  rw [← and_assoc, ← parityNumber_iff]
  obtain ⟨hfailed, hready⟩ := advanceToBatch_ready hawaits.le hawaits.ready
  by_cases hcount : b * n + idx < countBound
  swap
  · have hsame := handlePacket_parity_long env hactive hhash (not_lt.mp hcount) hlen
    refine ⟨fun h => absurd ?_ (hawaits.not_keepsShard shard), fun h => absurd h.2 hcount⟩
    exact ⟨hsame ▸ h.active, hsame ▸ h.current, hsame ▸ h.fed⟩
  rw [handlePacket_parity env _ hactive hfailed hpath hhash hcount hlen, and_iff_left hcount]
  generalize b * n + idx = count
  by_cases hbatch : batchForParity count = b
  · -- the batch of the shard is the one the receiver waits in
    have hadvance : (if wk.state.currentBatch < batchForParity count then
        advanceToBatch env wk (batchForParity count) else wk) = advanceToBatch env wk b := by
      rw [hbatch]
      split
      · rfl
      · rw [advanceToBatch_of_le (by omega)]
    dsimp only
    rw [hadvance, if_pos ⟨hawaits.ready, hbatch.trans hready.symm⟩,
      bufferParity_keepsShard_iff hbuf hlen (hparity ▸ hidx) hawaits]
    exact ⟨fun h => ⟨hbatch, h⟩, And.right⟩
  · exact ⟨fun h => absurd h (not_keepsShard_of_other hawaits hbatch), fun h => absurd h.1 hbatch⟩

/-! ### Runs -/

/-- The shard that the sender computes under an index. -/
def parityShard (libs : Libs) (payloads : List Bytes) (parityCount idx : ℕ) : Bytes :=
  (libs.rs.encode (payloads.map fillShard) parityCount).getD idx []

/-- What the sender emits for a batch, packet by packet. -/
theorem getElem?_sendParityPackets {libs : Libs} {relPathHash : Bytes} {payloads : List Bytes}
    {n b idx : ℕ} (hne : payloads ≠ []) (hsupports : libs.rs.supports payloads.length n = true)
    (hidx : idx < n) :
    (sendParityPackets libs .ideal relPathHash payloads n b).2.sent[idx]? =
      some (encodePacketInto pkgTypeParity (b * n + idx) relPathHash
        (libs.md5.hex (parityShard libs payloads n idx)) (parityShard libs payloads n idx)) := by
  have hcount : (payloads.map fillShard).length = payloads.length := List.length_map _
  have hencode : libs.rs.runEncoder (payloads.map fillShard) n =
      .ok (libs.rs.encode (payloads.map fillShard) n) := by
    rw [ReedSolomon.runEncoder, hcount, if_pos hsupports]
  have hlen : (libs.rs.encode (payloads.map fillShard) n).length = n :=
    libs.rs.length_encode (by rw [hcount]; exact hsupports)
  have hsent := sendParityPackets_eq_sendInOrder hne (by omega) hencode .ideal relPathHash b
  rw [Net.ideal, sendInOrder_ideal] at hsent
  rw [Net.ideal, ← (Prod.mk.inj hsent).2, parityPackets]
  have hget : (libs.rs.encode (payloads.map fillShard) n)[idx]? =
      some (parityShard libs payloads n idx) := by
    rw [parityShard, List.getD_eq_getElem?_getD, List.getElem?_eq_getElem (by omega)]
    rfl
  simp [hget]

/-- A parity packet holds a shard. -/
theorem length_parityShard {libs : Libs} {payloads : List Bytes} {n idx : ℕ}
    (hpayloads : ∀ data ∈ payloads, data.length ≤ shardSize)
    (hsupports : libs.rs.supports payloads.length n = true) (hidx : idx < n) :
    (parityShard libs payloads n idx).length = shardSize := by
  have hcount : (payloads.map fillShard).length = payloads.length := List.length_map _
  rw [← hcount] at hsupports
  have hlen := libs.rs.length_encode hsupports
  rw [parityShard, List.getD_eq_getElem _ _ (by omega)]
  refine libs.rs.length_of_mem_encode hsupports (by decide) (fun s hs => ?_) _
    (List.getElem_mem _)
  obtain ⟨data, hdata, rfl⟩ := List.mem_map.mp hs
  exact length_fillShard (hpayloads data hdata)

/-- **The numbering of parity agrees** exactly for the first shards of the first batch and for the
announced count `batchParityChunks`, as far as the number fits the header: in every run, a PARITY
packet of the batch that the receiver waits for is kept under its batch and index if and only if
that is so. -/
theorem handlePacket_keepsShard_iff (env : Env) (fs : Tree) (raws : List Bytes) (wk : Worker)
    (relPath : Str) (payloads : List Bytes) (n b idx : ℕ) (packet : Bytes)
    (hwk : wk = run env (.new fs) raws) (hne : payloads ≠ [])
    (hpayloads : ∀ data ∈ payloads, data.length ≤ chunkSize)
    (hsupports : env.rs.supports payloads.length n = true) (hidx : idx < n)
    (hpacket : (sendParityPackets env.toLibs .ideal (env.md5.hex (Utf8.encode relPath)) payloads
      n b).2.sent[idx]? = some packet)
    (hactive : wk.state.filePath.isSome)
    (hpath : wk.state.pathHash = some (env.md5.hex (Utf8.encode relPath)))
    (hparity : wk.state.parityPerBatch = n) (hawaits : Awaits env wk b idx) :
    KeepsShard (handlePacket env wk packet) b idx (parityShard env.toLibs payloads n idx) ↔
      idx < batchParityChunks ∧ (b = 0 ∨ n = batchParityChunks) ∧ b * n + idx < countBound := by
  have hbuf : wk.Buffered := hwk ▸ Worker.Buffered.run (.of_new rfl) (.of_new rfl) raws
  rw [getElem?_sendParityPackets hne hsupports hidx, Option.some.injEq] at hpacket
  rw [← hpacket]
  exact handlePacket_keepsShard env hbuf hactive hpath (env.md5.length_hex _)
    (length_parityShard (fun data hdata => (hpayloads data hdata).trans (by decide)) hsupports
      hidx) hparity hidx hawaits

/-- A receiver to which a file of one byte has been announced, with 150 parity shards a batch. -/
noncomputable def announced150 : Worker :=
  run referenceEnv (.new referenceTree) [startPacket referenceLibs 1 ['a'] 150]

/-- The state once the file is announced. -/
theorem announced150_state :
    let s := announced150.state
    s.filePath.isSome ∧ s.pathHash = some (referenceEnv.md5.hex (Utf8.encode ['a'])) ∧
      s.parityPerBatch = 150 ∧ s.currentBatch = 0 ∧ s.failed = false ∧
      s.parityBuffer.toList = [] := by
  decide +kernel

/-- The state waits for parity of the first batch, under whatever number. -/
theorem announced150_awaits (idx : ℕ) : Awaits referenceEnv announced150 0 idx := by
  obtain ⟨-, -, -, hbatch, hfailed, hempty⟩ := announced150_state
  have hsame : advanceToBatch referenceEnv announced150 0 = announced150 :=
    advanceToBatch_of_le (Nat.zero_le _)
  refine ⟨hbatch.le, by rw [hsame, hfailed], ?_⟩
  rw [hsame, ← Bool.not_eq_true, Std.TreeMap.contains_iff_mem, ← Std.TreeMap.mem_keys,
    ← Std.TreeMap.map_fst_toList_eq_keys, hempty]
  exact List.not_mem_nil

/-- The PARITY packet of the one batch of the file under an index. -/
noncomputable def parityPacket150 (idx : ℕ) : Bytes :=
  encodePacketInto pkgTypeParity (0 * 150 + idx) (referenceEnv.md5.hex (Utf8.encode ['a']))
    (referenceEnv.md5.hex (parityShard referenceLibs [[98]] 150 idx))
    (parityShard referenceLibs [[98]] 150 idx)

/-- The sender emits the packets. -/
theorem parityPacket150_sent {idx : ℕ} (h : idx < 150) :
    (sendParityPackets referenceLibs .ideal (referenceEnv.md5.hex (Utf8.encode ['a'])) [[98]] 150
      0).2.sent[idx]? = some (parityPacket150 idx) :=
  getElem?_sendParityPackets (by simp) (by decide) h

/-- The shard with the index 120 is not kept: its number stands for the second batch. -/
theorem handlePacket_loses_shard :
    announced150 = run referenceEnv (.new referenceTree) [startPacket referenceLibs 1 ['a'] 150] ∧
      announced150.state.filePath.isSome ∧ announced150.state.parityPerBatch = 150 ∧
      referenceEnv.rs.supports 1 150 = true ∧ Awaits referenceEnv announced150 0 120 ∧
      (sendParityPackets referenceLibs .ideal (referenceEnv.md5.hex (Utf8.encode ['a'])) [[98]]
        150 0).2.sent[120]? = some (parityPacket150 120) ∧
      ¬KeepsShard (handlePacket referenceEnv announced150 (parityPacket150 120)) 0 120
        (parityShard referenceLibs [[98]] 150 120) := by
  obtain ⟨hactive, hpath, hparity, -⟩ := announced150_state
  have hbuf : announced150.Buffered := Worker.Buffered.run (.of_new rfl) (.of_new rfl) _
  have hlen : (parityShard referenceLibs [[98]] 150 120).length = shardSize :=
    length_parityShard (by decide) (by decide) (by decide)
  refine ⟨rfl, hactive, hparity, by decide, announced150_awaits 120,
    parityPacket150_sent (by decide), ?_⟩
  rw [parityPacket150]
  refine (handlePacket_keepsShard referenceEnv hbuf hactive hpath
    (referenceEnv.md5.length_hex _) hlen hparity (by decide) (announced150_awaits 120)).not.mpr ?_
  decide

/-- The shard with the index 99 is kept. -/
theorem handlePacket_keepsShard_iff_announced150 :
    KeepsShard (handlePacket referenceEnv announced150 (parityPacket150 99)) 0 99
        (parityShard referenceEnv.toLibs [[98]] 150 99) ↔
      99 < batchParityChunks ∧ (0 = 0 ∨ 150 = batchParityChunks) ∧ 0 * 150 + 99 < countBound := by
  obtain ⟨hactive, hpath, hparity, -⟩ := announced150_state
  exact handlePacket_keepsShard_iff referenceEnv referenceTree
    [startPacket referenceLibs 1 ['a'] 150] announced150 ['a'] [[98]] 150 0 99
    (parityPacket150 99) rfl (by simp) (by decide) (by decide) (by decide)
    (parityPacket150_sent (by decide)) hactive hpath hparity (announced150_awaits 99)

end DataDiode
