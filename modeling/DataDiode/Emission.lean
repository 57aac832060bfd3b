import DataDiode.InOrder
import DataDiode.ReceiveState
import DataDiode.Slices
import DataDiode.Steady
import DataDiode.UdpSender

/-!
# What the Sender Emits

The packets of one file in closed form: START packets, then batch by batch the DATA packets of
up to a thousand chunks and the PARITY packets behind them, then END packets. Whatever the socket
does, and however a steady file is read, the sender tries these packets in order. The sending loop
is run through its invariant `SendLoop.Reached`: after `i` chunks it has sent all full batches and
the DATA packets of the batch begun.

## Main results

* `SendLoop.Reached.sendChunk`, `SendLoop.loop_inOrder`, `SendLoop.Reached.flush`: the invariant,
  chunk by chunk, to the end of the file, and with the parity of the last batch.
* `sendFileChunks_inOrder`: a file is sent in order, and removed only if all packets are sent.
* `emitted_eq`: the packets of a file, over a socket that takes everything.
-/

namespace DataDiode

/-- A file to send. -/
structure Transfer where
  path : Str
  contents : Bytes
  deriving DecidableEq

namespace Transfer

variable (libs : Libs) (t : Transfer)

/-- The hash of the path. -/
def pathHash : Bytes := libs.md5.hex (Utf8.encode t.path)

/-- The `i`-th chunk of the file. -/
def chunkAt (i : ℕ) : Bytes := Slices.chunk chunkSize t.contents i

/-- The number of chunks. -/
def chunkCount : ℕ := totalChunks t.contents.length

/-- The number of chunks of a batch. -/
def batchSize (b : ℕ) : ℕ := batchDataSize b t.contents.length

/-- The number of batches. -/
def batchCount : ℕ := (t.chunkCount + batchDataChunks - 1) / batchDataChunks

/-- The first `n` chunks of a batch. -/
def batchPayloads (b n : ℕ) : List Bytes :=
  (List.range n).map fun i => t.chunkAt (b * batchDataChunks + i)

/-- The original shards of a batch. -/
def shards (b : ℕ) : List Bytes := (t.batchPayloads b (t.batchSize b)).map fillShard

/-- The recovery shards of a batch. -/
def recovery (b : ℕ) : List Bytes := libs.rs.encode (t.shards b) batchParityChunks

/-- The DATA packets of the first `n` chunks of a batch. -/
def dataPackets (b n : ℕ) : List Bytes :=
  (List.range n).map fun i => dataPacket libs (t.pathHash libs)
    (t.chunkAt (b * batchDataChunks + i)) (b * batchDataChunks + i)

/-- The packets of a batch. -/
def batchPackets (b : ℕ) : List Bytes :=
  t.dataPackets libs b (t.batchSize b) ++
    parityPackets libs (t.pathHash libs) (t.recovery libs b) batchParityChunks b

/-- The DATA and PARITY packets of the file. -/
def chunkPackets : List Bytes := (List.range t.batchCount).flatMap (t.batchPackets libs)

/-! ### Counting chunks -/

/-- The chunks of a file cover it. -/
theorem lt_chunkCount_iff {i : ℕ} :
    i < t.chunkCount ↔ chunkSize * i < t.contents.length :=
  Slices.lt_chunkCount_iff (l := t.contents) (by decide)

/-- The chunks of a file are those that are not empty. -/
theorem chunkAt_ne_nil_iff {i : ℕ} : t.chunkAt i ≠ [] ↔ i < t.chunkCount :=
  Slices.chunk_ne_nil_iff (by decide)

/-- A batch is full, but for the last one. -/
theorem batchSize_eq (b : ℕ) :
    t.batchSize b = min (t.chunkCount - b * batchDataChunks) batchDataChunks := by
  rw [batchSize, batchDataSize, chunkCount]
  split
  · rename_i h
    rw [Nat.sub_eq_zero_of_le h, Nat.zero_min]
  · rfl

/-- No batch has more than a thousand chunks. -/
theorem batchSize_le (b : ℕ) : t.batchSize b ≤ batchDataChunks := by
  rw [batchSize_eq]
  exact min_le_right _ _

/-- A batch has chunks exactly if it is one of the batches of the file. -/
theorem batchSize_pos_iff {b : ℕ} : 0 < t.batchSize b ↔ b < t.batchCount := by
  rw [batchSize_eq, batchCount, batchDataChunks]
  omega

/-- A chunk is in its batch. -/
theorem mod_lt_batchSize_iff {i : ℕ} :
    i % batchDataChunks < t.batchSize (i / batchDataChunks) ↔ i < t.chunkCount := by
  rw [batchSize_eq, batchDataChunks]
  omega

/-- As many payloads as asked for. -/
@[simp] theorem length_batchPayloads (b n : ℕ) : (t.batchPayloads b n).length = n := by
  rw [batchPayloads, List.length_map, List.length_range]

/-- A batch has as many shards as chunks. -/
@[simp] theorem length_shards (b : ℕ) : (t.shards b).length = t.batchSize b := by
  rw [shards, List.length_map, length_batchPayloads]

/-- One more payload. -/
theorem batchPayloads_succ (b n : ℕ) :
    t.batchPayloads b (n + 1) = t.batchPayloads b n ++ [t.chunkAt (b * batchDataChunks + n)] := by
  rw [batchPayloads, List.range_succ, List.map_append, List.map_singleton]
  rfl

/-- One more packet. -/
theorem dataPackets_succ (b n : ℕ) : t.dataPackets libs b (n + 1) = t.dataPackets libs b n ++
    [dataPacket libs (t.pathHash libs) (t.chunkAt (b * batchDataChunks + n))
      (b * batchDataChunks + n)] := by
  rw [dataPackets, List.range_succ, List.map_append, List.map_singleton]
  rfl

/-- The library handles the shards of every batch of a file. -/
theorem supports_batch {b : ℕ} (hb : b < t.batchCount) :
    libs.rs.supports (t.batchSize b) batchParityChunks = true := by
  have hpos := t.batchSize_pos_iff.mpr hb
  have hle := t.batchSize_le b
  rw [batchDataChunks] at hle
  exact libs.rs.supports_of_le hpos (by omega) (by decide) (by decide)

/-- The parity of a complete batch can be computed. -/
theorem runEncoder_batch {b : ℕ} (hb : b < t.batchCount) :
    libs.rs.runEncoder ((t.batchPayloads b (t.batchSize b)).map fillShard) batchParityChunks =
      .ok (t.recovery libs b) := by
  have hlen : ((t.batchPayloads b (t.batchSize b)).map fillShard).length = t.batchSize b :=
    t.length_shards b
  rw [ReedSolomon.runEncoder, hlen, if_pos (t.supports_batch libs hb)]
  rfl

/-! ### Packets up to a chunk -/

/-- The DATA and PARITY packets before the `i`-th chunk. -/
def packetsBefore (i : ℕ) : List Bytes :=
  (List.range (i / batchDataChunks)).flatMap (t.batchPackets libs) ++
    t.dataPackets libs (i / batchDataChunks) (i % batchDataChunks)

/-- Nothing comes before the first chunk. -/
theorem packetsBefore_zero : t.packetsBefore libs 0 = [] := by
  simp [packetsBefore, dataPackets]

/-- The PARITY packets behind the `i`-th chunk: those of its batch, if it ends a full one. -/
def parityBehind (i : ℕ) : List Bytes :=
  if i % batchDataChunks + 1 = batchDataChunks then
    parityPackets libs (t.pathHash libs) (t.recovery libs (i / batchDataChunks)) batchParityChunks
      (i / batchDataChunks)
  else []

/-- The last chunk of a full batch. -/
theorem batchSize_of_full {i : ℕ} (hi : i < t.chunkCount)
    (hfull : i % batchDataChunks + 1 = batchDataChunks) :
    t.batchSize (i / batchDataChunks) = i % batchDataChunks + 1 := by
  have := (t.mod_lt_batchSize_iff).mpr hi
  have := t.batchSize_le (i / batchDataChunks)
  omega

/-- **One chunk more**: its DATA packet, and the parity of its batch if that is full. -/
theorem packetsBefore_succ {i : ℕ} (hi : i < t.chunkCount) :
    t.packetsBefore libs (i + 1) =
      t.packetsBefore libs i ++ ([dataPacket libs (t.pathHash libs) (t.chunkAt i) i] ++
        t.parityBehind libs i) := by
  have hlt : i % batchDataChunks < batchDataChunks := Nat.mod_lt _ (by decide)
  have hdata := t.dataPackets_succ libs (i / batchDataChunks) (i % batchDataChunks)
  rw [Nat.div_add_mod' i batchDataChunks] at hdata
  rw [packetsBefore, packetsBefore, parityBehind]
  by_cases hfull : i % batchDataChunks + 1 = batchDataChunks
  · have hdiv : (i + 1) / batchDataChunks = i / batchDataChunks + 1 := by
      rw [batchDataChunks] at hfull ⊢
      omega
    have hmod : (i + 1) % batchDataChunks = 0 := by
      rw [batchDataChunks] at hfull ⊢
      omega
    have hempty : t.dataPackets libs (i / batchDataChunks + 1) 0 = [] := rfl
    rw [if_pos hfull, hdiv, hmod, hempty, List.append_nil, List.range_succ, List.flatMap_append,
      List.flatMap_singleton, batchPackets, t.batchSize_of_full hi hfull, hdata]
    simp only [List.append_assoc]
  · have hdiv : (i + 1) / batchDataChunks = i / batchDataChunks := by
      rw [batchDataChunks] at hfull hlt ⊢
      omega
    have hmod : (i + 1) % batchDataChunks = i % batchDataChunks + 1 := by
      rw [batchDataChunks] at hfull hlt ⊢
      omega
    rw [if_neg hfull, hdiv, hmod, hdata, List.append_nil, List.append_assoc]

/-- The PARITY packets of a last batch that is not full. -/
def lastParity : List Bytes :=
  if t.chunkCount % batchDataChunks = 0 then []
  else parityPackets libs (t.pathHash libs) (t.recovery libs (t.chunkCount / batchDataChunks))
    batchParityChunks (t.chunkCount / batchDataChunks)

/-- What is left behind the full batches. -/
theorem batchSize_last :
    t.batchSize (t.chunkCount / batchDataChunks) = t.chunkCount % batchDataChunks := by
  rw [batchSize_eq, batchDataChunks]
  omega

/-- **All chunks**: the packets up to the last chunk, and the parity of a last batch that is not
full. -/
theorem chunkPackets_eq : t.chunkPackets libs =
    t.packetsBefore libs t.chunkCount ++ t.lastParity libs := by
  rw [chunkPackets, packetsBefore, lastParity]
  by_cases hfull : t.chunkCount % batchDataChunks = 0
  · have hcount : t.batchCount = t.chunkCount / batchDataChunks := by
      rw [batchCount]
      rw [batchDataChunks] at hfull ⊢
      omega
    have hempty : t.dataPackets libs (t.chunkCount / batchDataChunks) 0 = [] := rfl
    rw [if_pos hfull, hfull, hempty, hcount, List.append_nil, List.append_nil]
  · have hcount : t.batchCount = t.chunkCount / batchDataChunks + 1 := by
      rw [batchCount]
      rw [batchDataChunks] at hfull ⊢
      omega
    rw [if_neg hfull, hcount, List.range_succ, List.flatMap_append, List.flatMap_singleton,
      batchPackets, t.batchSize_last, List.append_assoc]

/-- The packets up to a chunk are the first ones. -/
theorem packetsBefore_isPrefix {i : ℕ} (hi : i ≤ t.chunkCount) :
    t.packetsBefore libs i <+: t.chunkPackets libs := by
  induction hk : t.chunkCount - i generalizing i with
  | zero =>
      obtain rfl : i = t.chunkCount := by omega
      rw [chunkPackets_eq]
      exact List.prefix_append _ _
  | succ k ih =>
      have hnext := ih (i := i + 1) (by omega) (by omega)
      rw [t.packetsBefore_succ libs (by omega)] at hnext
      exact (List.prefix_append _ _).trans hnext

end Transfer

/-! ### The sending loop -/

namespace SendLoop

/-- The loop after `i` chunks, behind the packets `front`: all full batches are sent, and the DATA
packets of the batch begun. -/
structure Reached (libs : Libs) (t : Transfer) (net₀ : Net) (front : List Bytes) (i : ℕ)
    (st : SendLoop) : Prop where
  net : sendInOrder (front ++ t.packetsBefore libs i) net₀ = (true, st.net)
  rest : st.reader.rest t.contents = t.contents.drop (chunkSize * i)
  count : st.count = i
  batchIdx : st.batchIdx = i / batchDataChunks
  batchPayloads : st.batchPayloads = t.batchPayloads (i / batchDataChunks) (i % batchDataChunks)

variable {libs : Libs} {t : Transfer} {net₀ : Net} {front : List Bytes} {i : ℕ} {st : SendLoop}

/-- The parity of a batch whose chunks are collected is sent in order. -/
theorem flushBatch_inOrder {b : ℕ} (hb : b < t.batchCount) (hidx : st.batchIdx = b)
    (hpayloads : st.batchPayloads = t.batchPayloads b (t.batchSize b)) :
    sendInOrder (parityPackets libs (t.pathHash libs) (t.recovery libs b) batchParityChunks b)
      st.net = (true, (st.flushBatch libs (t.pathHash libs)).net) := by
  have hne : t.batchPayloads b (t.batchSize b) ≠ [] := by
    refine List.ne_nil_of_length_pos ?_
    rw [t.length_batchPayloads]
    exact t.batchSize_pos_iff.mpr hb
  rw [flushBatch, hidx, hpayloads]
  exact sendParityPackets_eq_sendInOrder hne (by decide) (t.runEncoder_batch libs hb) _ _ _

/-- **One chunk** is sent in order and moves the invariant on, or fails in order. -/
theorem Reached.sendChunk (h : Reached libs t net₀ front i st) (hi : i < t.chunkCount)
    {r : Reader} {s : Source} (hr : r.rest t.contents = t.contents.drop (chunkSize * (i + 1)))
    {ok : Bool} {st' : SendLoop}
    (hsend : ({ st with reader := r, src := s } : SendLoop).sendChunk libs (t.pathHash libs)
      (t.chunkAt i) = (ok, st')) :
    sendInOrder (front ++ t.packetsBefore libs (i + 1)) net₀ = (ok, st'.net) ∧
      (ok = true → Reached libs t net₀ front (i + 1) st') := by
  have hlt : i % batchDataChunks < batchDataChunks := Nat.mod_lt _ (by decide)
  have hchunk : i / batchDataChunks * batchDataChunks + i % batchDataChunks = i :=
    Nat.div_add_mod' i batchDataChunks
  have hpayloads : st.batchPayloads ++ [t.chunkAt i] =
      t.batchPayloads (i / batchDataChunks) (i % batchDataChunks + 1) := by
    rw [Transfer.batchPayloads_succ, h.batchPayloads, hchunk]
  have hsucc : sendInOrder (front ++ t.packetsBefore libs (i + 1)) net₀ =
      sendInOrder ([dataPacket libs (t.pathHash libs) (t.chunkAt i) i] ++ t.parityBehind libs i)
        st.net := by
    rw [t.packetsBefore_succ libs hi, ← List.append_assoc, sendInOrder_append_of_true h.net]
  rw [SendLoop.sendChunk] at hsend
  dsimp only at hsend
  rw [sendDataPacket, h.count, ← sendInOrder_singleton (isParityPacket_dataPacket ..)] at hsend
  rw [hsucc]
  split at hsend
  · rename_i net' heq
    obtain ⟨rfl, rfl⟩ := Prod.mk.inj hsend
    exact ⟨sendInOrder_append_of_false heq, fun h => absurd h (by simp)⟩
  rename_i net' heq
  obtain ⟨rfl, hst'⟩ := Prod.mk.inj hsend
  rw [hpayloads, Transfer.length_batchPayloads] at hst'
  rw [sendInOrder_append_of_true heq, Transfer.parityBehind] at hsucc ⊢
  by_cases hfull : i % batchDataChunks + 1 = batchDataChunks
  · -- the batch is full: its parity follows and the next batch begins
    have hdiv : (i + 1) / batchDataChunks = i / batchDataChunks + 1 := by
      rw [batchDataChunks] at hfull ⊢
      omega
    have hmod : (i + 1) % batchDataChunks = 0 := by
      rw [batchDataChunks] at hfull ⊢
      omega
    have hsize := t.batchSize_of_full hi hfull
    have hb : i / batchDataChunks < t.batchCount := by
      rw [← t.batchSize_pos_iff]
      omega
    have hparity := @flushBatch_inOrder libs t { st with
        reader := r, src := s, net := net', count := i + 1
        batchPayloads := t.batchPayloads (i / batchDataChunks) (i % batchDataChunks + 1) }
      _ hb h.batchIdx (by rw [hsize])
    rw [if_pos hfull] at hst' hsucc ⊢
    subst hst'
    refine ⟨hparity, fun _ => ⟨hsucc.trans hparity, hr, rfl, ?_, ?_⟩⟩
    · rw [flushBatch, hdiv, h.batchIdx]
    · rw [flushBatch, hmod]
      rfl
  · have hdiv : (i + 1) / batchDataChunks = i / batchDataChunks := by
      rw [batchDataChunks] at hfull hlt ⊢
      omega
    have hmod : (i + 1) % batchDataChunks = i % batchDataChunks + 1 := by
      rw [batchDataChunks] at hfull hlt ⊢
      omega
    rw [if_neg hfull] at hst' hsucc ⊢
    subst hst'
    exact ⟨rfl, fun _ => ⟨hsucc, hr, rfl, by rw [hdiv, h.batchIdx], by rw [hdiv, hmod]⟩⟩

/-- What is read next is the next chunk. -/
theorem Reached.read (h : Reached libs t net₀ front i st) {r : Reader} {chunk : Bytes}
    (hne : chunk ≠ [])
    (htake : chunk = [] ++ (st.reader.rest t.contents).take chunkSize)
    (hdrop : r.rest t.contents = (st.reader.rest t.contents).drop chunkSize) :
    i < t.chunkCount ∧ chunk = t.chunkAt i ∧
      r.rest t.contents = t.contents.drop (chunkSize * (i + 1)) := by
  rw [List.nil_append, h.rest] at htake
  rw [h.rest, List.drop_drop] at hdrop
  refine ⟨t.chunkAt_ne_nil_iff.mp ?_, htake, by rw [hdrop, Nat.mul_add, Nat.mul_one]⟩
  rw [htake] at hne
  exact hne

/-- **The loop** sends the file in order, to its end or to a failure. -/
theorem loop_inOrder (libs : Libs) (t : Transfer) (net₀ : Net) (front : List Bytes)
    (st : SendLoop) :
    Source.Undisturbed t.contents st.src (st.loop libs (t.pathHash libs)).2.src
      (∀ i ≤ t.chunkCount, st.src.Keeps t.contents st.reader.inode →
        Reached libs t net₀ front i st →
        (∃ j, (st.loop libs (t.pathHash libs)).2.src.Keeps t.contents j) ∧
        ((st.loop libs (t.pathHash libs)).1 = true →
          Reached libs t net₀ front t.chunkCount (st.loop libs (t.pathHash libs)).2) ∧
        ((st.loop libs (t.pathHash libs)).1 = false → ∃ i' ≤ t.chunkCount, ∃ ok,
          sendInOrder (front ++ t.packetsBefore libs i') net₀ =
            (ok, (st.loop libs (t.pathHash libs)).2.net) ∧
          (ok = true → ¬st.src.Faultless))) := by
  fun_induction loop libs (t.pathHash libs) st with
  | case1 st r s hread =>
      have hstep := readChunk_undisturbed t.contents st.src st.reader chunkSize []
      rw [hread] at hstep
      refine hstep.mono fun himp i hi hkeeps hreached => ?_
      refine ⟨⟨_, (himp hkeeps).1⟩, fun h => absurd h (by simp), fun _ => ⟨i, hi, true,
        hreached.net, fun _ hfaultless => ?_⟩⟩
      exact readChunk_ne_none hfaultless st.reader chunkSize [] (by rw [hread])
  | case2 st r s hread =>
      have hstep := readChunk_undisturbed t.contents st.src st.reader chunkSize []
      rw [hread] at hstep
      refine hstep.mono fun himp i hi hkeeps hreached => ?_
      obtain ⟨hkeeps', -, hdata⟩ := himp hkeeps
      obtain ⟨htake, hdrop⟩ := hdata [] rfl
      rw [List.nil_append, hreached.rest] at htake
      have hend : i = t.chunkCount := by
        by_contra hne
        exact t.chunkAt_ne_nil_iff.mpr (by omega) htake.symm
      subst hend
      refine ⟨⟨_, hkeeps'⟩, fun _ => ⟨hreached.net, ?_, hreached.count, hreached.batchIdx,
        hreached.batchPayloads⟩, fun h => absurd h (by simp)⟩
      rw [hdrop, hreached.rest]
      rw [(List.take_eq_nil_iff.mp htake.symm).resolve_left (by decide), List.drop_nil]
  | case3 st chunk r s hread hne st' hsend =>
      have hstep := readChunk_undisturbed t.contents st.src st.reader chunkSize []
      rw [hread] at hstep
      have hsrc := (sendChunk_src libs (t.pathHash libs) { st with reader := r, src := s } chunk).1
      rw [hsend] at hsrc
      obtain rfl : st'.src = s := hsrc
      refine hstep.mono fun himp i hi hkeeps hreached => ?_
      obtain ⟨hkeeps', -, hdata⟩ := himp hkeeps
      obtain ⟨htake, hdrop⟩ := hdata chunk rfl
      obtain ⟨hlt, rfl, hrest⟩ := hreached.read hne htake hdrop
      exact ⟨⟨_, hkeeps'⟩, fun h => absurd h (by simp), fun _ => ⟨i + 1, hlt, false,
        (hreached.sendChunk hlt hrest hsend).1, fun h => absurd h (by simp)⟩⟩
  | case4 st chunk r s hread hne st' hsend ih =>
      have hstep := readChunk_undisturbed t.contents st.src st.reader chunkSize []
      rw [hread] at hstep
      obtain ⟨hsrc, hreader⟩ :=
        sendChunk_src libs (t.pathHash libs) { st with reader := r, src := s } chunk
      rw [hsend] at hsrc hreader
      obtain rfl : st'.src = s := hsrc
      obtain rfl : st'.reader = r := hreader
      have hfaultless := hstep.faultless
      refine hstep.trans ih fun himp himp' i hi hkeeps hreached => ?_
      obtain ⟨hkeeps', hinode, hdata⟩ := himp hkeeps
      obtain ⟨htake, hdrop⟩ := hdata chunk rfl
      obtain ⟨hlt, rfl, hrest⟩ := hreached.read hne htake hdrop
      obtain ⟨hkept, hdone, hfailed⟩ :=
        himp' (i + 1) hlt (hinode ▸ hkeeps') ((hreached.sendChunk hlt hrest hsend).2 rfl)
      refine ⟨hkept, hdone, fun h => ?_⟩
      obtain ⟨i', hi', ok, hsent, hok⟩ := hfailed h
      exact ⟨i', hi', ok, hsent, fun h hs => hok h (hfaultless hs)⟩

/-- **The last batch** is flushed, unless it is full or empty: all batches of the file are
sent. -/
theorem Reached.flush (h : Reached libs t net₀ front t.chunkCount st) {st' : SendLoop}
    (hst' : st' = if st.batchPayloads = [] then st
      else st.flushBatch libs (t.pathHash libs)) :
    sendInOrder (front ++ t.chunkPackets libs) net₀ = (true, st'.net) ∧
      st'.count = t.chunkCount ∧ st'.src = st.src := by
  have hpayloads := congrArg List.length h.batchPayloads
  rw [Transfer.length_batchPayloads] at hpayloads
  rw [t.chunkPackets_eq, ← List.append_assoc, sendInOrder_append_of_true h.net,
    Transfer.lastParity]
  split at hst'
  · rename_i hnil
    rw [hnil, List.length_nil] at hpayloads
    rw [hst', if_pos hpayloads.symm]
    exact ⟨rfl, h.count, rfl⟩
  · rename_i hne
    have hpos := List.length_pos_iff.mpr hne
    have hb : t.chunkCount / batchDataChunks < t.batchCount := by
      rw [← t.batchSize_pos_iff, t.batchSize_last]
      omega
    rw [hst', if_neg (by omega)]
    refine ⟨flushBatch_inOrder hb h.batchIdx ?_, h.count, rfl⟩
    rw [h.batchPayloads, t.batchSize_last]

end SendLoop

/-! ### The whole file -/

namespace Transfer

variable (libs : Libs) (t : Transfer)

/-- The START packet of a file. -/
def startPacket : Bytes :=
  DataDiode.startPacket libs t.contents.length t.path batchParityChunks

/-- The END packet of a file. -/
def endPacket : Bytes := DataDiode.endPacket t.path t.chunkCount

/-- The packets of a file: START packets, batches, END packets. -/
def packets : List Bytes :=
  List.replicate controlResend (t.startPacket libs) ++ t.chunkPackets libs ++
    List.replicate controlResend t.endPacket

/-- The announcements come first. -/
theorem start_isPrefix :
    List.replicate controlResend (t.startPacket libs) <+: t.packets libs := by
  rw [packets, List.append_assoc]
  exact List.prefix_append _ _

/-- What is sent before a chunk are the packets in front of it. -/
theorem front_isPrefix {i : ℕ} (hi : i ≤ t.chunkCount) :
    List.replicate controlResend (t.startPacket libs) ++ t.packetsBefore libs i <+:
      t.packets libs :=
  ((List.prefix_append_right_inj _).mpr (t.packetsBefore_isPrefix libs hi)).trans
    (List.prefix_append _ _)

end Transfer

/-- A file is sent in order: the packets tried are the first ones of the file, all of them unless
the socket or a call fails, and the file is removed only if all are sent. -/
structure SentInOrder (libs : Libs) (t : Transfer) (net : Net) (src : Source)
    (result : Bool × Net × Source) (front : List Bytes) (ok : Bool) : Prop where
  isPrefix : front <+: t.packets libs
  net : sendInOrder front net = (ok, result.2.1)
  complete : ok = true → front = t.packets libs ∨ ¬src.Faultless
  removed : result.1 = true ∨ result.2.2.present ≠ some t.contents →
    ok = true ∧ front = t.packets libs

/-- A file that is not sent to its end stays. -/
theorem SentInOrder.of_kept {libs : Libs} {t : Transfer} {net net' : Net} {src src' : Source}
    {front : List Bytes} {ok : Bool} {i : ℕ} (hfront : front <+: t.packets libs)
    (hnet : sendInOrder front net = (ok, net')) (hfault : ok = true → ¬src.Faultless)
    (hkeeps : src'.Keeps t.contents i) : SentInOrder libs t net src (false, net', src') front ok :=
  ⟨hfront, hnet, fun hok => Or.inr (hfault hok), fun h =>
    absurd (h.resolve_left (by simp)) (not_not.mpr hkeeps.present)⟩

/-- **An opened file is read** to its end or to a failure, behind its START packets. -/
theorem loop_opened {libs : Libs} {t : Transfer} {net net₁ : Net} {src src₁ src₂ : Source}
    {i size inode : ℕ} (hkeeps : src.Keeps t.contents i)
    (hmeta : src.metadataLen = (some size, src₁))
    (hstart : sendInOrder (List.replicate controlResend
      (DataDiode.startPacket libs size t.path batchParityChunks)) net = (true, net₁))
    (hopen : src₁.openFile = (some inode, src₂)) {ok : Bool} {st : SendLoop}
    (hloop : SendLoop.loop libs (t.pathHash libs) ⟨net₁, src₂, .new inode, 0, 0, []⟩ =
      (ok, st)) :
    Source.Undisturbed t.contents src st.src
      ((∃ j, st.src.Keeps t.contents j) ∧
        (ok = true → SendLoop.Reached libs t net
          (List.replicate controlResend (t.startPacket libs)) t.chunkCount st) ∧
        (ok = false → ∃ k ≤ t.chunkCount, ∃ ok', sendInOrder
            (List.replicate controlResend (t.startPacket libs) ++ t.packetsBefore libs k) net =
              (ok', st.net) ∧ (ok' = true → ¬src.Faultless))) := by
  have hlen := Source.metadataLen_undisturbed t.contents src
  have hopened := Source.openFile_undisturbed t.contents src₁
  have hrun := SendLoop.loop_inOrder libs t net (List.replicate controlResend
    (DataDiode.startPacket libs size t.path batchParityChunks))
    ⟨net₁, src₂, .new inode, 0, 0, []⟩
  rw [hmeta] at hlen
  rw [hopen] at hopened
  rw [hloop] at hrun
  have hfaultless₁ := hlen.faultless
  have hfaultless₂ := hopened.faultless
  have hreached : SendLoop.Reached libs t net (List.replicate controlResend
      (DataDiode.startPacket libs size t.path batchParityChunks)) 0
      ⟨net₁, src₂, .new inode, 0, 0, []⟩ :=
    ⟨by rw [t.packetsBefore_zero, List.append_nil, hstart], rfl, rfl, rfl, rfl⟩
  refine hlen.trans (hopened.trans hrun fun himp₁ himp₂ => And.intro himp₁ himp₂)
    fun himp himp' => ?_
  obtain ⟨hkeeps₁, hsize, -⟩ := himp i hkeeps
  obtain ⟨-, hinode, -⟩ := himp'.1 i hkeeps₁
  obtain rfl := hsize size rfl
  obtain ⟨hkept, hdone, hfailed⟩ := himp'.2 0 (Nat.zero_le _) (hinode inode rfl) hreached
  refine ⟨hkept, hdone, fun hfalse => ?_⟩
  obtain ⟨k, hk, ok', hsent, hok⟩ := hfailed hfalse
  exact ⟨k, hk, ok', hsent, fun h hs => hok h (hfaultless₂ (hfaultless₁ hs))⟩

/-- **The END packets** behind a file that has been read to its end. -/
theorem sendInOrder_packets {libs : Libs} {t : Transfer} {net net' : Net} {st last : SendLoop}
    (h : SendLoop.Reached libs t net (List.replicate controlResend (t.startPacket libs))
      t.chunkCount st)
    (hlast : last = if st.batchPayloads = [] then st
      else st.flushBatch libs (t.pathHash libs)) {ok : Bool}
    (hend : sendInOrder (List.replicate controlResend
      (DataDiode.endPacket t.path last.count)) last.net = (ok, net')) :
    sendInOrder (t.packets libs) net = (ok, net') := by
  obtain ⟨hchunks, hcount, -⟩ := h.flush hlast
  rw [Transfer.packets, sendInOrder_append_of_true hchunks, Transfer.endPacket, ← hcount, hend]

/-- **A steady file is sent in order.** -/
theorem sendFileChunks_inOrder (libs : Libs) (t : Transfer) (net : Net) {src : Source}
    (hvalid : src.Valid) (hpresent : src.present = some t.contents) :
    Source.Undisturbed t.contents src (sendFileChunks libs net src t.path).2.2
      (∃ front ok, SentInOrder libs t net src (sendFileChunks libs net src t.path) front ok) := by
  obtain ⟨i, hi, -⟩ := Option.map_eq_some_iff.mp hpresent
  have hkeeps : src.Keeps t.contents i := .of_current hvalid hpresent hi
  have hlen := Source.metadataLen_undisturbed t.contents src
  rw [sendFileChunks]
  dsimp only
  rcases hmeta : src.metadataLen with ⟨_ | size, src₁⟩
  · rw [hmeta] at hlen
    refine hlen.mono fun himp => ?_
    obtain ⟨hkeeps₁, -, hfault⟩ := himp i hkeeps
    exact ⟨[], true, .of_kept List.nil_prefix rfl (fun _ => hfault rfl) hkeeps₁⟩
  rw [hmeta] at hlen
  dsimp only
  rw [sendStartPacket, sendWithRetry_eq (isParityPacket_startPacket ..)]
  rcases hstart : sendInOrder (List.replicate controlResend
    (DataDiode.startPacket libs size t.path batchParityChunks)) net with ⟨_ | _, net₁⟩
  · refine hlen.mono fun himp => ?_
    obtain ⟨hkeeps₁, hsize, -⟩ := himp i hkeeps
    obtain rfl := hsize size rfl
    exact ⟨_, false, .of_kept (t.start_isPrefix libs) hstart (by simp) hkeeps₁⟩
  have hopened := Source.openFile_undisturbed t.contents src₁
  have hfaultless := hlen.faultless
  dsimp only
  rcases hopen : src₁.openFile with ⟨_ | inode, src₂⟩
  · rw [hopen] at hopened
    refine hlen.trans hopened fun himp himp₁ => ?_
    obtain ⟨hkeeps₁, hsize, -⟩ := himp i hkeeps
    obtain ⟨hkeeps₂, -, hfault⟩ := himp₁ i hkeeps₁
    obtain rfl := hsize size rfl
    exact ⟨_, true, .of_kept (t.start_isPrefix libs) hstart
      (fun _ hs => hfault rfl (hfaultless hs)) hkeeps₂⟩
  dsimp only
  rw [← Transfer.pathHash]
  rcases hloop : SendLoop.loop libs (t.pathHash libs) ⟨net₁, src₂, .new inode, 0, 0, []⟩
    with ⟨_ | _, st⟩
  · refine (loop_opened hkeeps hmeta hstart hopen hloop).mono ?_
    rintro ⟨⟨j, hkeeps'⟩, -, hfailed⟩
    obtain ⟨k, hk, ok, hsent, hok⟩ := hfailed rfl
    exact ⟨_, ok, .of_kept (t.front_isPrefix libs hk) hsent hok hkeeps'⟩
  -- the file is read to its end: the last batch and the END packets follow
  have hread := loop_opened hkeeps hmeta hstart hopen hloop
  dsimp only
  generalize hlast : (if st.batchPayloads = [] then st
    else st.flushBatch libs (t.pathHash libs)) = last
  have hsrc : last.src = st.src := by
    rw [← hlast]
    split <;> rfl
  rw [← hsrc] at hread
  rw [sendEndPacket, sendWithRetry_eq (isParityPacket_endPacket ..)]
  rcases hend : sendInOrder (List.replicate controlResend
    (DataDiode.endPacket t.path last.count)) last.net with ⟨_ | _, net'⟩
  · refine hread.mono ?_
    rintro ⟨⟨j, hkeeps'⟩, hdone, -⟩
    exact ⟨_, false, .of_kept List.prefix_rfl (sendInOrder_packets (hdone rfl) hlast.symm hend)
      (by simp) hkeeps'⟩
  · refine hread.trans (Source.removeFile_undisturbed t.contents last.src) ?_
    rintro ⟨-, hdone, -⟩ -
    exact ⟨_, true, List.prefix_rfl, sendInOrder_packets (hdone rfl) hlast.symm hend,
      fun _ => Or.inl rfl, fun _ => ⟨rfl, rfl⟩⟩

namespace Transfer

variable (libs : Libs) (t : Transfer)

/-- The packets sent for a file nobody else touches, over a socket that takes everything. -/
def emitted : List Bytes := DataDiode.emitted libs t.path t.contents

/-- **The packets sent for a file**: START packets, batches, END packets. -/
theorem emitted_eq : t.emitted libs =
    List.replicate controlResend (t.startPacket libs) ++ t.chunkPackets libs ++
      List.replicate controlResend t.endPacket := by
  have hvalid : (Source.ofContents t.contents).Valid := by
    intro j hj
    obtain rfl : 0 = j := Option.some.inj hj
    exact Nat.one_pos
  obtain ⟨used, hused, himp⟩ := sendFileChunks_inOrder libs t .ideal hvalid rfl
  obtain rfl : used = [] := (List.append_eq_nil_iff.mp hused.symm).1
  obtain ⟨front, ok, hfile⟩ := himp (by simp [Steady])
  have hnet := hfile.net
  rw [Net.ideal, sendInOrder_ideal] at hnet
  obtain ⟨rfl, hsent⟩ := Prod.mk.inj hnet
  have hfront : front = t.packets libs := (hfile.complete rfl).resolve_right
    (not_not.mpr (by simp [Source.Faultless, Source.ofContents]))
  rw [emitted, DataDiode.emitted, Net.ideal, ← hsent, hfront]
  rfl

end Transfer

end DataDiode
