import DataDiode.Batches
import DataDiode.Chunks

/-!
# Restoring a Batch

The state with some packets of one batch of a file buffered (`Gathered`). If they are as many
as the batch has chunks, every chunk of the batch is there or is reconstructed, and cut to its
true length; if they are fewer, the batch cannot be restored.

## Main results

* `Gathered.size_add_size`: the buffers hold each packet once.
* `Gathered.restoreBatch_ok`: enough packets restore every chunk of the batch.
* `Gathered.restoreBatch_error`: fewer do not.
-/

namespace DataDiode

/-! ### Buffers -/

/-- The size of a buffer whose keys are known. -/
theorem ChunkMap.size_eq_card {m : ChunkMap} {s : Finset ℕ}
    (h : ∀ i, (m[i]?).isSome = true ↔ i ∈ s) : m.size = s.card := by
  have hkeys : m.keys.toFinset = s := by
    ext i
    rw [List.mem_toFinset, Std.TreeMap.mem_keys, ← h i, Std.TreeMap.isSome_getElem?_eq_contains,
      Std.TreeMap.contains_iff_mem]
  rw [← Std.TreeMap.length_keys, ← hkeys, List.toFinset_card_of_nodup Std.TreeMap.nodup_keys]

/-- The numbers of the buffered chunks are pairwise different. -/
theorem ChunkMap.nodup_toList (m : ChunkMap) : (m.toList.map Prod.fst).Nodup := by
  rw [Std.TreeMap.map_fst_toList_eq_keys]
  exact Std.TreeMap.nodup_keys

/-- The entries of a buffer made from a list of pairwise different numbers. -/
theorem ChunkMap.getElem?_ofList {l : List (ℕ × Bytes)} (hl : (l.map Prod.fst).Nodup) {i : ℕ}
    {d : Bytes} : (Std.TreeMap.ofList l : ChunkMap)[i]? = some d ↔ (i, d) ∈ l := by
  have hmem : ∀ e ∈ l, (Std.TreeMap.ofList l : ChunkMap)[e.1]? = some e.2 := fun e he => by
    refine Std.TreeMap.getElem?_ofList_of_mem (k := e.1) (by simp) ?_ he
    refine (List.pairwise_map.mp hl).imp fun hne heq => hne ?_
    simpa using heq
  constructor
  · intro h
    have hkey : i ∈ l.map Prod.fst := by
      by_contra hnot
      rw [Std.TreeMap.getElem?_ofList_of_contains_eq_false
        (Bool.eq_false_iff.mpr fun hc => hnot (List.contains_iff_mem.mp hc))] at h
      exact absurd h (by simp)
    obtain ⟨e, he, rfl⟩ := List.mem_map.mp hkey
    rw [hmem e he, Option.some.injEq] at h
    rwa [← h]
  · exact hmem (i, d)

/-! ### Shards -/

/-- A chunk is filled up to the size of a shard. -/
theorem length_fillShard {data : Bytes} (h : data.length ≤ shardSize) :
    (fillShard data).length = shardSize := by
  rw [fillShard, List.length_append, List.length_replicate]
  omega

/-- Sender and receiver pad a chunk to the same shard. -/
theorem padShard_eq_fillShard {data : Bytes} (h : data.length ≤ shardSize) :
    padShard data = fillShard data := by
  rw [padShard, fillShard, List.take_of_length_le h]

/-- A chunk is in front of what fills it up. -/
theorem take_fillShard (data : Bytes) : (fillShard data).take data.length = data := by
  rw [fillShard, List.take_left]

namespace Transfer

variable (libs : Libs) (t : Transfer)

/-- No chunk is larger than a full one. -/
theorem length_chunkAt_le (i : ℕ) : (t.chunkAt i).length ≤ chunkSize :=
  Slices.length_chunk_le _ _ _

/-- No chunk is larger than a shard. -/
theorem length_chunkAt_le_shardSize (i : ℕ) : (t.chunkAt i).length ≤ shardSize :=
  (t.length_chunkAt_le i).trans (by decide)

/-- The receiver expects every chunk in the length the sender gives it. -/
theorem expectedLen_eq {i : ℕ} (hi : i < t.chunkCount) :
    expectedLen t.contents.length i = (t.chunkAt i).length := by
  have hlen : (t.chunkAt i).length = min chunkSize (t.contents.length - chunkSize * i) :=
    Slices.length_chunk _ _ _
  have hlast := (t.lt_chunkCount_iff).mp hi
  have htotal : totalChunks t.contents.length = (t.contents.length + 939) / 940 := rfl
  have hsize : chunkSize = 940 := rfl
  rw [chunkCount] at hi
  rw [hlen, expectedLen]
  by_cases hend : i + 1 = totalChunks t.contents.length
  · rw [if_pos hend]
    by_cases hmod : t.contents.length % chunkSize = 0
    · rw [if_pos hmod]
      rw [hsize] at *
      omega
    · rw [if_neg hmod]
      rw [hsize] at *
      omega
  · rw [if_neg hend]
    rw [hsize] at *
    omega

/-- The shards of a batch have full length. -/
theorem length_of_mem_shards {b : ℕ} {s : Bytes} (h : s ∈ t.shards b) : s.length = shardSize := by
  obtain ⟨c, hc, rfl⟩ := List.mem_map.mp h
  obtain ⟨i, -, rfl⟩ := List.mem_map.mp hc
  exact length_fillShard (t.length_chunkAt_le_shardSize _)

/-- The shards of a batch are its chunks. -/
theorem getElem?_shards {b i : ℕ} (hi : i < t.batchSize b) :
    (t.shards b)[i]? = some (fillShard (t.chunkAt (b * batchDataChunks + i))) := by
  rw [shards, batchPayloads, List.map_map, List.getElem?_map, List.getElem?_range hi]
  rfl

/-- The size of a shard is one that the code takes. -/
theorem validShardSize : ValidShardSize shardSize := by decide

/-- The recovery shards are what the code makes of them. -/
theorem getElem?_recovery {b j : ℕ} (hb : b < t.batchCount) (hj : j < batchParityChunks) :
    (libs.rs.encode (t.shards b) batchParityChunks)[j]? = some (t.recoveryShard libs b j) := by
  have hlen : j < (t.recovery libs b).length := by rwa [t.length_recovery libs hb]
  rw [recoveryShard, List.getD_eq_getElem?_getD, List.getElem?_eq_getElem hlen, Option.getD_some]
  exact List.getElem?_eq_getElem hlen

/-- The recovery shards of a batch have full length. -/
theorem length_recoveryShard {b j : ℕ} (hb : b < t.batchCount) (hj : j < batchParityChunks) :
    (t.recoveryShard libs b j).length = shardSize := by
  have hsup := t.supports_batch libs hb
  rw [← t.length_shards b] at hsup
  exact libs.rs.length_of_mem_encode hsup validShardSize (fun s hs => t.length_of_mem_shards hs) _
    (List.mem_of_getElem? (t.getElem?_recovery libs hb hj))

end Transfer

/-! ### Feeding the decoder -/

/-- Whether a buffered data chunk is one of the batch: it is not past its end. -/
def inBatch (dataSize start : ℕ) (entry : ℕ × Bytes) : Bool := entry.1 - start < dataSize

/-- Feeding data chunks of different indices: those of the batch become original shards. -/
theorem foldlM_feedOriginal (dataSize start : ℕ) (entries : List (ℕ × Bytes)) :
    ∀ dec : RsDecoder, dec.originalCount = dataSize → dec.shardBytes = shardSize →
      (∀ e ∈ entries, e.2.length ≤ shardSize) →
      (dec.originals.map Prod.fst ++ entries.map fun e => e.1 - start).Nodup →
      entries.foldlM (feedOriginal dataSize start) dec = .ok { dec with
        originals := dec.originals ++ (entries.filter (inBatch dataSize start)).map
          fun e => (e.1 - start, fillShard e.2) } := by
  induction entries with
  | nil => exact fun _ _ _ _ _ => by simp [pure, Except.pure]
  | cons e entries ih =>
      intro dec hcount hbytes hentries hnodup
      have hlen := hentries e List.mem_cons_self
      have hentries' := fun e' he' => hentries e' (List.mem_cons_of_mem _ he')
      by_cases hidx : e.1 - start < dataSize
      · have hfresh : e.1 - start ∉ dec.originals.map Prod.fst := fun hmem =>
          (List.nodup_append.mp hnodup).2.2 _ hmem _ List.mem_cons_self rfl
        have hstep : feedOriginal dataSize start dec e = .ok { dec with
            originals := dec.originals ++ [(e.1 - start, fillShard e.2)] } := by
          simp only [feedOriginal, if_neg (not_le.mpr hidx), RsDecoder.addOriginalShard, hcount,
            if_neg hfresh, padShard_eq_fillShard hlen, length_fillShard hlen, hbytes,
            ne_eq, not_true_eq_false, if_false]
        have hrest := ih { dec with originals := dec.originals ++ [(e.1 - start, fillShard e.2)] }
          hcount hbytes hentries' (by simpa [List.map_append] using hnodup)
        rw [List.foldlM_cons, hstep]
        refine hrest.trans ?_
        simp [inBatch, hidx]
      · -- past the end of the batch
        have hstep : feedOriginal dataSize start dec e = .ok dec := by
          simp only [feedOriginal, if_pos (not_lt.mp hidx)]
        have hsub : (dec.originals.map Prod.fst ++ entries.map fun e => e.1 - start).Sublist
            (dec.originals.map Prod.fst ++ (e :: entries).map fun e => e.1 - start) := by
          rw [List.map_cons]
          exact (List.Sublist.refl _).append (List.sublist_cons_self _ _)
        rw [List.foldlM_cons, hstep]
        refine (ih dec hcount hbytes hentries' (hnodup.sublist hsub)).trans ?_
        simp [inBatch, hidx]

/-- Feeding parity shards of different indices: those of the announced count become recovery
shards. -/
theorem foldlM_feedRecovery (parity : ℕ) (entries : List (ℕ × Bytes)) :
    ∀ dec : RsDecoder, dec.recoveryCount = parity → dec.shardBytes = shardSize →
      (∀ e ∈ entries, e.2.length = shardSize) →
      (dec.recoveries.map Prod.fst ++ entries.map Prod.fst).Nodup →
      entries.foldlM (feedRecovery parity) dec = .ok { dec with
        recoveries := dec.recoveries ++ entries.filter (inBatch parity 0) } := by
  induction entries with
  | nil => exact fun _ _ _ _ _ => by simp [pure, Except.pure]
  | cons e entries ih =>
      intro dec hcount hbytes hentries hnodup
      have hlen := hentries e List.mem_cons_self
      have hentries' := fun e' he' => hentries e' (List.mem_cons_of_mem _ he')
      by_cases hidx : e.1 < parity
      · have hfresh : e.1 ∉ dec.recoveries.map Prod.fst := fun hmem =>
          (List.nodup_append.mp hnodup).2.2 _ hmem _ List.mem_cons_self rfl
        have hkeep : ¬(parity ≤ e.1 ∨ e.2.length < shardSize) := by omega
        have htake : e.2.take shardSize = e.2 := List.take_of_length_le (by omega)
        have hstep : feedRecovery parity dec e = .ok { dec with
            recoveries := dec.recoveries ++ [e] } := by
          rw [feedRecovery, if_neg hkeep]
          simp only [RsDecoder.addRecoveryShard, hcount, if_neg (not_le.mpr hidx), if_neg hfresh,
            htake, hlen, hbytes, ne_eq, not_true_eq_false, if_false]
        have hrest := ih { dec with recoveries := dec.recoveries ++ [e] } hcount hbytes hentries'
          (by simpa [List.map_append] using hnodup)
        rw [List.foldlM_cons, hstep]
        refine hrest.trans ?_
        simp [inBatch, hidx]
      · have hstep : feedRecovery parity dec e = .ok dec := by
          rw [feedRecovery, if_pos (Or.inl (not_lt.mp hidx))]
        have hsub : (dec.recoveries.map Prod.fst ++ entries.map Prod.fst).Sublist
            (dec.recoveries.map Prod.fst ++ (e :: entries).map Prod.fst) := by
          rw [List.map_cons]
          exact (List.Sublist.refl _).append (List.sublist_cons_self _ _)
        rw [List.foldlM_cons, hstep]
        refine (ih dec hcount hbytes hentries' (hnodup.sublist hsub)).trans ?_
        simp [inBatch, hidx]

namespace ReceiveState

variable (s : ReceiveState)

/-- The original shards the decoder is fed with. -/
def originals (dataSize : ℕ) : List (ℕ × Bytes) :=
  (s.dataBuffer.toList.filter (inBatch dataSize (s.currentBatch * batchDataChunks))).map
    fun e => (e.1 - s.currentBatch * batchDataChunks, fillShard e.2)

/-- The recovery shards the decoder is fed with. -/
def recoveries : List (ℕ × Bytes) := s.parityBuffer.toList.filter (inBatch s.parityPerBatch 0)

/-- The buffers hold chunks of the batch, none longer than a shard, and whole parity shards. -/
structure Feedable : Prop where
  data : ∀ e ∈ s.dataBuffer.toList, s.currentBatch * batchDataChunks ≤ e.1 ∧
    e.2.length ≤ shardSize
  parity : ∀ e ∈ s.parityBuffer.toList, e.2.length = shardSize

end ReceiveState

namespace ReceiveState.Feedable

variable {s : ReceiveState}

/-- Every chunk is buffered under its own number. -/
theorem nodup_data (h : s.Feedable) :
    (s.dataBuffer.toList.map fun e => e.1 - s.currentBatch * batchDataChunks).Nodup := by
  have hnodup := s.dataBuffer.nodup_toList
  rw [List.Nodup, List.pairwise_map] at hnodup ⊢
  refine hnodup.imp_of_mem fun {e e'} he he' hne heq => hne ?_
  have hle := (h.data e he).1
  have hle' := (h.data e' he').1
  omega

/-- The decoder is fed with shards of the code word. -/
theorem shards_originals (h : s.Feedable) (dataSize : ℕ) :
    Shards dataSize shardSize (s.originals dataSize) := by
  refine ⟨?_, fun e he => ?_, fun e he => ?_⟩
  · rw [originals, List.map_map]
    exact h.nodup_data.sublist (List.filter_sublist.map _)
  · obtain ⟨e', he', rfl⟩ := List.mem_map.mp he
    exact of_decide_eq_true (List.mem_filter.mp he').2
  · obtain ⟨e', he', rfl⟩ := List.mem_map.mp he
    exact length_fillShard (h.data e' (List.mem_filter.mp he').1).2

/-- The parity chunks that are fed are shards. -/
theorem shards_recoveries (h : s.Feedable) : Shards s.parityPerBatch shardSize s.recoveries := by
  refine ⟨?_, fun e he => ?_, fun e he => ?_⟩
  · exact s.parityBuffer.nodup_toList.sublist (List.filter_sublist.map _)
  · exact of_decide_eq_true (List.mem_filter.mp he).2
  · exact h.parity e (List.mem_filter.mp he).1

/-- **The decoder** takes all buffered shards of the code word, and restores the batch if they
are enough. -/
theorem decodeBatch_eq {env : Env} (h : s.Feedable) {dataSize : ℕ}
    (hsupports : env.rs.supports dataSize s.parityPerBatch = true) :
    decodeBatch env s dataSize =
      if (s.originals dataSize).length + s.recoveries.length < dataSize then
        .error [.lit "FEC decode batch ", .nat s.currentBatch, .lit ": ",
          .rs (.notEnoughShards dataSize (s.originals dataSize).length s.recoveries.length)]
      else .ok (Std.TreeMap.ofList (env.rs.decode dataSize s.parityPerBatch shardSize
        (s.originals dataSize) s.recoveries)) := by
  have hnew : RsDecoder.new env.rs dataSize s.parityPerBatch shardSize =
      .ok ⟨dataSize, s.parityPerBatch, shardSize, [], []⟩ := by
    rw [RsDecoder.new, hsupports, if_neg Bool.false_ne_true.symm,
      if_neg (not_not_intro Transfer.validShardSize)]
  have hdata := foldlM_feedOriginal dataSize (s.currentBatch * batchDataChunks)
    s.dataBuffer.toList ⟨dataSize, s.parityPerBatch, shardSize, [], []⟩ rfl rfl
    (fun e he => (h.data e he).2) (by simpa using h.nodup_data)
  have hparity := foldlM_feedRecovery s.parityPerBatch s.parityBuffer.toList
    ⟨dataSize, s.parityPerBatch, shardSize, s.originals dataSize, []⟩ rfl rfl h.parity
    (by simpa using s.parityBuffer.nodup_toList)
  simp only [List.nil_append] at hdata hparity
  rw [← originals] at hdata
  rw [← recoveries] at hparity
  rw [decodeBatch, hnew]
  simp only [hdata, hparity, bind, Except.bind, RsDecoder.decode]
  by_cases hfew : (s.originals dataSize).length + s.recoveries.length < dataSize
  · simp only [if_pos hfew]
  · simp only [if_neg hfew]

/-- The restored shards: those of the batch that are not fed in, in full length. -/
theorem getElem?_decoded {env : Env} (h : s.Feedable) {dataSize : ℕ}
    (hsupports : env.rs.supports dataSize s.parityPerBatch = true)
    (henough : dataSize ≤ (s.originals dataSize).length + s.recoveries.length) :
    let restored := env.rs.decode dataSize s.parityPerBatch shardSize (s.originals dataSize)
      s.recoveries
    (∀ i < dataSize, i ∉ (s.originals dataSize).map Prod.fst → ∃ d, (i, d) ∈ restored) ∧
      (∀ e ∈ restored, e.2.length = shardSize) ∧
        ∀ i d, (Std.TreeMap.ofList restored : ChunkMap)[i]? = some d ↔ (i, d) ∈ restored := by
  obtain ⟨hkeys, hlen⟩ := env.rs.decode_shape hsupports Transfer.validShardSize
    (h.shards_originals dataSize) h.shards_recoveries henough
  refine ⟨fun i hi hmissing => ?_, hlen, fun i d => ?_⟩
  · have hmem : i ∈ (env.rs.decode dataSize s.parityPerBatch shardSize (s.originals dataSize)
        s.recoveries).map Prod.fst := by
      rw [hkeys, List.mem_filter, List.mem_range]
      exact ⟨hi, decide_eq_true hmissing⟩
    obtain ⟨e, he, rfl⟩ := List.mem_map.mp hmem
    exact ⟨e.2, he⟩
  · exact ChunkMap.getElem?_ofList (by rw [hkeys]; exact List.nodup_range.filter _)

end ReceiveState.Feedable

/-! ### The packets gathered for a batch -/

/-- The packets `got` of batch `b` of the file are buffered. -/
structure Gathered (libs : Libs) (t : Transfer) (b : ℕ) (got : List ChunkId)
    (s : ReceiveState) : Prop where
  fileSize : s.fileSize = t.contents.length
  parityPerBatch : s.parityPerBatch = batchParityChunks
  currentBatch : s.currentBatch = b
  data : ∀ i, s.dataBuffer[i]? = if .data i ∈ got then some (t.chunkAt i) else none
  parity : ∀ j, s.parityBuffer[j]? =
    if .parity b j ∈ got then some (t.recoveryShard libs b j) else none
  chunks : ∀ c ∈ got, t.HasChunk c ∧ c.batch = b

namespace Gathered

variable {libs : Libs} {t : Transfer} {b : ℕ} {got : List ChunkId} {s : ReceiveState}

/-- The numbers of the gathered chunks. -/
def dataIds (got : List ChunkId) : Finset ℕ :=
  (got.filterMap fun | .data i => some i | .parity _ _ => none).toFinset

/-- The numbers of the gathered parity shards. -/
def parityIds (got : List ChunkId) : Finset ℕ :=
  (got.filterMap fun | .data _ => none | .parity _ j => some j).toFinset

/-- The chunks gathered by their numbers. -/
theorem mem_dataIds {i : ℕ} : i ∈ dataIds got ↔ ChunkId.data i ∈ got := by
  rw [dataIds, List.mem_toFinset, List.mem_filterMap]
  constructor
  · rintro ⟨c, hc, h⟩
    cases c with
    | data i' => rwa [← Option.some.inj h]
    | parity b j => exact absurd h (by simp)
  · exact fun h => ⟨_, h, rfl⟩

/-- The parity chunks gathered by theirs. -/
theorem mem_parityIds (h : Gathered libs t b got s) {j : ℕ} :
    j ∈ parityIds got ↔ ChunkId.parity b j ∈ got := by
  rw [parityIds, List.mem_toFinset, List.mem_filterMap]
  constructor
  · rintro ⟨c, hc, hj⟩
    cases c with
    | data i' => exact absurd hj (by simp)
    | parity b' j' =>
        have hb : b' = b := (h.chunks _ hc).2
        rwa [← Option.some.inj hj, ← hb]
  · exact fun h => ⟨_, h, rfl⟩

/-- **The buffers hold each gathered packet once.** -/
theorem size_add_size (h : Gathered libs t b got s) :
    s.dataBuffer.size + s.parityBuffer.size = got.toFinset.card := by
  have hdata : s.dataBuffer.size = (dataIds got).card := ChunkMap.size_eq_card fun i => by
    rw [h.data i, mem_dataIds]
    split <;> simp_all
  have hparity : s.parityBuffer.size = (parityIds got).card := ChunkMap.size_eq_card fun j => by
    rw [h.parity j, h.mem_parityIds]
    split <;> simp_all
  have hsplit : got.toFinset =
      (dataIds got).map ⟨ChunkId.data, fun _ _ h => ChunkId.data.inj h⟩ ∪
        (parityIds got).map ⟨ChunkId.parity b, fun _ _ h => (ChunkId.parity.inj h).2⟩ := by
    ext c
    rw [List.mem_toFinset, Finset.mem_union, Finset.mem_map, Finset.mem_map]
    constructor
    · intro hc
      cases c with
      | data i => exact Or.inl ⟨i, mem_dataIds.mpr hc, rfl⟩
      | parity b' j =>
          obtain rfl : b' = b := (h.chunks _ hc).2
          exact Or.inr ⟨j, h.mem_parityIds.mpr hc, rfl⟩
    · rintro (⟨i, hi, rfl⟩ | ⟨j, hj, rfl⟩)
      · exact mem_dataIds.mp hi
      · exact h.mem_parityIds.mp hj
  have hdisj : Disjoint
      ((dataIds got).map ⟨ChunkId.data, fun _ _ h => ChunkId.data.inj h⟩)
      ((parityIds got).map ⟨ChunkId.parity b, fun _ _ h => (ChunkId.parity.inj h).2⟩) := by
    rw [Finset.disjoint_left]
    intro c hc hc'
    obtain ⟨i, -, rfl⟩ := Finset.mem_map.mp hc
    obtain ⟨j, -, hj⟩ := Finset.mem_map.mp hc'
    exact ChunkId.noConfusion hj
  rw [hsplit, Finset.card_union_of_disjoint hdisj, Finset.card_map, Finset.card_map, hdata, hparity]

/-- A buffered chunk is a chunk of the batch. -/
theorem mem_dataBuffer (h : Gathered libs t b got s) {e : ℕ × Bytes}
    (he : e ∈ s.dataBuffer.toList) :
    b * batchDataChunks ≤ e.1 ∧ e.1 - b * batchDataChunks < t.batchSize b ∧
      e.2 = t.chunkAt e.1 ∧ .data e.1 ∈ got := by
  have hget := Std.TreeMap.mem_toList_iff_getElem?_eq_some.mp he
  rw [h.data] at hget
  split at hget
  · rename_i hgot
    obtain ⟨hi, hb⟩ := h.chunks _ hgot
    have hlt := t.mod_lt_batchSize_iff.mpr hi
    rw [ChunkId.batch] at hb
    rw [hb] at hlt
    have hdm := Nat.div_add_mod' e.1 batchDataChunks
    rw [hb] at hdm
    exact ⟨by omega, by omega, (Option.some.inj hget).symm, hgot⟩
  · exact absurd hget (by simp)

/-- What is buffered as parity are recovery shards of the batch. -/
theorem mem_parityBuffer (h : Gathered libs t b got s) {e : ℕ × Bytes}
    (he : e ∈ s.parityBuffer.toList) :
    e.1 < batchParityChunks ∧ b < t.batchCount ∧ e.2 = t.recoveryShard libs b e.1 := by
  have hget := Std.TreeMap.mem_toList_iff_getElem?_eq_some.mp he
  rw [h.parity] at hget
  split at hget
  · rename_i hgot
    obtain ⟨⟨hb, hj⟩, -⟩ := h.chunks _ hgot
    exact ⟨hj, hb, (Option.some.inj hget).symm⟩
  · exact absurd hget (by simp)

/-- The buffers can be fed to the decoder. -/
theorem feedable (h : Gathered libs t b got s) : s.Feedable := by
  refine ⟨fun e he => ?_, fun e he => ?_⟩
  · obtain ⟨hle, -, hval, -⟩ := h.mem_dataBuffer he
    rw [h.currentBatch, hval]
    exact ⟨hle, t.length_chunkAt_le_shardSize _⟩
  · obtain ⟨hlt, hb, hval⟩ := h.mem_parityBuffer he
    rw [hval]
    exact t.length_recoveryShard libs hb hlt

/-- All buffered packets are shards of the code word. -/
theorem length_received (h : Gathered libs t b got s) :
    (s.originals (t.batchSize b)).length + s.recoveries.length = got.toFinset.card := by
  have hdata : s.dataBuffer.toList.filter (inBatch (t.batchSize b)
      (s.currentBatch * batchDataChunks)) = s.dataBuffer.toList :=
    List.filter_eq_self.mpr fun e he => by
      rw [inBatch, h.currentBatch]
      exact decide_eq_true (h.mem_dataBuffer he).2.1
  have hparity : s.parityBuffer.toList.filter (inBatch s.parityPerBatch 0) =
      s.parityBuffer.toList :=
    List.filter_eq_self.mpr fun e he => by
      rw [inBatch, h.parityPerBatch]
      exact decide_eq_true (h.mem_parityBuffer he).1
  rw [ReceiveState.originals, hdata, ReceiveState.recoveries, hparity, List.length_map,
    Std.TreeMap.length_toList, Std.TreeMap.length_toList, h.size_add_size]

/-- The library handles the shards of the batch. -/
theorem supports {env : Env} (h : Gathered env.toLibs t b got s) (hb : b < t.batchCount) :
    env.rs.supports (t.batchSize b) s.parityPerBatch = true := by
  rw [h.parityPerBatch]
  exact t.supports_batch env.toLibs hb

/-- Every chunk of the batch that is not buffered is reconstructed. -/
theorem getElem?_decoded {env : Env} (h : Gathered env.toLibs t b got s) (hb : b < t.batchCount)
    (hcount : t.batchSize b ≤ got.toFinset.card) {i : ℕ} (hi : i < t.batchSize b)
    (hmissing : .data (b * batchDataChunks + i) ∉ got) :
    (Std.TreeMap.ofList (env.rs.decode (t.batchSize b) s.parityPerBatch shardSize
        (s.originals (t.batchSize b)) s.recoveries) : ChunkMap)[i]? =
      some (fillShard (t.chunkAt (b * batchDataChunks + i))) := by
  have hsup := h.supports hb
  have hfeed := h.feedable
  have hlen : t.batchSize b ≤ (s.originals (t.batchSize b)).length + s.recoveries.length := by
    rw [h.length_received]
    exact hcount
  have hshards : (t.shards b).length = t.batchSize b := t.length_shards b
  have htrue := env.rs.decode_true (m := s.parityPerBatch) (by rw [hshards]; exact hsup)
    Transfer.validShardSize (fun s hs => t.length_of_mem_shards hs)
    (by rw [hshards]; exact hfeed.shards_originals _) hfeed.shards_recoveries
    (fun e he => by
      obtain ⟨e', he', rfl⟩ := List.mem_map.mp he
      obtain ⟨hle, hlt, hval, -⟩ := h.mem_dataBuffer (List.mem_filter.mp he').1
      rw [h.currentBatch, t.getElem?_shards hlt, hval, Nat.add_sub_cancel' hle])
    (fun e he => by
      obtain ⟨hlt, hb, hval⟩ := h.mem_parityBuffer (List.mem_filter.mp he).1
      rw [hval, h.parityPerBatch]
      exact t.getElem?_recovery env.toLibs hb hlt)
    (by rw [hshards]; exact hlen)
  rw [hshards] at htrue
  -- the missing index is among the restored ones
  have hnot : i ∉ (s.originals (t.batchSize b)).map Prod.fst := fun hbuf => hmissing <| by
    rw [ReceiveState.originals, List.map_map, List.mem_map] at hbuf
    obtain ⟨e, he, hidx⟩ := hbuf
    obtain ⟨hle, -, -, hgot⟩ := h.mem_dataBuffer (List.mem_filter.mp he).1
    simp only [Function.comp_apply, h.currentBatch] at hidx
    rwa [show b * batchDataChunks + i = e.1 by omega]
  obtain ⟨hrestored, -, hget⟩ := hfeed.getElem?_decoded hsup hlen
  obtain ⟨d, hd⟩ := hrestored i hi hnot
  have hval := htrue _ hd
  rw [t.getElem?_shards hi, Option.some.injEq] at hval
  rw [hval]
  exact (hget i d).mpr hd

/-- A buffered chunk comes out in its true length. -/
theorem chunkBytes_of_mem (h : Gathered libs t b got s) (restored : ChunkMap) {i : ℕ}
    (hgot : .data (b * batchDataChunks + i) ∈ got) :
    chunkBytes s restored i = .ok (t.chunkAt (b * batchDataChunks + i)) := by
  have hlen := t.expectedLen_eq (h.chunks _ hgot).1
  simp only [chunkBytes, h.currentBatch, h.fileSize, hlen, h.data, if_pos hgot, lt_irrefl,
    if_false, List.take_length]

/-- As many buffered chunks as the batch has are all its chunks. -/
theorem mem_of_le_size (h : Gathered libs t b got s)
    (henough : t.batchSize b ≤ s.dataBuffer.size) {i : ℕ} (hi : i < t.batchSize b) :
    .data (b * batchDataChunks + i) ∈ got := by
  have hdata : s.dataBuffer.size = (dataIds got).card := ChunkMap.size_eq_card fun i => by
    rw [h.data i, mem_dataIds]
    split <;> simp_all
  have hsub : dataIds got ⊆ (Finset.range (t.batchSize b)).map
      ⟨fun i => b * batchDataChunks + i, add_right_injective _⟩ := by
    intro i hi'
    rw [mem_dataIds] at hi'
    obtain ⟨hi'', hb'⟩ := h.chunks _ hi'
    have hlt := t.mod_lt_batchSize_iff.mpr hi''
    rw [ChunkId.batch] at hb'
    rw [hb'] at hlt
    have hdm := Nat.div_add_mod' i batchDataChunks
    rw [hb'] at hdm
    exact Finset.mem_map.mpr ⟨i % batchDataChunks, Finset.mem_range.mpr hlt, hdm⟩
  have hall := Finset.eq_of_subset_of_card_le hsub (by
    rw [Finset.card_map, Finset.card_range, ← hdata]
    exact henough)
  rw [← mem_dataIds, hall]
  exact Finset.mem_map.mpr ⟨i, Finset.mem_range.mpr hi, rfl⟩

/-- **Enough packets restore the batch**: every chunk comes out in its true length. -/
theorem restoreBatch_ok {env : Env} (h : Gathered env.toLibs t b got s) (hb : b < t.batchCount)
    (hcount : t.batchSize b ≤ got.toFinset.card) (w : World) :
    ∃ restored w', restoreBatch env s (t.batchSize b) w = (.ok restored, w') ∧ w'.fs = w.fs ∧
      w'.calls = w.calls ∧ ∀ i < t.batchSize b,
        chunkBytes s restored i = .ok (t.chunkAt (b * batchDataChunks + i)) := by
  have hsize := h.size_add_size
  rw [restoreBatch]
  by_cases henough : t.batchSize b ≤ s.dataBuffer.size
  · -- every chunk of the batch is buffered
    rw [if_pos henough]
    exact ⟨∅, w, rfl, rfl, rfl, fun i hi => h.chunkBytes_of_mem ∅ (h.mem_of_le_size henough hi)⟩
  · have hfec : ¬(s.parityPerBatch = 0) := by rw [h.parityPerBatch]; decide
    have hsum : ¬(s.dataBuffer.size + s.parityBuffer.size < t.batchSize b) := by omega
    have hlen : ¬((s.originals (t.batchSize b)).length + s.recoveries.length <
        t.batchSize b) := by
      rw [h.length_received]
      omega
    rw [if_neg henough, if_neg hfec, if_neg hsum, h.feedable.decodeBatch_eq (h.supports hb),
      if_neg hlen]
    refine ⟨_, _, rfl, rfl, rfl, fun i hi => ?_⟩
    by_cases hgot : .data (b * batchDataChunks + i) ∈ got
    · exact h.chunkBytes_of_mem _ hgot
    · have hchunk : b * batchDataChunks + i < t.chunkCount := by
        rw [t.batchSize_eq] at hi
        omega
      have hlen := t.expectedLen_eq hchunk
      have hshort : ¬((fillShard (t.chunkAt (b * batchDataChunks + i))).length <
          (t.chunkAt (b * batchDataChunks + i)).length) := by
        rw [length_fillShard (t.length_chunkAt_le_shardSize _), not_lt]
        exact t.length_chunkAt_le_shardSize _
      simp only [chunkBytes, h.currentBatch, h.fileSize, hlen, h.data, if_neg hgot,
        h.getElem?_decoded hb hcount hi hgot, if_neg hshort, take_fillShard]

/-- **Fewer packets do not.** -/
theorem restoreBatch_error {env : Env} (h : Gathered env.toLibs t b got s)
    (hcount : got.toFinset.card < t.batchSize b) (w : World) :
    ∃ e, restoreBatch env s (t.batchSize b) w = (.error e, w) := by
  have hsize := h.size_add_size
  have hfec : ¬(s.parityPerBatch = 0) := by rw [h.parityPerBatch]; decide
  rw [restoreBatch, if_neg (by omega), if_neg hfec, if_pos (by omega)]
  exact ⟨_, rfl⟩

end Gathered

end DataDiode
