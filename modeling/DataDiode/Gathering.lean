import DataDiode.Delivery
import DataDiode.Footprint
import DataDiode.Written

/-!
# Collecting on a Failing Disk

The receiver in the middle of an honest transfer, whatever the operating system fails: the file
under reception holds the batches before the current one and zeros behind them, and the packets
gathered of the current batch are buffered (`Gathering`). A write that fails may leave part of a
chunk behind, but it also marks the transfer as failed, and such a transfer is never published.

## Main results

* `Gathering.finalizeCurrentBatch_ok`: a batch that is finalized had enough packets, and is written.
* `Gathers.handlePacket_chunk`, `Gathers.handlePacket_foreign`: a chunk of the file, and one of
  another file.
* `Gathers.finalizeLast`: the last batch.
-/

namespace DataDiode

open UnixPath World

/-! ### Calls that succeed -/

namespace World

variable {env : Env} {w w' : World}

/-- A file that is opened under reception is as long as announced, and all zero. -/
theorem openOutputFile_contents {p : Str} {size : ℕ} {f : File}
    (h : w.openOutputFile env p size = (.ok f, w')) :
    w'.fs.contents (env.locate (env.partialPath p)) = some (List.replicate size 0) := by
  rw [openOutputFile] at h
  split at h
  · exact absurd h (by simp)
  split at h
  · exact absurd h (by simp)
  rename_i w₁ _ g w₂ hopen
  have hfile := openWrite_file hopen
  have hempty : w₂.fs.contents (env.locate (env.partialPath p)) = some [] := by
    rw [openWrite] at hopen
    split at hopen
    · rename_i w₀ hcall
      have hact := call_eq_ok hcall
      rw [onFile] at hact
      split at hact
      · exact absurd hact (by simp)
      · rw [Prod.mk.injEq] at hopen
        rw [← hopen.2, FileTree.contents_eq_some_iff]
        change w₀.fs.node _ = _
        rw [(FileTree.create_eq_ok hact).2, Function.update_self, if_pos rfl]
    · exact absurd hopen (by simp)
  split at h
  · split at h
    · exact absurd h (by simp)
    · rename_i w₃ hlen
      obtain ⟨d, hd, hnode⟩ := FileTree.modify_eq_ok (call_eq_ok hlen)
      rw [hfile] at hd hnode
      obtain rfl : d = [] := by
        rw [FileTree.contents_eq_some_iff.mpr hd] at hempty
        exact Option.some.inj hempty
      rw [Prod.mk.injEq] at h
      rw [← h.2, FileTree.contents_eq_some_iff, hnode, Function.update_self, Slices.resize_nil]
      rfl
  · rename_i hzero
    rw [Prod.mk.injEq] at h
    rw [← h.2, hempty, Nat.eq_zero_of_not_pos hzero, List.replicate_zero]

end World

/-! ### The file under reception -/

/-- The file under reception holds the first `n` chunks of the file, and zeros behind them. -/
def HoldsChunks (env : Env) (t : Transfer) (n : ℕ) (w : World) : Prop :=
  w.fs.contents (env.locate (env.partialPath t.path)) = some (t.filled n)

namespace HoldsChunks

variable {env : Env} {t : Transfer} {n : ℕ} {w w' : World}

/-- Past the last chunk, the number of chunks does not matter. -/
theorem past (h : HoldsChunks env t n w) (hn : t.chunkCount ≤ n) {m : ℕ} (hm : t.chunkCount ≤ m) :
    HoldsChunks env t m w := by
  rw [HoldsChunks, t.filled_of_le hm, ← t.filled_of_le hn]
  exact h

/-- Chunks written one after the other, from number `n` on, if no call fails. -/
theorem writeChunks {state : ReceiveState} {restored : ChunkMap} {b k : ℕ}
    (hchunks : ∀ i < t.batchSize b,
      chunkBytes state restored i = .ok (t.chunkAt (b * batchDataChunks + i))) :
    ∀ {s : ℕ} {w : World}, s + k = t.batchSize b → HoldsChunks env t (b * batchDataChunks + s) w →
      w.cursor = chunkSize * (b * batchDataChunks + s) →
      DataDiode.writeChunks env state restored ⟨env.partialPath t.path⟩ (List.range' s k) w =
        (.ok (), w') →
      HoldsChunks env t (b * batchDataChunks + t.batchSize b) w' := by
  induction k with
  | zero =>
      intro s w hs h _ hwrite
      rw [← hs, ← (Prod.mk.inj hwrite).2]
      exact h
  | succ k ih =>
      intro s w hs h hcursor hwrite
      have hlt : s < t.batchSize b := by omega
      have hchunk : b * batchDataChunks + s < t.chunkCount := by
        rw [t.batchSize_eq] at hlt
        omega
      rw [List.range'_succ, DataDiode.writeChunks, hchunks s hlt] at hwrite
      dsimp only at hwrite
      split at hwrite
      · exact absurd hwrite (by simp)
      rename_i w₁ heq
      obtain ⟨hcontents, hcur⟩ := writeAll_eq_ok heq h
      rw [hcursor, t.overwrite_filled hchunk, Nat.add_assoc] at hcontents
      rcases Nat.lt_or_ge (b * batchDataChunks + s + 1) t.chunkCount with hmore | hend
      · -- another chunk follows, so this one is full
        refine ih (by omega) hcontents ?_ hwrite
        have hfull : (t.chunkAt (b * batchDataChunks + s)).length = chunkSize :=
          Slices.length_chunk_of_succ_lt (by decide) hmore
        rw [hcur, hcursor, hfull, ← Nat.add_assoc]
        exact (Nat.mul_succ _ _).symm
      · have hk : k = 0 := by
          rw [t.batchSize_eq] at hs
          omega
        rw [hk, List.range'_zero] at hwrite
        rw [← hs, hk, ← (Prod.mk.inj hwrite).2]
        exact hcontents

end HoldsChunks

/-! ### The state while collecting -/

/-- The receiver collects batch `b` of the file and has gathered the packets `got` of it; the file
under reception holds the batches before. -/
structure Gathering (env : Env) (t : Transfer) (b : ℕ) (got : List ChunkId) (wk : Worker) :
    Prop where
  filePath : wk.state.filePath = some t.path
  pathHash : wk.state.pathHash = some (t.pathHash env.toLibs)
  output : wk.state.output = some ⟨env.partialPath t.path⟩
  gathered : Gathered env.toLibs t b got wk.state
  held : HoldsChunks env t (b * batchDataChunks) wk.world

namespace Gathering

variable {env : Env} {t : Transfer} {b : ℕ} {got : List ChunkId} {wk wk' : Worker}

/-- Only the state and the files matter. -/
theorem congr (h : Gathering env t b got wk) (hstate : wk'.state = wk.state)
    (hfs : wk'.world.fs = wk.world.fs) : Gathering env t b got wk' where
  filePath := hstate ▸ h.filePath
  pathHash := hstate ▸ h.pathHash
  output := hstate ▸ h.output
  gathered := hstate ▸ h.gathered
  held := by
    rw [HoldsChunks, hfs]
    exact h.held

/-- A batch that is written out without an error. -/
theorem writeBatch (h : Gathering env t b got wk) (hb : b < t.batchCount)
    (henough : t.Enough b got) {w' : World}
    (hwrite : writeBatch env wk.state (t.batchSize b) wk.world = (.ok (), w')) :
    HoldsChunks env t (b * batchDataChunks + t.batchSize b) w' := by
  obtain ⟨restored, w₁, hrestore, hfs, -, hchunks⟩ :=
    h.gathered.restoreBatch_ok hb henough wk.world
  rw [DataDiode.writeBatch, hrestore, h.output] at hwrite
  simp only [h.gathered.currentBatch, List.range_eq_range'] at hwrite
  split at hwrite
  · exact absurd hwrite (by simp)
  rename_i w₂ hseek
  obtain ⟨hfs₂, hcursor⟩ := seek_eq_ok hseek
  refine HoldsChunks.writeChunks hchunks (Nat.zero_add _) ?_ ?_ hwrite
  · rw [HoldsChunks, hfs₂, hfs, Nat.add_zero]
    exact h.held
  · rw [hcursor, Nat.add_zero, batchOffset, Nat.mul_comm]

/-- **A batch that is finalized** had enough packets, and the file under reception holds it. -/
theorem finalizeCurrentBatch_ok (h : Gathering env t b got wk)
    (hfinal : finalizeCurrentBatch env wk = (.ok (), wk')) :
    t.Enough b got ∧ wk'.state = wk.state.clearBuffers ∧
      HoldsChunks env t ((b + 1) * batchDataChunks) wk'.world := by
  have hsize : batchDataSize wk.state.currentBatch wk.state.fileSize = t.batchSize b := by
    rw [h.gathered.currentBatch, h.gathered.fileSize]
    rfl
  have hlast := t.batchSize_eq b
  rw [finalizeCurrentBatch, hsize] at hfinal
  split at hfinal
  · rename_i hzero
    obtain rfl := (Prod.mk.inj hfinal).2
    refine ⟨by rw [Transfer.Enough, hzero]; exact Nat.zero_le _, rfl, h.held.past ?_ ?_⟩
    all_goals
      rw [hzero, batchDataChunks] at hlast
      rw [batchDataChunks]
      omega
  · rename_i hzero
    have henough : t.Enough b got := by
      by_contra hmissing
      obtain ⟨e, herror⟩ := h.gathered.restoreBatch_error (not_le.mp hmissing) wk.world
      rw [DataDiode.writeBatch, herror] at hfinal
      exact absurd hfinal (by simp)
    split at hfinal
    · exact absurd hfinal (by simp)
    rename_i w' hwrite
    obtain rfl := (Prod.mk.inj hfinal).2
    refine ⟨henough, rfl, ?_⟩
    have hheld := h.writeBatch (t.batchSize_pos_iff.mp (Nat.pos_of_ne_zero hzero)) henough hwrite
    rcases Nat.lt_or_ge (t.batchSize b) batchDataChunks with hshort | hfull
    · refine hheld.past ?_ ?_
      all_goals
        rw [batchDataChunks] at *
        omega
    · rwa [Nat.le_antisymm (t.batchSize_le b) hfull, ← Nat.succ_mul] at hheld

/-- The next batch, with nothing gathered of it. -/
theorem next (h : Gathering env t b got wk) (hstate : wk'.state = wk.state.clearBuffers)
    (hheld : HoldsChunks env t ((b + 1) * batchDataChunks) wk'.world) :
    Gathering env t (b + 1) [] wk'.nextBatch := by
  have hnext : wk'.nextBatch.state =
      { wk.state.clearBuffers with currentBatch := wk.state.currentBatch + 1 } := by
    rw [Worker.nextBatch, hstate]
    rfl
  refine ⟨by rw [hnext]; exact h.filePath, by rw [hnext]; exact h.pathHash,
    by rw [hnext]; exact h.output, ?_, hheld⟩
  rw [hnext]
  refine ⟨h.gathered.fileSize, h.gathered.parityPerBatch,
    congrArg (· + 1) h.gathered.currentBatch, fun i => ?_, fun j => ?_,
    fun c hc => absurd hc List.not_mem_nil⟩
  · rw [if_neg List.not_mem_nil]
    exact Std.TreeMap.getElem?_emptyc
  · rw [if_neg List.not_mem_nil]
    exact Std.TreeMap.getElem?_emptyc

/-- A packet of the current batch is gathered, or marks the transfer as failed. -/
theorem buffer (h : Gathering env t b got wk) {c : ChunkId} (hc : t.HasChunk c)
    (hb : c.batch = b) :
    (c.buffer (t.chunk env.toLibs c) wk).state.failed = true ∨
      Gathering env t b (c :: got) (c.buffer (t.chunk env.toLibs c) wk) := by
  cases c with
  | data i =>
      have hcontains : wk.state.dataBuffer.contains i = true ↔ .data i ∈ got := by
        rw [Std.TreeMap.contains_eq_isSome_getElem?, h.gathered.data]
        split <;> simp_all
      have hcount : (t.chunk env.toLibs (.data i)).count = i := rfl
      rw [ChunkId.buffer, bufferData, hcount]
      split
      · rename_i hgot
        exact Or.inr { h with gathered := h.gathered.cons_of_mem (hcontains.mp hgot) }
      split
      · exact Or.inl rfl
      · exact Or.inr { h with gathered := h.gathered.insertData hc hb _ _ }
  | parity b' j =>
      obtain rfl : b' = b := hb
      have hindex : (t.chunk env.toLibs (.parity b' j)).count % batchParityChunks = j := by
        have hj := hc.2
        rw [batchParityChunks] at hj
        change (b' * 100 + j) % 100 = j
        omega
      have hcontains : wk.state.parityBuffer.contains j = true ↔ .parity b' j ∈ got := by
        rw [Std.TreeMap.contains_eq_isSome_getElem?, h.gathered.parity]
        split <;> simp_all
      rw [ChunkId.buffer, bufferParity, hindex]
      split
      · rename_i hgot
        exact Or.inr { h with gathered := h.gathered.cons_of_mem (hcontains.mp hgot) }
      split
      · exact Or.inl rfl
      · exact Or.inr { h with gathered := h.gathered.insertParity hc _ }

end Gathering

/-! ### What has arrived -/

namespace Transfer

variable (libs : Libs) {t : Transfer} {raws : List Bytes} {b : ℕ} {got : List ChunkId}

/-- The packets gathered have arrived, and the batches before could be restored from what
arrived. -/
structure Backed (t : Transfer) (raws : List Bytes) (b : ℕ) (got : List ChunkId) : Prop where
  arrived : ∀ c ∈ got, t.HasChunk c ∧ c.batch = b ∧ t.chunkPacket libs c ∈ raws
  before : ∀ b' < b, t.Restorable libs b' raws

/-- Enough packets gathered of a batch have arrived. -/
theorem Backed.restorable (h : t.Backed libs raws b got) (henough : t.Enough b got) :
    ∀ b' ≤ b, t.Restorable libs b' raws := by
  intro b' hb'
  rcases hb'.lt_or_eq with hlt | rfl
  · exact h.before b' hlt
  by_cases hb : b' < t.batchCount
  · have hsub : got.toFinset ⊆
        ((t.batchIds b').filter fun c => t.chunkPacket libs c ∈ raws).toFinset := by
      intro c hc
      obtain ⟨hchunk, hbatch, hraw⟩ := h.arrived c (List.mem_toFinset.mp hc)
      rw [List.mem_toFinset, List.mem_filter, decide_eq_true_eq]
      exact ⟨(t.mem_batchIds hb).mpr ⟨hchunk, hbatch⟩, hraw⟩
    have hcard := Finset.card_le_card hsub
    rw [List.toFinset_card_of_nodup ((t.nodup_batchIds b').filter _)] at hcard
    rw [Restorable, arrivedCount, t.batchPackets_eq_map libs hb, List.filter_map, List.length_map]
    exact henough.trans hcard
  · have hzero : t.batchSize b' = 0 := Nat.eq_zero_of_not_pos (t.batchSize_pos_iff.not.mpr hb)
    rw [Restorable, hzero]
    exact Nat.zero_le _

/-- The next batch, when enough has arrived. -/
theorem Backed.next (h : t.Backed libs raws b got) (henough : t.Enough b got) :
    t.Backed libs raws (b + 1) [] where
  arrived _ hc := absurd hc List.not_mem_nil
  before b' hb' := h.restorable libs henough b' (Nat.le_of_lt_succ hb')

/-- One more chunk of the batch has arrived. -/
theorem Backed.cons (h : t.Backed libs raws b got) {c : ChunkId} (hc : t.HasChunk c)
    (hb : c.batch = b) (hraw : t.chunkPacket libs c ∈ raws) : t.Backed libs raws b (c :: got) where
  arrived := List.forall_mem_cons.mpr ⟨⟨hc, hb, hraw⟩, h.arrived⟩
  before := h.before

end Transfer

/-! ### A transfer in progress -/

/-- A transfer of the file is in progress: it has failed, or the receiver collects a batch, and
everything so far is backed by what arrived. -/
structure Gathers (env : Env) (t : Transfer) (raws : List Bytes) (wk : Worker) : Prop where
  filePath : wk.state.filePath = some t.path
  progress : wk.state.failed = true ∨
    ∃ b got, Gathering env t b got wk ∧ t.Backed env.toLibs raws b got

namespace Gathers

variable {env : Env} {t u : Transfer} {raws : List Bytes} {wk : Worker}

/-- A transfer is in progress. -/
theorem isSome (h : Gathers env t raws wk) : wk.state.filePath.isSome := by
  rw [h.filePath]
  rfl

/-- Only the state and the tree make a difference. -/
theorem congr (h : Gathers env t raws wk) {wk' : Worker} (hstate : wk'.state = wk.state)
    (hfs : wk'.world.fs = wk.world.fs) : Gathers env t raws wk' := by
  refine ⟨hstate ▸ h.filePath, ?_⟩
  rcases h.progress with hfailed | ⟨b, got, hgathering, hbacked⟩
  · exact Or.inl (hstate ▸ hfailed)
  · exact Or.inr ⟨b, got, hgathering.congr hstate hfs, hbacked⟩

/-- Finalizing batches one after the other. -/
theorem advanceBatches (n : ℕ) : ∀ {wk : Worker}, Gathers env t raws wk →
    Gathers env t raws (advanceBatches env n wk) := by
  induction n with
  | zero => exact fun h => h
  | succ n ih =>
      intro wk h
      rw [DataDiode.advanceBatches]
      split
      · exact h
      rename_i hactive
      obtain ⟨b, got, hgathering, hbacked⟩ := h.progress.resolve_left hactive
      have hsame := finalizeCurrentBatch_sameTransfer env wk
      split
      · rename_i e wk₁ heq
        rw [heq] at hsame
        exact ⟨hsame.filePath.trans h.filePath, Or.inl rfl⟩
      · rename_i wk₁ heq
        obtain ⟨henough, hstate, hheld⟩ := hgathering.finalizeCurrentBatch_ok heq
        have hnext := hgathering.next hstate hheld
        exact ih ⟨hnext.filePath, Or.inr ⟨b + 1, [], hnext, hbacked.next env.toLibs henough⟩⟩

/-- **A chunk of the file** that has arrived. -/
theorem handlePacket_chunk (ht : t.Small) (h : Gathers env t raws wk) {c : ChunkId}
    (hc : t.HasChunk c) (hraw : t.chunkPacket env.toLibs c ∈ raws) :
    Gathers env t raws (handlePacket env wk (t.chunkPacket env.toLibs c)) := by
  rw [Transfer.handlePacket_chunk ht.length_lt hc h.isSome, acceptChunk]
  split
  · exact h
  rename_i hactive
  obtain ⟨b, got, hgathering, -⟩ := h.progress.resolve_left hactive
  rw [Transfer.isChunkValid_chunk hc _ hgathering.pathHash]
  dsimp only
  have hadvance : Gathers env t raws
      (if wk.state.currentBatch < c.batch then advanceToBatch env wk c.batch else wk) := by
    split
    · exact h.advanceBatches _
    · exact h
  generalize (if wk.state.currentBatch < c.batch then advanceToBatch env wk c.batch else wk) = wk₁
    at hadvance ⊢
  split
  · rename_i hcurrent
    obtain ⟨b₁, got₁, hgathering₁, hbacked₁⟩ :=
      hadvance.progress.resolve_left (by rw [hcurrent.1]; exact Bool.false_ne_true)
    have hb : c.batch = b₁ := hcurrent.2.trans hgathering₁.gathered.currentBatch
    have hpath : (c.buffer (t.chunk env.toLibs c) wk₁).state.filePath = some t.path := by
      rw [← hadvance.filePath]
      cases c with
      | data i => exact (bufferData_sameTransfer wk₁ _).filePath
      | parity b j => exact (bufferParity_sameTransfer wk₁ _ _).filePath
    exact ⟨hpath, (hgathering₁.buffer hc hb).imp_right fun hbuffer =>
      ⟨b₁, c :: got₁, hbuffer, hbacked₁.cons env.toLibs hc hb hraw⟩⟩
  · exact hadvance

/-- **A chunk of another file** is turned away. -/
theorem handlePacket_foreign (hu : u.Small) (h : Gathers env t raws wk)
    (hhash : t.pathHash env.toLibs ≠ u.pathHash env.toLibs) {c : ChunkId} (hc : u.HasChunk c) :
    Gathers env t raws (handlePacket env wk (u.chunkPacket env.toLibs c)) := by
  rw [Transfer.handlePacket_chunk hu.length_lt hc h.isSome, acceptChunk]
  split
  · exact h
  rename_i hactive
  obtain ⟨b, got, hgathering, -⟩ := h.progress.resolve_left hactive
  have hother : (u.chunk env.toLibs c).pathHash = u.pathHash env.toLibs := by
    cases c <;> rfl
  rw [isChunkValid, if_pos]
  · exact h.congr rfl rfl
  · rw [hgathering.pathHash, hother]
    exact ⟨Option.some_ne_none _, fun heq => hhash (Option.some.inj heq)⟩

/-- **The last batch** fails, or the file under reception holds the batches up to it, and these
could be restored from what arrived. -/
theorem finalizeLast (h : Gathers env t raws wk) :
    (finalizeLast env wk t.path).state.failed = true ∨
      ∃ b, HoldsChunks env t ((b + 1) * batchDataChunks) (finalizeLast env wk t.path).world ∧
        ∀ b' ≤ b, t.Restorable env.toLibs b' raws := by
  rw [DataDiode.finalizeLast]
  split
  · rename_i hfailed
    exact Or.inl hfailed
  rename_i hactive
  obtain ⟨b, got, hgathering, hbacked⟩ := h.progress.resolve_left hactive
  split
  · rename_i wk₁ heq
    obtain ⟨henough, -, hheld⟩ := hgathering.finalizeCurrentBatch_ok heq
    exact Or.inr ⟨b, hheld, hbacked.restorable env.toLibs henough⟩
  · exact Or.inl rfl

end Gathers

/-- **An announcement** opens the transfer, or leaves the receiver idle. -/
theorem openTransfer_gathers {env : Env} {wk : Worker} (hnew : wk.state = .new) (t : Transfer)
    (raws : List Bytes) :
    let wk' := openTransfer env wk t.path t.contents.length (t.pathHash env.toLibs)
      batchParityChunks
    wk'.state = .new ∨ Gathers env t raws wk' := by
  dsimp only
  rw [openTransfer]
  dsimp only
  split
  · exact Or.inl hnew
  rename_i f w heq
  right
  refine ⟨rfl, Or.inr ⟨0, [], ⟨rfl, rfl, ?_, ?_, ?_⟩, fun c hc => absurd hc List.not_mem_nil,
    fun b hb => absurd hb (Nat.not_lt_zero b)⟩⟩
  · rw [openOutputFile_file env _ t.path heq]
  · rw [hnew]
    refine ⟨rfl, rfl, rfl, fun i => ?_, fun j => ?_, fun c hc => absurd hc List.not_mem_nil⟩
    · rw [if_neg List.not_mem_nil]
      exact Std.TreeMap.getElem?_emptyc
    · rw [if_neg List.not_mem_nil]
      exact Std.TreeMap.getElem?_emptyc
  · have hcontents := openOutputFile_contents heq
    rw [HoldsChunks, Nat.zero_mul, t.filled_zero]
    exact hcontents

end DataDiode
