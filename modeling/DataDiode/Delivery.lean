import DataDiode.Reference
import DataDiode.Tracking

/-!
# The Delivery of a File

A transfer as a whole: its START opens it, its chunks are followed, and its END closes it. With
enough packets of every batch, in the order of the batches, the file arrives, whatever is lost,
repeated or permuted beyond that (`Transfer.Tolerable`).

## Main results

* `Collecting.start`: the START packet opens a transfer.
* `Collecting.run_ok`: chunks and END, from the progress alone.
* `run_tolerable`: the forward error correction makes up for every tolerable loss.
-/

namespace DataDiode

/-! ### The packets between START and END -/

namespace Transfer

variable (libs : Libs) {t : Transfer}

/-- The packets of the chunks. -/
theorem mem_chunkPackets_iff {raw : Bytes} :
    raw ∈ t.chunkPackets libs ↔ ∃ c, t.HasChunk c ∧ raw = t.chunkPacket libs c := by
  rw [chunkPackets, List.mem_flatMap]
  constructor
  · rintro ⟨b, hb, hraw⟩
    rw [t.batchPackets_eq_map libs (List.mem_range.mp hb), List.mem_map] at hraw
    obtain ⟨c, hc, rfl⟩ := hraw
    exact ⟨c, ((t.mem_batchIds (List.mem_range.mp hb)).mp hc).1, rfl⟩
  · rintro ⟨c, hc, rfl⟩
    refine ⟨c.batch, List.mem_range.mpr hc.batch_lt, ?_⟩
    rw [t.batchPackets_eq_map libs hc.batch_lt]
    exact List.mem_map_of_mem ((t.mem_batchIds hc.batch_lt).mpr ⟨hc, rfl⟩)

/-- The packets of a batch, by their names. -/
theorem mem_batchPackets_iff {c : ChunkId} (hc : t.HasChunk c) (ht : t.Small) {b : ℕ}
    (hb : b < t.batchCount) : t.chunkPacket libs c ∈ t.batchPackets libs b ↔ c.batch = b := by
  rw [t.batchPackets_eq_map libs hb, List.mem_map]
  constructor
  · rintro ⟨c', hc', heq⟩
    obtain ⟨hchunk, hbatch⟩ := (t.mem_batchIds hb).mp hc'
    rwa [← chunkPacket_injective libs hchunk hc ht.length_lt heq]
  · rintro rfl
    exact ⟨c, (t.mem_batchIds hb).mpr ⟨hc, rfl⟩, rfl⟩

/-- The packet of a chunk is neither the START nor the END of the file. -/
theorem chunkPacket_ne {c : ChunkId} (hc : t.HasChunk c)
    (ht : t.contents.length < countBound) :
    t.chunkPacket libs c ≠ t.startPacket libs ∧ t.chunkPacket libs c ≠ t.endPacket := by
  have hchunk := decodePacket_chunkPacket libs hc ht
  constructor
  · intro heq
    rw [heq, decodePacket_startPacket libs ht, Option.some.injEq] at hchunk
    exact pkgType_chunk_ne libs c (by decide : pkgTypeData ≠ pkgTypeStart) (by decide)
      (congrArg Packet.pkgType hchunk).symm
  · intro heq
    rw [heq, decodePacket_endPacket ht, Option.some.injEq] at hchunk
    exact pkgType_chunk_ne libs c (by decide : pkgTypeData ≠ pkgTypeEnd) (by decide)
      (congrArg Packet.pkgType hchunk).symm

/-- Packets of a file other than its END, by their names. -/
theorem exists_body {body : List Bytes}
    (h : ∀ raw ∈ body, raw = t.startPacket libs ∨ raw ∈ t.chunkPackets libs) :
    ∃ cs : List (Option ChunkId), (∀ c, some c ∈ cs → t.HasChunk c) ∧
      body = cs.map (t.bodyPacket libs) := by
  induction body with
  | nil => exact ⟨[], fun c hc => absurd hc List.not_mem_nil, rfl⟩
  | cons raw body ih =>
      obtain ⟨cs, hcs, rfl⟩ := ih fun raw' hraw' => h raw' (List.mem_cons_of_mem _ hraw')
      rcases h raw List.mem_cons_self with rfl | hraw
      · refine ⟨none :: cs, fun c hc => hcs c ?_, rfl⟩
        exact (List.mem_cons.mp hc).resolve_left (by simp)
      · obtain ⟨c, hc, rfl⟩ := (mem_chunkPackets_iff libs).mp hraw
        refine ⟨some c :: cs, fun c' hc' => ?_, rfl⟩
        rcases List.mem_cons.mp hc' with heq | hc'
        · rwa [Option.some.inj heq]
        · exact hcs c' hc'

/-- Only the presence of the packets counts. -/
theorem arrivedCount_congr {b : ℕ} {raws raws' : List Bytes}
    (h : ∀ raw ∈ t.batchPackets libs b, raw ∈ raws ↔ raw ∈ raws') :
    t.arrivedCount libs b raws = t.arrivedCount libs b raws' := by
  rw [arrivedCount, arrivedCount]
  congr 1
  exact List.filter_congr fun raw hraw => by simpa using h raw hraw

/-- The packets of a batch that arrived, counted by their names. -/
theorem arrivedCount_eq (ht : t.Small) {b : ℕ} (hb : b < t.batchCount) {ids : List ChunkId}
    (hids : ∀ c ∈ ids, t.HasChunk c) {raws : List Bytes}
    (hraws : ∀ c, t.HasChunk c → (t.chunkPacket libs c ∈ raws ↔ c ∈ ids)) :
    t.arrivedCount libs b raws = (ofBatch ids b).toFinset.card := by
  have hcount : t.arrivedCount libs b raws =
      t.arrivedCount libs b (ids.map (t.chunkPacket libs)) := by
    refine arrivedCount_congr libs fun raw hraw => ?_
    rw [t.batchPackets_eq_map libs hb, List.mem_map] at hraw
    obtain ⟨c, hc, rfl⟩ := hraw
    have hchunk := ((t.mem_batchIds hb).mp hc).1
    rw [hraws c hchunk]
    refine ⟨List.mem_map_of_mem, fun hmem => ?_⟩
    obtain ⟨c', hc', heq⟩ := List.mem_map.mp hmem
    rwa [← chunkPacket_injective libs (hids c' hc') hchunk ht.length_lt heq]
  rw [hcount, arrivedCount_map libs ht.length_lt hb hids]
  rfl

/-- A batch can be restored exactly if enough of its chunks are among the names. -/
theorem restorable_iff (ht : t.Small) {b : ℕ} (hb : b < t.batchCount) {ids : List ChunkId}
    (hids : ∀ c ∈ ids, t.HasChunk c) {raws : List Bytes}
    (hraws : ∀ c, t.HasChunk c → (t.chunkPacket libs c ∈ raws ↔ c ∈ ids)) :
    t.Restorable libs b raws ↔ t.Enough b (ofBatch ids b) := by
  rw [Restorable, arrivedCount_eq libs ht hb hids hraws]
  rfl

/-- The batches of a file hold all its chunks. -/
theorem chunkCount_le {n : ℕ} (h : t.batchCount ≤ n) : t.chunkCount ≤ n * batchDataChunks := by
  rw [batchCount] at h
  rw [batchDataChunks] at *
  omega

end Transfer

/-! ### A transfer from START to END -/

section Whole

variable {env : Env} {t : Transfer} {wk : Worker}

/-- **The START packet opens the transfer.** -/
theorem Collecting.start (henv : env.NoFaults) (ht : t.Small)
    (hnew : (preempt env wk).state = .new) (hother : wk.state.filePath ≠ some t.path)
    (hun : Unobstructed env (preempt env wk).world.fs t.path) :
    (handlePacket env wk (t.startPacket env.toLibs)).stats = (preempt env wk).stats ∧
      ∃ base, Collecting env t (preempt env wk).world.calls base 0 []
        (handlePacket env wk (t.startPacket env.toLibs)) := by
  have hopen : handlePacket env wk (t.startPacket env.toLibs) = openTransfer env (preempt env wk)
      t.path t.contents.length (t.pathHash env.toLibs) batchParityChunks := by
    rw [Transfer.handlePacket_start ht.length_lt, newFile, if_neg hother]
    simp only
    rw [if_neg (by rw [ht.accepted.safe]; exact Bool.false_ne_true.symm),
      if_neg ht.accepted.no_nul]
  obtain ⟨hstate, hstats, base, hready, hholds⟩ := openTransfer_ok henv ht.accepted hnew hun
    t.contents.length (t.pathHash env.toLibs) batchParityChunks
  obtain ⟨more, hcalls, hmore, -⟩ := openTransfer_steps env (preempt env wk) t.path
    t.contents.length (t.pathHash env.toLibs) batchParityChunks
  rw [hopen]
  refine ⟨hstats, base, ?_⟩
  constructor
  · rw [hstate]
    rfl
  · rw [hstate]
    rfl
  · rw [hstate]
    rfl
  · rw [hstate]
    rfl
  · rw [hstate]
    exact Nat.zero_le _
  · rw [hstate]
    refine ⟨rfl, rfl, rfl, fun i => ?_, fun j => ?_, fun c hc => absurd hc List.not_mem_nil⟩
    · rw [if_neg List.not_mem_nil]
      exact Std.TreeMap.getElem?_emptyc
    · rw [if_neg List.not_mem_nil]
      exact Std.TreeMap.getElem?_emptyc
  · exact hready
  · rw [Nat.zero_mul]
    exact ⟨by rwa [t.filled_zero], .start hcalls fun c hc => (hmore c hc).2⟩

/-- Without a transfer in progress, packets other than START are passed over. -/
theorem handlePacket_idle (ht : t.contents.length < countBound) (hidle : wk.state.filePath = none)
    {raw : Bytes} (hraw : raw = t.endPacket ∨ raw ∈ t.chunkPackets env.toLibs) :
    handlePacket env wk raw = wk := by
  have hnone : ¬wk.state.filePath.isSome := by
    rw [hidle]
    exact Bool.false_ne_true
  have hignored : ∀ {p : Packet}, p.pkgType ≠ pkgTypeStart → p.pkgType ≠ pkgTypeUdp →
      decodePacket raw = some p → handlePacket env wk raw = wk := by
    intro p hstart hudp hdecode
    rw [handlePacket, hdecode]
    simp only
    rw [dispatch, if_neg hstart, if_neg fun h => hnone h.2, if_neg fun h => hnone h.2,
      if_neg fun h => hnone h.2, if_neg fun h => hudp h.1]
  rcases hraw with rfl | hraw
  · exact hignored (by decide : pkgTypeEnd ≠ pkgTypeStart) (by decide : pkgTypeEnd ≠ pkgTypeUdp)
      (Transfer.decodePacket_endPacket ht)
  · obtain ⟨c, hc, rfl⟩ := (Transfer.mem_chunkPackets_iff env.toLibs).mp hraw
    exact hignored (Transfer.pkgType_chunk_ne env.toLibs c (by decide) (by decide))
      (Transfer.pkgType_chunk_ne env.toLibs c (by decide) (by decide))
      (Transfer.decodePacket_chunkPacket env.toLibs hc ht)

/-- Without a transfer in progress, chunks and ENDs do nothing. -/
theorem run_idle (ht : t.contents.length < countBound) (hidle : wk.state.filePath = none)
    {raws : List Bytes}
    (hraws : ∀ raw ∈ raws, raw = t.endPacket ∨ raw ∈ t.chunkPackets env.toLibs) :
    run env wk raws = wk := by
  induction raws with
  | nil => rfl
  | cons raw raws ih =>
      rw [run_cons, handlePacket_idle ht hidle (hraws raw List.mem_cons_self)]
      exact ih fun raw' hraw' => hraws raw' (List.mem_cons_of_mem _ hraw')

/-- END packets, and nothing but the first has an effect. -/
theorem run_ends (ht : t.contents.length < countBound) {n : ℕ}
    (hend : (handlePacket env wk t.endPacket).state = .new) :
    run env wk (List.replicate (n + 1) t.endPacket) = handlePacket env wk t.endPacket := by
  rw [List.replicate_succ, run_cons, run_idle ht (by rw [hend]; rfl)]
  exact fun raw hraw => Or.inl (List.eq_of_mem_replicate hraw)

/-- **A delivered file**: the worker is idle, and the file has arrived. -/
structure Delivered (env : Env) (t : Transfer) (before after : Worker) : Prop where
  idle : after.state = .new
  contents : after.world.fs.contents (env.locate (env.finalPath t.path)) = some t.contents
  noPartial : after.world.fs.node (env.locate (env.partialPath t.path)) = none
  noFailed : after.world.fs.node (env.locate (env.failedPath t.path)) = none
  filesTransferred : after.stats.filesTransferred = before.stats.filesTransferred + 1
  filesFailed : after.stats.filesFailed = before.stats.filesFailed

/-- The END packet counts a file of which the last batch collected is complete. -/
theorem Collecting.filesTransferred_ne (henv : env.NoFaults) (ht : t.Small) {old : List FsCall}
    {base : Tree} {b : ℕ} {got : List ChunkId} (h : Collecting env t old base b got wk)
    (henough : t.Enough b got) :
    (handlePacket env wk t.endPacket).stats.filesTransferred ≠ wk.stats.filesTransferred := by
  obtain ⟨-, hstats, -⟩ := h.handlePacket_end henv ht henough rfl
  rw [hstats]
  exact Nat.succ_ne_self _

/-- **Following chunks to the END**: a file is delivered if the progress covers all its
batches. -/
theorem Collecting.run_ok (henv : env.NoFaults) (ht : t.Small) {old : List FsCall} {base : Tree}
    {b₀ : ℕ} {got₀ : List ChunkId} (h : Collecting env t old base b₀ got₀ wk)
    {cs : List (Option ChunkId)} (hcs : ∀ c, some c ∈ cs → t.HasChunk c) {b : ℕ}
    {got : List ChunkId}
    (hs : cs.reduceOption.foldl t.progress (.collecting b₀ got₀) = .collecting b got)
    (henough : t.Enough b got) (hall : t.batchCount ≤ b + 1) (n : ℕ) :
    Delivered env t wk (run env wk (cs.map (t.bodyPacket env.toLibs) ++
      List.replicate (n + 1) t.endPacket)) := by
  obtain ⟨htracks, hsame⟩ := Tracks.run henv ht hcs
    (show Tracks env t old base (.collecting b₀ got₀) wk from h)
  rw [hs] at htracks
  obtain ⟨hstate, hstats, hcontents, hpart, hmarker, -⟩ :=
    Collecting.handlePacket_end henv ht htracks henough rfl
  rw [run_append, run_ends ht.length_lt hstate]
  refine ⟨hstate, ?_, hpart, hmarker, ?_, ?_⟩
  · rw [hcontents, t.filled_of_le (Transfer.chunkCount_le hall)]
  · rw [hstats]
    exact congrArg (· + 1) hsame.filesTransferred
  · rw [hstats]
    exact hsame.filesFailed

end Whole

/-! ### Tolerable losses -/

/-- Packets of a file, as the receiver may get them: a START first, then chunks of one batch
before those of the next, with the START repeated at will, then the END, at least once; and
enough of every batch. -/
structure Transfer.Tolerable (libs : Libs) (t : Transfer) (raws : List Bytes) : Prop where
  shape : ∃ body n, raws = t.startPacket libs :: body ++ List.replicate (n + 1) t.endPacket ∧
    ∀ raw ∈ body, raw = t.startPacket libs ∨ raw ∈ t.chunkPackets libs
  ordered : raws.Pairwise fun raw raw' => ∀ b < t.batchCount, ∀ b' < t.batchCount,
    raw ∈ t.batchPackets libs b → raw' ∈ t.batchPackets libs b' → b ≤ b'
  enough : ∀ b < t.batchCount, t.Restorable libs b raws

namespace Transfer.Tolerable

variable {libs : Libs} {t : Transfer} {raws : List Bytes}

/-- The chunks among the packets that arrive, by their names. -/
theorem chunkPacket_mem_iff (ht : t.Small) {cs : List (Option ChunkId)}
    (hcs : ∀ c, some c ∈ cs → t.HasChunk c) {n : ℕ} {c : ChunkId} (hc : t.HasChunk c) :
    t.chunkPacket libs c ∈ t.startPacket libs :: cs.map (t.bodyPacket libs) ++
        List.replicate (n + 1) t.endPacket ↔ c ∈ cs.reduceOption := by
  obtain ⟨hstart, hend⟩ := chunkPacket_ne libs hc ht.length_lt
  rw [List.reduceOption_mem_iff, List.cons_append, List.mem_cons, List.mem_append, List.mem_map]
  constructor
  · rintro (hmem | ⟨o, ho, heq⟩ | hmem)
    · exact absurd hmem hstart
    · cases o with
      | none => exact absurd heq.symm hstart
      | some c' => rwa [chunkPacket_injective libs hc (hcs c' ho) ht.length_lt heq.symm]
    · exact absurd (List.eq_of_mem_replicate hmem) hend
  · exact fun hmem => Or.inr (Or.inl ⟨some c, hmem, rfl⟩)

/-- Packets in the order of their batches have names in this order. -/
theorem inOrder_of_pairwise (ht : t.Small) {cs : List (Option ChunkId)}
    (hcs : ∀ c, some c ∈ cs → t.HasChunk c)
    (h : (cs.map (t.bodyPacket libs)).Pairwise fun raw raw' => ∀ b < t.batchCount,
      ∀ b' < t.batchCount, raw ∈ t.batchPackets libs b → raw' ∈ t.batchPackets libs b' →
        b ≤ b') : InOrder cs.reduceOption := by
  rw [List.pairwise_map] at h
  refine List.pairwise_filterMap.mpr (h.imp_of_mem ?_)
  intro o o' ho ho' hle c hc c' hc'
  obtain rfl : o = some c := hc
  obtain rfl : o' = some c' := hc'
  exact hle c.batch (hcs c ho).batch_lt c'.batch (hcs c' ho').batch_lt
    ((mem_batchPackets_iff libs (hcs c ho) ht (hcs c ho).batch_lt).mpr rfl)
    ((mem_batchPackets_iff libs (hcs c' ho') ht (hcs c' ho').batch_lt).mpr rfl)

/-- The chunks that arrive, by their names, lead to the last batch. -/
theorem exists_progress (ht : t.Small) (h : t.Tolerable libs raws) :
    ∃ (cs : List (Option ChunkId)) (n : ℕ), (∀ c, some c ∈ cs → t.HasChunk c) ∧
      raws = t.startPacket libs :: (cs.map (t.bodyPacket libs) ++
        List.replicate (n + 1) t.endPacket) ∧
      ∃ b got, cs.reduceOption.foldl t.progress (.collecting 0 []) = .collecting b got ∧
        t.Enough b got ∧ t.batchCount ≤ b + 1 := by
  obtain ⟨body, n, rfl, hbody⟩ := h.shape
  obtain ⟨cs, hcs, rfl⟩ := exists_body libs hbody
  have hids : ∀ c ∈ cs.reduceOption, t.HasChunk c := fun c hc =>
    hcs c (List.reduceOption_mem_iff.mp hc)
  have horder := inOrder_of_pairwise ht hcs (List.pairwise_append.mp h.ordered).1.tail
  have henough : ∀ b < t.batchCount, t.Enough b (ofBatch cs.reduceOption b) := fun b hb =>
    (restorable_iff libs ht hb hids fun c hc => chunkPacket_mem_iff ht hcs hc).mp (h.enough b hb)
  exact ⟨cs, n, hcs, rfl, exists_progress_of_enough hids horder henough⟩

end Transfer.Tolerable

/-- **Error correction end to end**: from the idle receiver with nothing in the way of the file,
every tolerable sequence of its packets delivers it. -/
theorem run_tolerable {env : Env} (henv : env.NoFaults) {t : Transfer} (ht : t.Small)
    {wk : Worker} (hidle : wk.state = .new) (hun : Unobstructed env wk.world.fs t.path)
    {raws : List Bytes} (h : t.Tolerable env.toLibs raws) :
    Delivered env t wk (run env wk raws) := by
  obtain ⟨cs, n, hcs, rfl, b, got, hs, henough, hall⟩ := h.exists_progress ht
  have hpreempt : preempt env wk = wk := by
    rw [preempt, hidle]
    rfl
  have hother : wk.state.filePath ≠ some t.path := by
    rw [hidle]
    exact (Option.some_ne_none _).symm
  obtain ⟨hstats, base, hcollecting⟩ := Collecting.start henv ht (by rw [hpreempt, hidle]) hother
    (by rw [hpreempt]; exact hun)
  rw [hpreempt] at hstats
  rw [run_cons]
  have hdelivered := hcollecting.run_ok henv ht hcs hs henough hall n
  exact { hdelivered with
    filesTransferred := by rw [hdelivered.filesTransferred, hstats]
    filesFailed := by rw [hdelivered.filesFailed, hstats] }

/-! ### A run -/

/-- Nothing is in the way of any file below an empty output directory. -/
theorem referenceTree_unobstructed {p : Str} (hp : Accepted p)
    (hfile : UnixPath.demandsDir p = false) : Unobstructed referenceEnv referenceTree p := by
  have hout : referenceEnv.locate referenceEnv.outputDir = [['o', 'u', 't']] := by decide
  have hnone : ∀ {ns : List UnixPath.Name}, ns ≠ [] →
      referenceTree.node (referenceEnv.locate referenceEnv.outputDir ++ ns) ≠ some .dir := by
    intro ns hns
    rw [hout, List.singleton_append]
    refine ne_of_eq_of_ne (if_neg ?_) (Option.some_ne_none _).symm
    rintro (h | h)
    · exact List.cons_ne_nil _ _ h
    · exact hns (List.cons.inj h).2
  refine ⟨hfile, ?_, ?_, ?_, fun l _ => ?_⟩
  · rw [hp.locate_finalPath]
    exact hnone hp.plain.names_ne_nil
  · rw [hp.locate_partialPath]
    exact hnone (by simp [partialNames])
  · rw [hp.locate_failedPath]
    exact hnone (by simp [failedNames])
  · by_cases h : l = [] ∨ l = [['o', 'u', 't']]
    · exact Or.inr (if_pos h)
    · exact Or.inl (if_neg h)

/-- A file of one byte. -/
def oneByte : Transfer := ⟨['a'], [42]⟩

/-- The path of one letter is accepted. -/
theorem accepted_a : Accepted ['a'] := ⟨by decide, by decide⟩

/-- The file of one byte can be sent. -/
theorem oneByte_small : oneByte.Small := ⟨accepted_a, by decide⟩

/-- A single parity packet stands in for the only chunk. -/
theorem oneByte_tolerable : oneByte.Tolerable referenceLibs [oneByte.startPacket referenceLibs,
    oneByte.chunkPacket referenceLibs (.parity 0 0), oneByte.endPacket] := by
  have hcount : oneByte.batchCount = 1 := by decide
  have hchunk : oneByte.HasChunk (.parity 0 0) := ⟨by decide, by decide⟩
  refine ⟨⟨[oneByte.chunkPacket referenceLibs (.parity 0 0)], 0, rfl, fun raw hraw => ?_⟩,
    List.pairwise_of_forall fun raw raw' b hb b' hb' _ _ => by omega, fun b hb => ?_⟩
  · rw [List.mem_singleton.mp hraw]
    exact Or.inr ((Transfer.mem_chunkPackets_iff referenceLibs).mpr ⟨_, hchunk, rfl⟩)
  · obtain rfl : b = 0 := by omega
    have hmem := (Transfer.mem_batchPackets_iff referenceLibs hchunk oneByte_small hb).mpr rfl
    have hsize : oneByte.batchSize 0 = 1 := by decide
    rw [Transfer.Restorable, hsize, Transfer.arrivedCount]
    exact List.length_pos_of_mem (List.mem_filter.mpr ⟨hmem, decide_eq_true
      (List.mem_cons_of_mem _ List.mem_cons_self)⟩)

/-- The only DATA packet of a file of one byte is lost, and a parity packet restores it. -/
theorem run_tolerable_oneByte : Delivered referenceEnv oneByte (.new referenceTree)
    (run referenceEnv (.new referenceTree) [oneByte.startPacket referenceLibs,
      oneByte.chunkPacket referenceLibs (.parity 0 0), oneByte.endPacket]) :=
  run_tolerable referenceEnv_noFaults oneByte_small rfl
    (referenceTree_unobstructed accepted_a (by decide)) oneByte_tolerable

/-- A file of two chunks, of which the second is one byte. -/
def twoChunks : Transfer := ⟨['a'], List.replicate (chunkSize + 1) 7⟩

/-- The file of two chunks has 941 bytes. -/
theorem length_twoChunks : twoChunks.contents.length = 941 := List.length_replicate

/-- The file of two chunks can be sent. -/
theorem twoChunks_small : twoChunks.Small := ⟨accepted_a, by rw [length_twoChunks]; decide⟩

/-- What arrives of it: the first chunk, and a parity packet in place of the second. -/
def restoringIds : List ChunkId := [.data 0, .parity 0 0]

/-- These are chunks of its one batch. -/
theorem hasChunk_restoringIds : ∀ c ∈ restoringIds, twoChunks.HasChunk c ∧ c.batch = 0 := by
  have hcount : twoChunks.chunkCount = 2 := by
    rw [Transfer.chunkCount, length_twoChunks]
    rfl
  have hbatches : twoChunks.batchCount = 1 := by
    rw [Transfer.batchCount, hcount]
    rfl
  refine List.forall_mem_cons.mpr
    ⟨⟨?_, rfl⟩, List.forall_mem_singleton.mpr ⟨⟨?_, by decide⟩, rfl⟩⟩
  · rw [Transfer.HasChunk, hcount]
    decide
  · rw [hbatches]
    decide

/-- A chunk and a parity packet are enough for a batch of two chunks. -/
theorem enough_restoringIds : twoChunks.Enough 0 restoringIds.reverse := by
  rw [Transfer.Enough, Transfer.batchSize, length_twoChunks]
  decide

/-- The announcement and what arrives of the chunks. -/
noncomputable def restoredChunk : List Bytes :=
  twoChunks.startPacket referenceLibs :: restoringIds.map (twoChunks.chunkPacket referenceLibs)

/-- Before the END packet, the receiver has collected enough. -/
theorem collecting_restoredChunk : ∃ old base,
    Collecting referenceEnv twoChunks old base 0 restoringIds.reverse
      (run referenceEnv (.new referenceTree) restoredChunk) := by
  have hids : ∀ c ∈ restoringIds, twoChunks.HasChunk c := fun c hc =>
    (hasChunk_restoringIds c hc).1
  have hun : Unobstructed referenceEnv (preempt referenceEnv (.new referenceTree)).world.fs
      twoChunks.path := referenceTree_unobstructed accepted_a (by decide)
  obtain ⟨-, base, h⟩ := Collecting.start referenceEnv_noFaults twoChunks_small rfl (by decide) hun
  have htracks : Tracks referenceEnv twoChunks _ base (.collecting 0 []) _ := h
  have hrun := (Tracks.run referenceEnv_noFaults twoChunks_small
    (fun c hc => Transfer.hasChunk_of_mem_body twoChunks 0 hids hc) htracks).1
  rw [Transfer.reduceOption_body, Transfer.map_bodyPacket,
    Transfer.foldl_progress_of_eq fun c hc => (hasChunk_restoringIds c hc).2, List.append_nil,
    List.replicate_zero, List.nil_append] at hrun
  rw [restoredChunk, run_cons]
  exact ⟨_, base, hrun⟩

/-- With the END packet, enough of the file arrives. -/
theorem twoChunks_tolerable :
    twoChunks.Tolerable referenceLibs (restoredChunk ++ [twoChunks.endPacket]) := by
  have hone : twoChunks.batchCount = 1 := by
    rw [Transfer.batchCount, Transfer.chunkCount, length_twoChunks]
    rfl
  have hids : ∀ c ∈ restoringIds, twoChunks.HasChunk c := fun c hc =>
    (hasChunk_restoringIds c hc).1
  have hnames : ∀ c, some c ∈ restoringIds.map some → twoChunks.HasChunk c :=
    fun c hc => hids c (by simpa using hc)
  refine ⟨⟨restoringIds.map (twoChunks.chunkPacket referenceLibs), 0, rfl, fun raw hraw => ?_⟩,
    List.pairwise_of_forall fun raw raw' b hb b' hb' _ _ => by omega, fun b hb => ?_⟩
  · obtain ⟨c, hc, rfl⟩ := List.mem_map.mp hraw
    exact Or.inr ((Transfer.mem_chunkPackets_iff referenceLibs).mpr ⟨c, hids c hc, rfl⟩)
  · obtain rfl : b = 0 := by omega
    refine (Transfer.restorable_iff referenceLibs twoChunks_small hb hids fun c hc => ?_).mpr ?_
    · exact Transfer.Tolerable.chunkPacket_mem_iff (n := 0) twoChunks_small hnames hc
    · rw [Transfer.Enough, Transfer.batchSize, length_twoChunks]
      decide

end DataDiode
