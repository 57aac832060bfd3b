import DataDiode.Reachable

/-!
# Losses Without Reordering

Any packets of a file may be lost; the rest arrives in order, at the idle receiver. A transfer
that is counted has the right contents, with one exception: if nothing of the file arrives
after a batch that can be restored, the receiver takes this batch for the last one, and
publishes the file with zeros in place of the rest (`Transfer.Truncated`).

## Main results

* `run_losses`: when a transfer is counted, and what it has delivered then.
* `soundlyCounted_iff`: a transfer is counted wrongly exactly if it is truncated.
* `soundlyCounted_truncatedFile`: a truncated file that is counted as delivered.
-/

namespace DataDiode

/-! ### What is left of a file -/

namespace Transfer

variable (libs : Libs) {t : Transfer}

/-- Some of the packets of a file, in their order. -/
def left (t : Transfer) (k : ℕ) (ids : List ChunkId) (m : ℕ) : List Bytes :=
  List.replicate k (t.startPacket libs) ++
    (ids.map (t.chunkPacket libs) ++ List.replicate m t.endPacket)

/-- What is left of the packets of a file after losses. -/
theorem exists_of_sublist {raws : List Bytes} (h : raws.Sublist (t.emitted libs)) :
    ∃ (k : ℕ) (ids : List ChunkId) (m : ℕ), raws = t.left libs k ids m ∧
      ids.Sublist t.allIds := by
  rw [t.emitted_eq, chunkPackets_eq_map, List.append_assoc] at h
  obtain ⟨starts, rest, rfl, hstarts, hrest⟩ := List.sublist_append_iff.mp h
  obtain ⟨chunks, ends, rfl, hchunks, hends⟩ := List.sublist_append_iff.mp hrest
  obtain ⟨k, -, rfl⟩ := List.sublist_replicate_iff.mp hstarts
  obtain ⟨ids, hids, rfl⟩ := List.sublist_map_iff.mp hchunks
  obtain ⟨m, -, rfl⟩ := List.sublist_replicate_iff.mp hends
  exact ⟨k, ids, m, rfl, hids⟩

/-- Some of its packets, in their order. -/
theorem left_sublist_emitted {k m : ℕ} {ids : List ChunkId} (hk : k ≤ controlResend)
    (hids : ids.Sublist t.allIds) (hm : m ≤ controlResend) :
    (t.left libs k ids m).Sublist (t.emitted libs) := by
  rw [t.emitted_eq, chunkPackets_eq_map, List.append_assoc, left]
  exact ((List.replicate_sublist_replicate _).mpr hk).append
    ((hids.map _).append ((List.replicate_sublist_replicate _).mpr hm))

/-- An announcement is no END. -/
theorem startPacket_ne_endPacket (ht : t.contents.length < countBound) :
    t.startPacket libs ≠ t.endPacket := by
  intro heq
  have hdecode := decodePacket_startPacket libs ht
  rw [heq, decodePacket_endPacket ht, Option.some.injEq] at hdecode
  exact absurd (congrArg Packet.pkgType hdecode) (by decide : ¬pkgTypeEnd = pkgTypeStart)

/-- What is left. -/
theorem mem_left {k : ℕ} {ids : List ChunkId} {m : ℕ} {raw : Bytes} :
    raw ∈ t.left libs k ids m ↔ (k ≠ 0 ∧ raw = t.startPacket libs) ∨
      (∃ c ∈ ids, t.chunkPacket libs c = raw) ∨ (m ≠ 0 ∧ raw = t.endPacket) := by
  rw [left, List.mem_append, List.mem_append, List.mem_map, List.mem_replicate,
    List.mem_replicate]

section Membership

variable (ht : t.contents.length < countBound) {k : ℕ} {ids : List ChunkId}
  (hids : ∀ c ∈ ids, t.HasChunk c) {m : ℕ}

include ht hids

/-- An announcement is left if one is. -/
theorem startPacket_mem_left_iff : t.startPacket libs ∈ t.left libs k ids m ↔ k ≠ 0 := by
  rw [mem_left]
  refine ⟨?_, fun h => Or.inl ⟨h, rfl⟩⟩
  rintro (⟨hk, -⟩ | ⟨c, hc, heq⟩ | ⟨-, heq⟩)
  · exact hk
  · exact absurd heq (chunkPacket_ne libs (hids c hc) ht).1
  · exact absurd heq (startPacket_ne_endPacket libs ht)

/-- An END is left if one is. -/
theorem endPacket_mem_left_iff : t.endPacket ∈ t.left libs k ids m ↔ m ≠ 0 := by
  rw [mem_left]
  refine ⟨?_, fun h => Or.inr (Or.inr ⟨h, rfl⟩)⟩
  rintro (⟨-, heq⟩ | ⟨c, hc, heq⟩ | ⟨hm, -⟩)
  · exact absurd heq.symm (startPacket_ne_endPacket libs ht)
  · exact absurd heq (chunkPacket_ne libs (hids c hc) ht).2
  · exact hm

/-- A chunk is left if its packet is. -/
theorem chunkPacket_mem_left_iff {c : ChunkId} (hc : t.HasChunk c) :
    t.chunkPacket libs c ∈ t.left libs k ids m ↔ c ∈ ids := by
  obtain ⟨hstart, hend⟩ := chunkPacket_ne libs hc ht
  rw [mem_left]
  constructor
  · rintro (⟨-, heq⟩ | ⟨c', hc', heq⟩ | ⟨-, heq⟩)
    · exact absurd heq hstart
    · rwa [← chunkPacket_injective libs (hids c' hc') hc ht heq]
    · exact absurd heq hend
  · exact fun h => Or.inr (Or.inl ⟨c, h, rfl⟩)

end Membership

/-- The chunks of a file are sent in the order of their batches. -/
theorem inOrder_allIds : InOrder t.allIds := by
  rw [InOrder, allIds, List.pairwise_flatMap]
  have hbatch : ∀ b ∈ List.range t.batchCount, ∀ c ∈ t.batchIds b, c.batch = b := fun b hb c hc =>
    ((t.mem_batchIds (List.mem_range.mp hb)).mp hc).2
  constructor
  · intro b hb
    refine List.Pairwise.imp_of_mem (fun hc hc' _ => ?_)
      (List.pairwise_of_forall fun _ _ => trivial)
    rw [hbatch b hb _ hc, hbatch b hb _ hc']
  · refine List.Pairwise.imp_of_mem (fun hb hb' hlt c hc c' hc' => ?_)
      (List.pairwise_lt_range (n := t.batchCount))
    rw [hbatch _ hb c hc, hbatch _ hb' c' hc']
    exact hlt.le

/-- **A truncated delivery**: the announcement and the END of the file, enough packets of its
batches up to some batch, and none of the batches after it. -/
def Truncated (t : Transfer) (raws : List Bytes) : Prop :=
  t.startPacket libs ∈ raws ∧ t.endPacket ∈ raws ∧ ∃ b, b + 1 < t.batchCount ∧
    (∀ b' ≤ b, t.Restorable libs b' raws) ∧
    ∀ b', b < b' → b' < t.batchCount → t.arrivedCount libs b' raws = 0

/-- Truncation, in terms of the progress of the transfer. -/
theorem exists_truncated_iff (ht : t.Small) {ids : List ChunkId}
    (hids : ∀ c ∈ ids, t.HasChunk c) (horder : InOrder ids) {raws : List Bytes}
    (hraws : ∀ c, t.HasChunk c → (t.chunkPacket libs c ∈ raws ↔ c ∈ ids)) :
    (∃ b, b + 1 < t.batchCount ∧ (∀ b' ≤ b, t.Restorable libs b' raws) ∧
        ∀ b', b < b' → b' < t.batchCount → t.arrivedCount libs b' raws = 0) ↔
      ∃ b got, ids.foldl t.progress (.collecting 0 []) = .collecting b got ∧ t.Enough b got ∧
        b + 1 < t.batchCount := by
  have hcount : ∀ b < t.batchCount, t.arrivedCount libs b raws = (ofBatch ids b).toFinset.card :=
    fun b hb => arrivedCount_eq libs ht hb hids hraws
  constructor
  · rintro ⟨b, hb, hrestorable, hnone⟩
    have henough : ∀ b' ≤ b, t.Enough b' (ofBatch ids b') := fun b' hb' =>
      (restorable_iff libs ht (by omega) hids hraws).mp (hrestorable b' hb')
    have hlast : ∀ c ∈ ids, c.batch ≤ b := by
      intro c hc
      by_contra hgt
      have hzero := hnone c.batch (not_le.mp hgt) (hids c hc).batch_lt
      rw [hcount _ (hids c hc).batch_lt, Finset.card_eq_zero] at hzero
      exact Finset.notMem_empty c (hzero ▸ List.mem_toFinset.mpr (mem_ofBatch.mpr ⟨hc, rfl⟩))
    have hne : ofBatch ids b ≠ [] := fun hnil =>
      not_enough_nil (t := t) (b := b) (by omega) (hnil ▸ henough b le_rfl)
    obtain ⟨c, hc⟩ := List.exists_mem_of_ne_nil _ hne
    obtain ⟨got, hs, hgot⟩ := (enough_progress_iff hids horder).mpr
      ⟨henough, hlast, Or.inr ⟨c, mem_ofBatch.mp hc⟩⟩
    exact ⟨b, got, hs, hgot, hb⟩
  · rintro ⟨b, got, hs, hgot, hb⟩
    obtain ⟨henough, hlast, -⟩ := (enough_progress_iff hids horder).mp ⟨got, hs, hgot⟩
    refine ⟨b, hb, fun b' hb' => ?_, fun b' hlt hb' => ?_⟩
    · exact (restorable_iff libs ht (by omega) hids hraws).mpr (henough b' hb')
    · rw [hcount b' hb', ofBatch_eq_nil fun c hc => by have := hlast c hc; omega]
      rfl

end Transfer

/-! ### What the receiver makes of it -/

variable {env : Env} {t : Transfer} {wk : Worker}

/-- **Announcements, chunks and ENDs**: the transfer is counted exactly if the progress ends
with enough packets of a batch, and then it has delivered the batches up to this one. -/
theorem run_losses (henv : env.NoFaults) (ht : t.Small) (hidle : wk.state = .new)
    (hun : Unobstructed env wk.world.fs t.path) {ids : List ChunkId}
    (hids : ∀ c ∈ ids, t.HasChunk c) (k m : ℕ) {wk' : Worker}
    (hwk' : wk' = run env wk (t.left env.toLibs (k + 1) ids m)) :
    (wk'.stats.filesTransferred = wk.stats.filesTransferred ∧ ∀ b got,
        ids.foldl t.progress (.collecting 0 []) = .collecting b got → t.Enough b got → m = 0) ∨
      ∃ b got, ids.foldl t.progress (.collecting 0 []) = .collecting b got ∧ t.Enough b got ∧
        0 < m ∧ wk'.stats.filesTransferred = wk.stats.filesTransferred + 1 ∧
        wk'.world.fs.contents (env.locate (env.finalPath t.path)) =
          some (t.filled ((b + 1) * batchDataChunks)) ∧
        Wrote env t wk.world.calls ((b + 1) * batchDataChunks) wk'.world := by
  have hpreempt : preempt env wk = wk := by
    rw [preempt, hidle]
    rfl
  have hother : wk.state.filePath ≠ some t.path := by
    rw [hidle]
    exact (Option.some_ne_none _).symm
  obtain ⟨hstats, base, hcollecting⟩ := Collecting.start henv ht (by rw [hpreempt, hidle]) hother
    (by rw [hpreempt]; exact hun)
  rw [hpreempt] at hstats hcollecting
  obtain ⟨htracks, hsame⟩ := Tracks.run henv ht (fun c => t.hasChunk_of_mem_body k hids)
    (show Tracks env t wk.world.calls base (.collecting 0 []) _ from hcollecting)
  rw [Transfer.reduceOption_body, Transfer.map_bodyPacket] at htracks
  rw [Transfer.map_bodyPacket] at hsame
  rw [Transfer.left, List.replicate_succ, List.cons_append, run_cons, ← List.append_assoc,
    run_append] at hwk'
  set wk₁ := handlePacket env wk (t.startPacket env.toLibs)
  set wk₂ := run env wk₁ (List.replicate k (t.startPacket env.toLibs) ++
    ids.map (t.chunkPacket env.toLibs))
  have htransferred : wk₂.stats.filesTransferred = wk.stats.filesTransferred := by
    rw [hsame.filesTransferred, hstats]
  cases m with
  | zero => exact Or.inl ⟨by rw [hwk']; exact htransferred, fun _ _ _ _ => rfl⟩
  | succ m =>
      by_cases hdone : ∃ b got, ids.foldl t.progress (.collecting 0 []) = .collecting b got ∧
          t.Enough b got
      · obtain ⟨b, got, hs, henough⟩ := hdone
        rw [hs] at htracks
        obtain ⟨hstate, hcounted, hcontents, -, -, hwrote⟩ :=
          Collecting.handlePacket_end henv ht htracks henough rfl
        rw [run_ends ht.length_lt hstate] at hwk'
        right
        rw [hwk']
        refine ⟨b, got, hs, henough, Nat.succ_pos m, ?_, hcontents, hwrote⟩
        rw [hcounted]
        exact congrArg (· + 1) htransferred
      · have hmissing : ∀ b got, ids.foldl t.progress (.collecting 0 []) = .collecting b got →
            ¬t.Enough b got := fun b got hs henough => hdone ⟨b, got, hs, henough⟩
        obtain ⟨hstate, hfailed⟩ := htracks.handlePacket_end ht hmissing rfl
        rw [run_ends ht.length_lt hstate] at hwk'
        left
        rw [hwk', hfailed]
        exact ⟨htransferred, fun b got hs henough => absurd henough (hmissing b got hs)⟩

/-- The calls of a finalized batch: each of its chunks is written at its place. -/
def Transfer.BatchWritten (env : Env) (t : Transfer) (new : List FsCall) (b : ℕ) : Prop :=
  ∀ i < t.batchSize b, t.writeCall env (b * batchDataChunks + i) ∈ new

/-- **No silent corruption**: if a transfer of the file has been counted, the file is there
with its contents, and all its batches have been finalized. -/
def SoundlyCounted (env : Env) (t : Transfer) (before after : Worker) : Prop :=
  before.stats.filesTransferred < after.stats.filesTransferred →
    after.world.fs.contents (env.locate (env.finalPath t.path)) = some t.contents ∧
      ∃ new, after.world.calls = before.world.calls ++ new ∧
        ∀ b < t.batchCount, t.BatchWritten env new b

/-- What a transfer that wrote `n` batches has to do with the batches of the file. -/
theorem Wrote.batchWritten_iff {old : List FsCall} {n : ℕ} {w : World}
    (h : Wrote env t old (n * batchDataChunks) w) :
    (∃ new, w.calls = old ++ new ∧ ∀ b < t.batchCount, t.BatchWritten env new b) ↔
      t.batchCount ≤ n := by
  obtain ⟨new, hnew, hwrites⟩ := h
  have hchunk : ∀ {b i}, i < t.batchSize b → b * batchDataChunks + i < t.chunkCount := by
    intro b i hi
    rw [t.batchSize_eq] at hi
    omega
  constructor
  · rintro ⟨new', hnew', hall⟩
    obtain rfl : new = new' := List.append_cancel_left (hnew.symm.trans hnew')
    by_contra hlt
    have hpos : 0 < t.batchSize n := t.batchSize_pos_iff.mpr (not_le.mp hlt)
    have hmem := (hwrites _ (hchunk hpos)).mp (hall n (not_le.mp hlt) 0 hpos)
    rw [Nat.add_zero] at hmem
    exact lt_irrefl _ hmem
  · intro hle
    refine ⟨new, hnew, fun b hb i hi => (hwrites _ (hchunk hi)).mpr ?_⟩
    exact (hchunk hi).trans_le (Transfer.chunkCount_le hle)

/-- **Only truncated files are counted wrongly.** -/
theorem soundlyCounted_iff (henv : env.NoFaults) (ht : t.Small) (hidle : wk.state = .new)
    (hun : Unobstructed env wk.world.fs t.path) {raws : List Bytes}
    (hraws : raws.Sublist (t.emitted env.toLibs)) :
    SoundlyCounted env t wk (run env wk raws) ↔ ¬t.Truncated env.toLibs raws := by
  obtain ⟨k, ids, m, rfl, hsub⟩ := Transfer.exists_of_sublist env.toLibs hraws
  have hids : ∀ c ∈ ids, t.HasChunk c := fun c hc => Transfer.mem_allIds.mp (hsub.subset hc)
  have horder : Transfer.InOrder ids := Transfer.inOrder_allIds.sublist hsub
  rw [Transfer.Truncated, Transfer.startPacket_mem_left_iff env.toLibs ht.length_lt hids,
    Transfer.endPacket_mem_left_iff env.toLibs ht.length_lt hids,
    Transfer.exists_truncated_iff env.toLibs ht hids horder fun c hc =>
      Transfer.chunkPacket_mem_left_iff env.toLibs ht.length_lt hids hc]
  cases k with
  | zero =>
      -- without an announcement nothing happens
      have hignored : run env wk (t.left env.toLibs 0 ids m) = wk := by
        refine run_idle ht.length_lt (by rw [hidle]; rfl) fun raw hraw => ?_
        rcases (Transfer.mem_left env.toLibs).mp hraw with ⟨hk, -⟩ | ⟨c, hc, rfl⟩ | ⟨-, rfl⟩
        · exact absurd rfl hk
        · exact Or.inr ((Transfer.mem_chunkPackets_iff env.toLibs).mpr ⟨c, hids c hc, rfl⟩)
        · exact Or.inl rfl
      rw [hignored]
      exact iff_of_true (fun h => absurd h (lt_irrefl _)) fun h => h.1 rfl
  | succ k =>
      rcases run_losses henv ht hidle hun hids k m rfl with
        ⟨hsame, hmissing⟩ | ⟨b, got, hs, henough, hm, hcounted, hcontents, hwrote⟩
      · refine iff_of_true (fun h => absurd h (by rw [hsame]; exact lt_irrefl _)) ?_
        rintro ⟨-, hm, b, got, hs, henough, -⟩
        exact hm (hmissing b got hs henough)
      · rw [SoundlyCounted, hcounted, hcontents, hwrote.batchWritten_iff]
        constructor
        · rintro h ⟨-, -, b', got', hs', -, hlt⟩
          rw [hs, Progress.collecting.injEq] at hs'
          have := (h (Nat.lt_succ_self _)).2
          omega
        · intro h _
          have hall : t.batchCount ≤ b + 1 := by
            by_contra hlt
            exact h ⟨Nat.succ_ne_zero k, Nat.pos_iff_ne_zero.mp hm, b, got, hs, henough,
              not_le.mp hlt⟩
          exact ⟨by rw [t.filled_of_le (Transfer.chunkCount_le hall)], hall⟩

/-! ### Runs -/

/-- A file of two batches, of which the second is one byte. -/
def truncatedFile : Transfer := ⟨['a'], List.replicate (chunkSize * batchDataChunks) 0 ++ [1]⟩

/-- The file of two batches has 940001 bytes. -/
theorem length_truncatedFile : truncatedFile.contents.length = 940001 := by
  rw [truncatedFile, List.length_append, List.length_replicate]
  rfl

/-- The file has two batches. -/
theorem batchCount_truncatedFile : truncatedFile.batchCount = 2 := by
  rw [Transfer.batchCount, Transfer.chunkCount, length_truncatedFile]
  rfl

/-- The file of two batches can be sent. -/
theorem truncatedFile_small : truncatedFile.Small :=
  ⟨accepted_a, by rw [length_truncatedFile]; decide⟩

/-- The first batch is not the whole file. -/
theorem filled_truncatedFile :
    truncatedFile.filled ((0 + 1) * batchDataChunks) ≠ truncatedFile.contents := by
  have hsize : chunkSize * ((0 + 1) * batchDataChunks) = chunkSize * batchDataChunks := rfl
  have htake : truncatedFile.contents.take (chunkSize * batchDataChunks) =
      List.replicate (chunkSize * batchDataChunks) 0 :=
    List.take_left' List.length_replicate
  have hrest : truncatedFile.contents.length - chunkSize * batchDataChunks = 1 := by
    rw [length_truncatedFile]
    rfl
  rw [Transfer.filled, hsize, htake, hrest, truncatedFile]
  intro heq
  exact absurd (List.append_cancel_left heq) (by decide)

/-- **A truncated file counted as delivered.** The second batch is lost altogether: the file is
counted, with a zero in place of its last byte. -/
theorem soundlyCounted_truncatedFile :
    (truncatedFile.left referenceEnv.toLibs controlResend (truncatedFile.batchIds 0)
        controlResend).Sublist (truncatedFile.emitted referenceEnv.toLibs) ∧
      ¬SoundlyCounted referenceEnv truncatedFile (.new referenceTree)
        (run referenceEnv (.new referenceTree) (truncatedFile.left referenceEnv.toLibs
          controlResend (truncatedFile.batchIds 0) controlResend)) := by
  have hcount := batchCount_truncatedFile
  have hchunks : truncatedFile.chunkPackets referenceEnv.toLibs =
      truncatedFile.batchPackets referenceEnv.toLibs 0 ++
        truncatedFile.batchPackets referenceEnv.toLibs 1 := by
    have hrange : List.range 2 = [0, 1] := rfl
    rw [Transfer.chunkPackets, hcount, hrange, List.flatMap_cons, List.flatMap_singleton]
  have hbatch := truncatedFile.batchPackets_eq_map referenceEnv.toLibs (b := 0)
    (by rw [hcount]; decide)
  constructor
  · rw [truncatedFile.emitted_eq, hchunks, hbatch, List.append_assoc, List.append_assoc,
      Transfer.left]
    exact (List.Sublist.refl _).append
      ((List.Sublist.refl _).append (List.sublist_append_right _ _))
  · have hids : ∀ c ∈ truncatedFile.batchIds 0, truncatedFile.HasChunk c ∧ c.batch = 0 :=
      fun c hc => (truncatedFile.mem_batchIds (by rw [hcount]; decide)).mp hc
    have hs := Transfer.foldl_progress_of_eq (t := truncatedFile) (fun c hc => (hids c hc).2) []
    have henough : truncatedFile.Enough 0 ((truncatedFile.batchIds 0).reverse ++ []) :=
      Transfer.enough_batchIds fun c hc => List.mem_append_left _ (List.mem_reverse.mpr hc)
    have hun : Unobstructed referenceEnv (Worker.new referenceTree).world.fs truncatedFile.path :=
      referenceTree_unobstructed accepted_a (by decide)
    have hrun := run_losses referenceEnv_noFaults truncatedFile_small rfl hun
      (fun c hc => (hids c hc).1) 2 controlResend rfl
    have hresend : 2 + 1 = controlResend := rfl
    rw [hresend] at hrun
    intro hsound
    rcases hrun with ⟨-, hmissing⟩ | ⟨b, got, hs', -, -, hcounted, hcontents, -⟩
    · exact absurd (hmissing _ _ hs henough) (by decide)
    · obtain ⟨rfl, -⟩ := Progress.collecting.inj (hs.symm.trans hs')
      have hgrown := (hsound (lt_of_lt_of_eq (Nat.lt_succ_self _) hcounted.symm)).1
      exact filled_truncatedFile (Option.some.inj (hcontents.symm.trans hgrown))

/-- Of the first batch one chunk is lost, and of the second all but a parity packet. -/
def lossyIds : List ChunkId := (truncatedFile.batchIds 0).tail ++ [.parity 1 0]

/-- A file of two batches with losses that its parity makes up for is not truncated. -/
theorem soundlyCounted_lossy : SoundlyCounted referenceEnv truncatedFile (.new referenceTree)
    (run referenceEnv (.new referenceTree)
      (truncatedFile.left referenceEnv.toLibs 1 lossyIds 1)) := by
  have hcount := batchCount_truncatedFile
  have hparity : truncatedFile.HasChunk (.parity 1 0) :=
    ⟨by rw [hcount]; decide, by decide⟩
  have hall : truncatedFile.allIds = truncatedFile.batchIds 0 ++ truncatedFile.batchIds 1 := by
    have hrange : List.range 2 = [0, 1] := rfl
    rw [Transfer.allIds, hcount, hrange, List.flatMap_cons, List.flatMap_singleton]
  have hsecond : ChunkId.parity 1 0 ∈ truncatedFile.batchIds 1 :=
    (truncatedFile.mem_batchIds (by rw [hcount]; decide)).mpr ⟨hparity, rfl⟩
  have hids : lossyIds.Sublist truncatedFile.allIds := by
    rw [hall]
    exact (List.tail_sublist _).append (List.singleton_sublist.mpr hsecond)
  have hraws : (truncatedFile.left referenceEnv.toLibs 1 lossyIds 1).Sublist
      (truncatedFile.emitted referenceEnv.toLibs) :=
    Transfer.left_sublist_emitted referenceEnv.toLibs (by decide) hids (by decide)
  refine (soundlyCounted_iff referenceEnv_noFaults truncatedFile_small rfl
    (referenceTree_unobstructed accepted_a (by decide)) hraws).mpr ?_
  rintro ⟨-, -, b, hb, -, hnone⟩
  -- something of the second batch has arrived
  rw [hcount] at hb hnone
  have hzero := hnone 1 (by omega) (by omega)
  rw [Transfer.arrivedCount, Transfer.batchPackets_eq_map _ _ (by rw [hcount]; decide),
    List.length_eq_zero_iff, List.filter_eq_nil_iff] at hzero
  refine hzero _ (List.mem_map_of_mem hsecond) (decide_eq_true ?_)
  exact (Transfer.mem_left _).mpr
    (Or.inr (Or.inl ⟨_, List.mem_append_right _ List.mem_cons_self, rfl⟩))

end DataDiode
