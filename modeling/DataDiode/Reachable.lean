import DataDiode.Delivery

/-!
# Complete Transfers in Any Reachable State

All packets of a file, delivered in order, to a receiver that has received anything before.
A START packet is taken for a repetition if a transfer of the same path is in progress,
whatever it announced; in every other state the file arrives.

## Main results

* `run_emitted`: all packets of a file, at any point of a transfer of the same file.
* `run_emitted_of_reachable`: all packets of a file, in any reachable state that has no
  transfer of another version of the file in progress.
* `run_emitted_stale`: an unfinished transfer of another version makes the file fail.
-/

namespace DataDiode

namespace Transfer

variable (libs : Libs) (t : Transfer)

/-- The chunks of a file, packet by packet. -/
theorem chunkPackets_eq_map : t.chunkPackets libs = t.allIds.map (t.chunkPacket libs) := by
  rw [chunkPackets, allIds, List.map_flatMap]
  exact List.flatMap_congr fun b hb => t.batchPackets_eq_map libs (List.mem_range.mp hb)

/-- The packets of a file: repeated announcements, all chunks, and its END. -/
theorem emitted_eq_body (t : Transfer) : t.emitted libs =
    ((List.replicate controlResend none ++ t.allIds.map some).map (t.bodyPacket libs)) ++
      List.replicate controlResend t.endPacket := by
  rw [t.emitted_eq, chunkPackets_eq_map, map_bodyPacket]

/-- The same, the first announcement apart. -/
theorem emitted_eq_cons (t : Transfer) : t.emitted libs = t.startPacket libs ::
    (((List.replicate 2 none ++ t.allIds.map some).map (t.bodyPacket libs)) ++
      List.replicate controlResend t.endPacket) := by
  rw [t.emitted_eq, chunkPackets_eq_map, map_bodyPacket]
  rfl

end Transfer

variable {env : Env} {t : Transfer} {wk : Worker}

/-- **At any point of a transfer of the file**, all its packets deliver it. -/
theorem Collecting.run_emitted (henv : env.NoFaults) (ht : t.Small) {old : List FsCall}
    {base : Tree} {b : ℕ} {got : List ChunkId} (h : Collecting env t old base b got wk) (n : ℕ) :
    Delivered env t wk (run env wk
      (((List.replicate n none ++ t.allIds.map some).map (t.bodyPacket env.toLibs)) ++
        List.replicate controlResend t.endPacket)) := by
  obtain ⟨b', got', hs, henough, hall⟩ := Transfer.exists_progress_allIds (t := t) b got
  refine h.run_ok henv ht
    (fun c hc => t.hasChunk_of_mem_body n (fun c => Transfer.mem_allIds.mp) hc) ?_ henough hall 2
  rw [Transfer.reduceOption_body]
  exact hs

/-- **A complete transfer arrives in any reachable state** that has no transfer of the path in
progress, or one that has collected nothing but chunks of the same file. -/
theorem run_emitted_of_reachable (henv : env.NoFaults) (ht : t.Small) {fs : Tree}
    {raws : List Bytes} (hwk : wk = run env (.new fs) raws)
    (h : wk.state.filePath ≠ some t.path ∧
        Unobstructed env (preempt env wk).world.fs t.path ∨
      ∃ old base b got, Collecting env t old base b got wk) :
    (run env wk (t.emitted env.toLibs)).world.fs.contents (env.locate (env.finalPath t.path)) =
        some t.contents ∧
      (run env wk (t.emitted env.toLibs)).world.fs.node (env.locate (env.failedPath t.path)) =
        none ∧
      (run env wk (t.emitted env.toLibs)).stats.filesTransferred =
        wk.stats.filesTransferred + 1 := by
  rcases h with ⟨hother, hun⟩ | ⟨old, base, b, got, h⟩
  · have hinv : wk.Inv env := by
      rw [hwk]
      exact (Worker.Inv.of_new rfl).run raws
    obtain ⟨hstats, base, hcollecting⟩ :=
      Collecting.start henv ht (preempt_state hinv) hother hun
    have hd := hcollecting.run_emitted henv ht 2
    have htransferred := hd.filesTransferred
    rw [hstats, preempt_filesTransferred] at htransferred
    rw [t.emitted_eq_cons, run_cons]
    exact ⟨hd.contents, hd.noFailed, htransferred⟩
  · have hd := h.run_emitted henv ht controlResend
    rw [t.emitted_eq_body]
    exact ⟨hd.contents, hd.noFailed, hd.filesTransferred⟩

/-- An empty file under the same path as the file of one byte. -/
def emptied : Transfer := ⟨['a'], []⟩

/-- The empty file can be sent. -/
theorem emptied_small : emptied.Small := ⟨accepted_a, by decide⟩

/-- **A stale transfer in the way.** The file of one byte has only been announced when all
packets of its empty version arrive: they end the earlier transfer, as a failure, and no file is
delivered. -/
theorem run_emitted_stale :
    referenceEnv.NoFaults ∧ emptied.Small ∧
      Unobstructed referenceEnv referenceTree emptied.path ∧
      (run referenceEnv (run referenceEnv (.new referenceTree)
        [oneByte.startPacket referenceLibs]) (emptied.emitted referenceLibs)).stats =
          ⟨0, 1, 0⟩ := by
  have hun := referenceTree_unobstructed accepted_a (by decide)
  refine ⟨referenceEnv_noFaults, emptied_small, hun, ?_⟩
  obtain ⟨hstats, base, h⟩ := Collecting.start referenceEnv_noFaults oneByte_small
    (show (preempt referenceEnv (.new referenceTree)).state = .new from rfl)
    (Option.some_ne_none _).symm hun
  set wk := handlePacket referenceEnv (.new referenceTree) (oneByte.startPacket referenceLibs)
    with hwk
  have htracks : Tracks referenceEnv oneByte _ base (.collecting 0 []) wk := h
  have hpath : wk.state.filePath = some emptied.path := htracks.filePath
  have hnew : wk.stats = .new := hstats
  have hstarts : ∀ n, run referenceEnv wk
      (List.replicate n (emptied.startPacket referenceLibs)) = wk := by
    intro n
    induction n with
    | zero => rfl
    | succ n ih =>
        have hdup : handlePacket referenceEnv wk (emptied.startPacket referenceLibs) = wk := by
          rw [show referenceLibs = referenceEnv.toLibs from rfl,
            Transfer.handlePacket_start emptied_small.length_lt, newFile, if_pos hpath]
        rw [List.replicate_succ, run_cons, hdup, ih]
  -- the END of the empty file is as good as the END of the other one
  have hend : handlePacket referenceEnv wk emptied.endPacket =
      handlePacket referenceEnv wk oneByte.endPacket := by
    rw [Transfer.handlePacket_end emptied_small.length_lt htracks.isSome,
      Transfer.handlePacket_end oneByte_small.length_lt htracks.isSome]
  obtain ⟨hidle, hfailed⟩ := htracks.handlePacket_end oneByte_small (fun b got heq => by
    rw [Progress.collecting.injEq] at heq
    rw [← heq.1, ← heq.2]
    exact Transfer.not_enough_nil (by decide)) hend
  have hnone : emptied.chunkPackets referenceLibs = [] := rfl
  rw [run_cons, ← hwk, emptied.emitted_eq, hnone, List.append_nil, run_append]
  change (run referenceEnv (run referenceEnv wk _) _).stats = _
  rw [hstarts, controlResend, run_ends emptied_small.length_lt hidle, hfailed, hnew]
  rfl

/-! ### A run -/

/-- An empty file under another path. -/
def otherEmptied : Transfer := ⟨['b'], []⟩

/-- Another file has been announced, and a transfer of the file of one byte has broken off before
its END. -/
noncomputable def interrupted : List Bytes :=
  [otherEmptied.startPacket referenceLibs, oneByte.startPacket referenceLibs,
    oneByte.chunkPacket referenceLibs (.data 0)]

/-- Giving up the other file leaves nothing in the way of the file of one byte. -/
theorem unobstructed_oneByte :
    Unobstructed referenceEnv (preempt referenceEnv (handlePacket referenceEnv (.new referenceTree)
      (otherEmptied.startPacket referenceLibs))).world.fs oneByte.path := by
  refine ⟨by decide, by decide, by decide, by decide, fun l hl => ?_⟩
  have hout : referenceEnv.locate referenceEnv.outputDir ++ UnixPath.dirNames oneByte.path =
      [['o', 'u', 't']] := by decide
  rw [hout, List.prefix_cons_iff] at hl
  rcases hl with rfl | ⟨l, rfl, hl⟩
  · decide
  · rw [List.prefix_nil.mp hl]
    decide

/-- The transfer that has broken off has collected the only chunk. -/
theorem collecting_interrupted : ∃ old base, Collecting referenceEnv oneByte old base 0 [.data 0]
    (run referenceEnv (.new referenceTree) interrupted) := by
  have hother : (handlePacket referenceEnv (.new referenceTree)
      (otherEmptied.startPacket referenceLibs)).state.filePath ≠ some oneByte.path := by
    decide
  have hnew : (preempt referenceEnv (handlePacket referenceEnv (.new referenceTree)
      (otherEmptied.startPacket referenceLibs))).state = .new :=
    preempt_state ((Worker.Inv.of_new rfl).handlePacket _).1
  obtain ⟨-, base, h⟩ := Collecting.start referenceEnv_noFaults oneByte_small hnew hother
    unobstructed_oneByte
  have htracks : Tracks referenceEnv oneByte _ base (.collecting 0 []) _ := h
  have hchunk : oneByte.HasChunk (.data 0) := (by decide : 0 < oneByte.chunkCount)
  have hstep : oneByte.progress (.collecting 0 []) (.data 0) = .collecting 0 [.data 0] := by
    decide
  have hnext := htracks.handlePacket_chunk referenceEnv_noFaults oneByte_small hchunk
  rw [hstep] at hnext
  rw [interrupted, run_cons, run_cons, run_cons, run, List.foldl_nil]
  exact ⟨_, base, hnext⟩

/-- The file of one byte arrives after this traffic. -/
def ArrivesAfter (raws : List Bytes) : Prop :=
  let wk := run referenceEnv (.new referenceTree) raws
  let wk' := run referenceEnv wk (oneByte.emitted referenceLibs)
  wk'.world.fs.contents (referenceEnv.locate (referenceEnv.finalPath ['a'])) = some [42] ∧
    wk'.world.fs.node (referenceEnv.locate (referenceEnv.failedPath ['a'])) = none ∧
    wk'.stats.filesTransferred = wk.stats.filesTransferred + 1

/-- The file of one byte arrives while another one is in progress, and after a transfer of its
own that has broken off. -/
theorem run_emitted_of_reachable_oneByte :
    ArrivesAfter [otherEmptied.startPacket referenceLibs] ∧ ArrivesAfter interrupted := by
  refine ⟨?_, ?_⟩
  · exact @run_emitted_of_reachable referenceEnv oneByte _ referenceEnv_noFaults oneByte_small
      referenceTree _ rfl (Or.inl ⟨by decide, unobstructed_oneByte⟩)
  · obtain ⟨old, base, h⟩ := collecting_interrupted
    have hwk := run_emitted_of_reachable referenceEnv_noFaults oneByte_small rfl
      (Or.inr ⟨old, base, 0, [.data 0], h⟩)
    exact hwk

end DataDiode
