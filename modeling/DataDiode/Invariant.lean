import DataDiode.Effects
import DataDiode.Reference

/-!
# The Invariant of the Worker

Between two packets the worker is idle in its initial state, or a transfer of an accepted path
is in progress and its output file is open. The handlers keep that, and make calls about the
file in progress and the announced file only; so does every run, whatever the datagrams are
and whatever the operating system fails.

## Main results

* `Worker.Inv.handlePacket`: the invariant, step by step.
* `handlePacket_steps`, `run_steps`: the calls of a step and of a run.
* `run_calls_inside`: **path containment** for every run.
-/

namespace DataDiode

open UnixPath World

/-! ### Chunks keep the transfer -/

/-- The same transfer goes on, and no file was counted. -/
structure SameTransfer (wk wk' : Worker) : Prop where
  filePath : wk'.state.filePath = wk.state.filePath
  fileSize : wk'.state.fileSize = wk.state.fileSize
  pathHash : wk'.state.pathHash = wk.state.pathHash
  parityPerBatch : wk'.state.parityPerBatch = wk.state.parityPerBatch
  output : wk'.state.output = wk.state.output
  filesTransferred : wk'.stats.filesTransferred = wk.stats.filesTransferred
  filesFailed : wk'.stats.filesFailed = wk.stats.filesFailed

/-- Nothing changes. -/
theorem SameTransfer.refl (wk : Worker) : SameTransfer wk wk := ⟨rfl, rfl, rfl, rfl, rfl, rfl, rfl⟩

/-- One step after the other. -/
theorem SameTransfer.trans {wk wk' wk'' : Worker} (h : SameTransfer wk wk')
    (h' : SameTransfer wk' wk'') :
    SameTransfer wk wk'' :=
  ⟨h'.filePath.trans h.filePath, h'.fileSize.trans h.fileSize, h'.pathHash.trans h.pathHash,
    h'.parityPerBatch.trans h.parityPerBatch, h'.output.trans h.output,
    h'.filesTransferred.trans h.filesTransferred, h'.filesFailed.trans h.filesFailed⟩

/-- Writing a batch out leaves the transfer what it is. -/
theorem finalizeCurrentBatch_sameTransfer (env : Env) (wk : Worker) :
    SameTransfer wk (finalizeCurrentBatch env wk).2 := by
  rw [finalizeCurrentBatch]
  split
  · exact ⟨rfl, rfl, rfl, rfl, rfl, rfl, rfl⟩
  · split <;> exact ⟨rfl, rfl, rfl, rfl, rfl, rfl, rfl⟩

/-- Leaving batches behind leaves the transfer what it is. -/
theorem advanceBatches_sameTransfer (env : Env) (n : ℕ) : ∀ wk : Worker,
    SameTransfer wk (advanceBatches env n wk) := by
  induction n with
  | zero => exact SameTransfer.refl
  | succ n ih =>
      intro wk
      rw [advanceBatches]
      split
      · exact SameTransfer.refl wk
      · have h := finalizeCurrentBatch_sameTransfer env wk
        split
        · rename_i e wk' heq
          rw [heq] at h
          exact h.trans ⟨rfl, rfl, rfl, rfl, rfl, rfl, rfl⟩
        · rename_i wk' heq
          rw [heq] at h
          have hnext : SameTransfer wk' wk'.nextBatch := ⟨rfl, rfl, rfl, rfl, rfl, rfl, rfl⟩
          exact (h.trans hnext).trans (ih wk'.nextBatch)

/-- A chunk that is buffered leaves the transfer what it is. -/
theorem bufferData_sameTransfer (wk : Worker) (packet : Packet) :
    SameTransfer wk (bufferData wk packet) := by
  rw [bufferData]
  split
  · exact SameTransfer.refl wk
  · split <;> exact ⟨rfl, rfl, rfl, rfl, rfl, rfl, rfl⟩

/-- A parity chunk that is buffered leaves the transfer what it is. -/
theorem bufferParity_sameTransfer (wk : Worker) (packet : Packet) (i : ℕ) :
    SameTransfer wk (bufferParity wk packet i) := by
  rw [bufferParity]
  split
  · exact SameTransfer.refl wk
  · split <;> exact ⟨rfl, rfl, rfl, rfl, rfl, rfl, rfl⟩

/-- Buffering a chunk does not move on to another batch. -/
theorem bufferData_currentBatch (wk : Worker) (packet : Packet) :
    (bufferData wk packet).state.currentBatch = wk.state.currentBatch := by
  rw [bufferData]
  split
  · rfl
  · split <;> rfl

/-- Buffering a parity chunk does not move on to another batch. -/
theorem bufferParity_currentBatch (wk : Worker) (packet : Packet) (i : ℕ) :
    (bufferParity wk packet i).state.currentBatch = wk.state.currentBatch := by
  rw [bufferParity]
  split
  · rfl
  · split <;> rfl

/-- A chunk of either kind keeps the transfer. -/
theorem acceptChunk_sameTransfer (env : Env) (wk : Worker) (packet : Packet) (pkgType batch : ℕ)
    {buffer : Worker → Worker} (hbuffer : ∀ wk, SameTransfer wk (buffer wk)) :
    SameTransfer wk (acceptChunk env wk packet pkgType batch buffer) := by
  have hadvance : SameTransfer wk
      (if wk.state.currentBatch < batch then advanceToBatch env wk batch else wk) := by
    split
    · exact advanceBatches_sameTransfer env _ wk
    · exact SameTransfer.refl wk
  rw [acceptChunk]
  split
  · exact SameTransfer.refl wk
  split
  · exact ⟨rfl, rfl, rfl, rfl, rfl, rfl, rfl⟩
  dsimp only
  generalize (if wk.state.currentBatch < batch then advanceToBatch env wk batch else wk) = wk'
    at hadvance ⊢
  split
  · exact hadvance.trans (hbuffer wk')
  · exact hadvance

/-- A DATA packet neither opens nor ends a transfer. -/
theorem handleData_sameTransfer (env : Env) (wk : Worker) (packet : Packet) :
    SameTransfer wk (handleData env wk packet) :=
  acceptChunk_sameTransfer env wk packet _ _ fun wk => bufferData_sameTransfer wk packet

/-- A PARITY packet neither opens nor ends a transfer. -/
theorem handleParity_sameTransfer (env : Env) (wk : Worker) (packet : Packet) :
    SameTransfer wk (handleParity env wk packet) :=
  acceptChunk_sameTransfer env wk packet _ _ fun wk => bufferParity_sameTransfer wk packet _

/-! ### The calls of the handlers -/

/-- Restoring a batch leaves the tree and the calls alone. -/
theorem restoreBatch_world (env : Env) (state : ReceiveState) (dataSize : ℕ) (w : World) :
    (restoreBatch env state dataSize w).2.fs = w.fs ∧
      (restoreBatch env state dataSize w).2.calls = w.calls := by
  rw [restoreBatch]
  split
  · exact ⟨rfl, rfl⟩
  split
  · exact ⟨rfl, rfl⟩
  split
  · exact ⟨rfl, rfl⟩
  split <;> exact ⟨rfl, rfl⟩

/-- A relation between worlds that composes, that takes in whatever leaves the tree and the calls
alone, and that holds for seeking and writing in the file `f`. -/
structure OutputFrame (env : Env) (f : File) (R : World → World → Prop) : Prop where
  refl : ∀ w, R w w
  trans : ∀ {w w' w''}, R w w' → R w' w'' → R w w''
  congr : ∀ {w w' v : World}, R w w' → v.fs = w'.fs → v.calls = w'.calls → R w v
  seek : ∀ w offset, R w (w.seek env f offset).2
  write : ∀ w chunk, R w (w.writeAll env f chunk).2

namespace OutputFrame

variable {env : Env} {f : File} {R : World → World → Prop} (hR : OutputFrame env f R)

include hR

/-- Writing chunks keeps to the output file. -/
theorem writeChunks (state : ReceiveState) (restored : ChunkMap) (is : List ℕ) :
    ∀ w : World, R w (writeChunks env state restored f is w).2 := by
  induction is with
  | nil => exact hR.refl
  | cons i is ih =>
      intro w
      rw [DataDiode.writeChunks]
      split
      · exact hR.refl w
      · rename_i chunk _
        have hwrite := hR.write w chunk
        split
        · rename_i e w' heq
          rw [heq] at hwrite
          exact hwrite
        · rename_i w' heq
          rw [heq] at hwrite
          exact hR.trans hwrite (ih w')

/-- Writing a batch keeps to the output file. -/
theorem writeBatch {state : ReceiveState} (hout : state.output = some f) (dataSize : ℕ)
    (w : World) : R w (writeBatch env state dataSize w).2 := by
  obtain ⟨hfs, hcalls⟩ := restoreBatch_world env state dataSize w
  rw [DataDiode.writeBatch, hout]
  split
  · rename_i e w₁ heq
    rw [heq] at hfs hcalls
    exact hR.congr (hR.refl w) hfs hcalls
  rename_i restored w₁ heq
  rw [heq] at hfs hcalls
  have hrestore : R w w₁ := hR.congr (hR.refl w) hfs hcalls
  have hseek := hR.seek w₁ (batchOffset state.currentBatch)
  dsimp only
  split
  · rename_i e w₂ heq₂
    rw [heq₂] at hseek
    exact hR.trans hrestore hseek
  · rename_i w₂ heq₂
    rw [heq₂] at hseek
    exact hR.trans (hR.trans hrestore hseek) (hR.writeChunks state restored _ w₂)

/-- Finalizing a batch keeps to the output file. -/
theorem finalizeCurrentBatch {wk : Worker} (hout : wk.state.output = some f) :
    R wk.world (finalizeCurrentBatch env wk).2.world := by
  rw [DataDiode.finalizeCurrentBatch]
  split
  · exact hR.refl _
  · have h := hR.writeBatch hout (batchDataSize wk.state.currentBatch wk.state.fileSize) wk.world
    split
    · rename_i e w heq
      rw [heq] at h
      exact h
    · rename_i w heq
      rw [heq] at h
      exact h

/-- Leaving batches behind keeps to the output file. -/
theorem advanceBatches (n : ℕ) : ∀ {wk : Worker}, wk.state.output = some f →
    R wk.world (advanceBatches env n wk).world := by
  induction n with
  | zero => exact fun _ => hR.refl _
  | succ n ih =>
      intro wk hout
      rw [DataDiode.advanceBatches]
      split
      · exact hR.refl _
      · have h := hR.finalizeCurrentBatch hout
        have hout' := (finalizeCurrentBatch_sameTransfer env wk).output
        split
        · rename_i e wk' heq
          rw [heq] at h
          exact hR.congr h rfl rfl
        · rename_i wk' heq
          rw [heq] at h hout'
          have hnext : wk'.nextBatch.state.output = some f := hout'.trans hout
          exact hR.trans h (ih hnext)

end OutputFrame

/-- Buffering makes no calls. -/
theorem bufferData_world (wk : Worker) (packet : Packet) :
    (bufferData wk packet).world.fs = wk.world.fs ∧
      (bufferData wk packet).world.calls = wk.world.calls := by
  rw [bufferData]
  split
  · exact ⟨rfl, rfl⟩
  · split <;> exact ⟨rfl, rfl⟩

/-- Buffering a parity chunk makes no calls. -/
theorem bufferParity_world (wk : Worker) (packet : Packet) (i : ℕ) :
    (bufferParity wk packet i).world.fs = wk.world.fs ∧
      (bufferParity wk packet i).world.calls = wk.world.calls := by
  rw [bufferParity]
  split
  · exact ⟨rfl, rfl⟩
  · split <;> exact ⟨rfl, rfl⟩

/-- Looking at a chunk makes no calls. -/
theorem isChunkValid_world (env : Env) (w : World) (packet : Packet) (state : ReceiveState)
    (pkgType : ℕ) : (isChunkValid env w packet state pkgType).2.fs = w.fs ∧
      (isChunkValid env w packet state pkgType).2.calls = w.calls := by
  rw [isChunkValid]
  split
  · exact ⟨rfl, rfl⟩
  split
  · exact ⟨rfl, rfl⟩
  split
  · exact ⟨rfl, rfl⟩
  split <;> exact ⟨rfl, rfl⟩

/-- A chunk of either kind seeks and writes in the output file. -/
theorem OutputFrame.acceptChunk {env : Env} {f : File} {R : World → World → Prop}
    (hR : OutputFrame env f R) {wk : Worker} (hout : wk.state.output = some f)
    (packet : Packet) (pkgType batch : ℕ) {buffer : Worker → Worker}
    (hbuffer : ∀ wk, (buffer wk).world.fs = wk.world.fs ∧
      (buffer wk).world.calls = wk.world.calls) :
    R wk.world (acceptChunk env wk packet pkgType batch buffer).world := by
  have hadvance : R wk.world
      (if wk.state.currentBatch < batch then advanceToBatch env wk batch else wk).world := by
    split
    · exact hR.advanceBatches _ hout
    · exact hR.refl _
  have hvalid := isChunkValid_world env wk.world packet wk.state pkgType
  rw [DataDiode.acceptChunk]
  split
  · exact hR.refl _
  split
  · rename_i w heq
    rw [heq] at hvalid
    exact hR.congr (hR.refl _) hvalid.1 hvalid.2
  dsimp only
  generalize (if wk.state.currentBatch < batch then advanceToBatch env wk batch else wk) = wk'
    at hadvance ⊢
  split
  · exact hR.congr hadvance (hbuffer wk').1 (hbuffer wk').2
  · exact hadvance

/-- **A DATA packet keeps to the output file**. -/
theorem OutputFrame.handleData {env : Env} {f : File} {R : World → World → Prop}
    (hR : OutputFrame env f R) {wk : Worker} (hout : wk.state.output = some f)
    (packet : Packet) : R wk.world (handleData env wk packet).world :=
  hR.acceptChunk hout packet _ _ fun wk => bufferData_world wk packet

/-- **A PARITY packet keeps to the output file**. -/
theorem OutputFrame.handleParity {env : Env} {f : File} {R : World → World → Prop}
    (hR : OutputFrame env f R) {wk : Worker} (hout : wk.state.output = some f)
    (packet : Packet) : R wk.world (handleParity env wk packet).world :=
  hR.acceptChunk hout packet _ _ fun wk => bufferParity_world wk packet _

/-- Finalizing the last batch seeks and writes in the output file. -/
theorem OutputFrame.finalizeLast {env : Env} {f : File} {R : World → World → Prop}
    (hR : OutputFrame env f R) {wk : Worker} (hout : wk.state.output = some f) (p : Str) :
    R wk.world (finalizeLast env wk p).world := by
  have h := hR.finalizeCurrentBatch hout
  rw [DataDiode.finalizeLast]
  split
  · exact hR.refl _
  · split
    · rename_i wk' heq
      rw [heq] at h
      exact h
    · rename_i e wk' heq
      rw [heq] at h
      exact hR.congr h rfl rfl

/-- What happens to the output file are calls about its path. -/
theorem outputFrame_about (env : Env) (p : Str) :
    OutputFrame env ⟨env.partialPath p⟩ (Steps env (About env p)) where
  refl := Steps.refl _
  trans := Steps.trans
  congr h hfs hcalls := h.congr hfs hcalls
  seek w _ := seek_steps w _ _ fun _ hq => Or.inr (Or.inl (List.mem_singleton.mp hq))
  write w chunk := writeAll_steps w _ chunk fun _ hq => Or.inr (Or.inl (List.mem_singleton.mp hq))

/-- Ending a transfer changes nothing outside, its log record apart. -/
theorem resetTransfer_world (wk : Worker) (success : Bool) :
    (resetTransfer wk success).world.fs = wk.world.fs ∧
      (resetTransfer wk success).world.calls = wk.world.calls := by
  rw [resetTransfer]
  split
  · exact ⟨rfl, rfl⟩
  · split <;> exact ⟨rfl, rfl⟩

/-- Ending a transfer leaves the initial state. -/
theorem resetTransfer_state (wk : Worker) (success : Bool) :
    (resetTransfer wk success).state = .new := by
  rw [resetTransfer]
  split
  · rfl
  · split <;> rfl

/-- Giving up a transfer makes the calls that look after its files. -/
theorem abandon_steps (env : Env) (wk : Worker) (p : Str) :
    Steps env (Upkeep env p) wk.world (abandon env wk p).world := by
  have h := (removePartial_steps env wk.world p).trans (markFailure_steps env _ p)
  exact h.congr (resetTransfer_world _ _).1 (resetTransfer_world _ _).2

/-- A transfer that is given up is over. -/
theorem abandon_state (env : Env) (wk : Worker) (p : Str) : (abandon env wk p).state = .new :=
  resetTransfer_state _ _

/-- Publishing a file makes the calls that look after the files of its path. -/
theorem publish_steps (env : Env) (wk : Worker) (p : Str) :
    Steps env (Upkeep env p) wk.world (publish env wk p).world := by
  have hrename : Steps env (Upkeep env p) wk.world
      (wk.world.rename env (env.partialPath p) (env.finalPath p)).2 :=
    rename_steps wk.world _ _ ⟨fun q hq => by
      rcases List.mem_cons.mp hq with rfl | hq
      · exact Or.inr (Or.inl rfl)
      · exact Or.inl (List.mem_singleton.mp hq), rfl⟩
  rw [publish]
  split
  · rename_i e w heq
    rw [heq] at hrename
    exact (hrename.congr rfl rfl).trans (abandon_steps env _ p)
  · rename_i w heq
    rw [heq] at hrename
    have h := (hrename.trans (logDigest_steps env w p)).trans (clearFailure_steps env _ p)
    exact h.congr (resetTransfer_world _ _).1 (resetTransfer_world _ _).2

/-- A file that is published is over, whether it could be renamed or not. -/
theorem publish_state (env : Env) (wk : Worker) (p : Str) : (publish env wk p).state = .new := by
  rw [publish]
  split
  · exact abandon_state env _ p
  · exact resetTransfer_state _ _

/-- Ending a transfer makes calls about its file. -/
theorem finishFile_steps {env : Env} {wk : Worker} {p : Str} (hp : wk.state.filePath = some p)
    (hout : wk.state.output = some ⟨env.partialPath p⟩) :
    Steps env (About env p) wk.world (finishFile env wk).world := by
  have hlast := (outputFrame_about env p).finalizeLast hout p
  simp only [finishFile, hp]
  split
  · exact hlast.trans ((abandon_steps env _ p).mono fun _ hc => hc.1)
  · exact hlast.trans ((publish_steps env _ p).mono fun _ hc => hc.1)

/-- An END ends the transfer in progress. -/
theorem finishFile_state (env : Env) {wk : Worker} {p : Str} (hp : wk.state.filePath = some p) :
    (finishFile env wk).state = .new := by
  simp only [finishFile, hp]
  split
  · exact abandon_state env _ p
  · exact publish_state env _ p

/-! ### Opening a transfer -/

/-- The state of a freshly opened transfer. -/
def ReceiveState.opened (env : Env) (path : Str) (size : ℕ) (pathHash : Bytes)
    (parityPerBatch : ℕ) : ReceiveState :=
  { ReceiveState.new with
    filePath := some path
    pathHash := some pathHash
    fileSize := size
    parityPerBatch := parityPerBatch
    output := some ⟨env.partialPath path⟩ }

/-- What a START gives up is the transfer in progress, if there is one. -/
theorem preempt_steps {env : Env} (wk : Worker) {P : FsCall → Prop}
    (hP : ∀ prev, wk.state.filePath = some prev → ∀ c, About env prev c → P c) :
    Steps env P wk.world (preempt env wk).world := by
  rw [preempt]
  split
  · exact Steps.refl _ _
  · rename_i prev hprev
    exact ((Steps.refl _ _).congr rfl rfl).trans ((abandon_steps env _ prev).mono
      fun c hc => hP prev hprev c hc.1)

/-- A START that is refused leaves no transfer in progress. -/
theorem rejectStart_state (wk : Worker) (reason : String) (path : Str) :
    (rejectStart wk reason path).state = .new :=
  resetTransfer_state _ _

/-- A START that is refused makes no calls. -/
theorem rejectStart_world (wk : Worker) (reason : String) (path : Str) :
    (rejectStart wk reason path).world.fs = wk.world.fs ∧
      (rejectStart wk reason path).world.calls = wk.world.calls :=
  resetTransfer_world _ _

/-- Opening a transfer makes the calls that look after the files of the new path. -/
theorem openTransfer_steps (env : Env) (wk : Worker) (p : Str) (size : ℕ) (pathHash : Bytes)
    (parityPerBatch : ℕ) : Steps env (Upkeep env p) wk.world
      (openTransfer env wk p size pathHash parityPerBatch).world := by
  have hremove := ((removeFinal_steps env wk.world p).trans (removePartial_steps env _ p)).trans
    (removeFailed_steps env _ p)
  have hopen := hremove.trans (openOutputFile_steps env _ p size)
  rw [openTransfer]
  dsimp only
  split
  · rename_i e w heq
    rw [heq] at hopen
    exact (hopen.congr rfl rfl).trans (markFailure_steps env _ p)
  · rename_i f w heq
    rw [heq] at hopen
    exact hopen.congr rfl rfl

/-- Opening a transfer in the initial state either works or leaves the initial state. -/
theorem openTransfer_state (env : Env) {wk : Worker} (hnew : wk.state = .new) (p : Str) (size : ℕ)
    (pathHash : Bytes) (parityPerBatch : ℕ) :
    (openTransfer env wk p size pathHash parityPerBatch).state = .new ∨
      (openTransfer env wk p size pathHash parityPerBatch).state =
        .opened env p size pathHash parityPerBatch := by
  rw [openTransfer]
  dsimp only
  split
  · exact Or.inl hnew
  · rename_i f w heq
    right
    rw [openOutputFile_file env _ p heq, hnew]
    rfl

/-! ### The invariant -/

/-- Between two packets: the initial state, or a transfer of an accepted path with its output
file open. -/
structure Worker.Inv (env : Env) (wk : Worker) : Prop where
  idle : wk.state.filePath = none → wk.state = .new
  accepted : ∀ p, wk.state.filePath = some p → Accepted p
  output : ∀ p, wk.state.filePath = some p → wk.state.output = some ⟨env.partialPath p⟩

namespace Worker.Inv

variable {env : Env} {wk : Worker}

/-- Nothing is in progress at first. -/
theorem of_new (h : wk.state = .new) : wk.Inv env := by
  refine ⟨fun _ => h, fun p hp => ?_, fun p hp => ?_⟩ <;>
    · rw [h] at hp
      exact absurd hp (by simp [ReceiveState.new])

/-- A transfer that has just been opened. -/
theorem of_opened {p : Str} (hp : Accepted p) {size : ℕ} {pathHash : Bytes} {parity : ℕ}
    (h : wk.state = .opened env p size pathHash parity) : wk.Inv env := by
  refine ⟨fun hnone => ?_, fun q hq => ?_, fun q hq => ?_⟩
  · rw [h] at hnone
    exact absurd hnone (by simp [ReceiveState.opened])
  · rw [h] at hq
    rwa [← Option.some.inj hq]
  · rw [h] at hq ⊢
    rw [← Option.some.inj hq]
    rfl

/-- The invariant is about what does not change during a transfer. -/
theorem of_sameTransfer {wk' : Worker} (h : wk.Inv env) (hsame : SameTransfer wk wk')
    (hactive : wk.state.filePath.isSome) : wk'.Inv env := by
  refine ⟨fun hnone => ?_, fun p hp => ?_, fun p hp => ?_⟩
  · rw [← hsame.filePath, hnone] at hactive
    exact absurd hactive (by simp)
  · exact h.accepted p (hsame.filePath ▸ hp)
  · rw [hsame.output]
    exact h.output p (hsame.filePath ▸ hp)

end Worker.Inv

/-- After an unfinished transfer of another file has been given up, the state is the initial
one. -/
theorem preempt_state {env : Env} {wk : Worker} (h : wk.Inv env) :
    (preempt env wk).state = .new := by
  rw [preempt]
  split
  · rename_i hnone
    exact h.idle hnone
  · exact abandon_state env _ _

/-- What the announcement of a file leads to: nothing, the initial state, or an open transfer of
the announced file. -/
theorem newFile_state {env : Env} {wk : Worker} (h : wk.Inv env) (path : Str) (size : ℕ)
    (pathHash : Bytes) (parityPerBatch : ℕ) :
    wk.state.filePath = some path ∧ newFile env wk path size pathHash parityPerBatch = wk ∨
      (newFile env wk path size pathHash parityPerBatch).state = .new ∨
        Accepted path ∧ (newFile env wk path size pathHash parityPerBatch).state =
          .opened env path size pathHash parityPerBatch := by
  rw [newFile]
  split
  · rename_i hsame
    exact Or.inl ⟨hsame, rfl⟩
  have hnew := preempt_state h
  right
  dsimp only
  split
  · exact Or.inl (rejectStart_state _ _ _)
  rename_i hsafe
  split
  · exact Or.inl (rejectStart_state _ _ _)
  · rename_i hnul
    rcases openTransfer_state env hnew path size pathHash parityPerBatch with hopen | hopen
    · exact Or.inl hopen
    · exact Or.inr ⟨⟨by simpa using hsafe, hnul⟩, hopen⟩

/-- **A START** makes calls for the path before it, and for its own if it is accepted. -/
theorem newFile_steps {env : Env} (wk : Worker) (path : Str) (size : ℕ) (pathHash : Bytes)
    (parityPerBatch : ℕ) {P : FsCall → Prop}
    (hprev : ∀ prev, wk.state.filePath = some prev → ∀ c, About env prev c → P c)
    (hpath : Accepted path → ∀ c, About env path c → P c) :
    Steps env P wk.world (newFile env wk path size pathHash parityPerBatch).world := by
  rw [newFile]
  split
  · exact Steps.refl _ _
  have hpreempt : Steps env P wk.world (preempt env wk).world := preempt_steps wk hprev
  dsimp only
  split
  · exact hpreempt.congr (rejectStart_world _ _ _).1 (rejectStart_world _ _ _).2
  rename_i hsafe
  split
  · exact hpreempt.congr (rejectStart_world _ _ _).1 (rejectStart_world _ _ _).2
  · rename_i hnul
    exact hpreempt.trans ((openTransfer_steps env _ path size pathHash parityPerBatch).mono
      fun c hc => hpath ⟨by simpa using hsafe, hnul⟩ c hc.1)

/-! ### Steps and runs -/

/-- The datagram is a START packet announcing `p`. -/
def Announces (raw : Bytes) (p : Str) : Prop :=
  ∃ packet, decodePacket raw = some packet ∧ packet.pkgType = pkgTypeStart ∧
    Utf8.fromUtf8Lossy packet.data = p

/-- The transfer in progress after a step: the same as before, none, or the announced one. -/
theorem Worker.Inv.handlePacket {env : Env} {wk : Worker} (h : wk.Inv env) (raw : Bytes) :
    (DataDiode.handlePacket env wk raw).Inv env ∧
      ∀ p, (DataDiode.handlePacket env wk raw).state.filePath = some p →
        wk.state.filePath = some p ∨ Announces raw p := by
  have hnewPath : ∀ {wk' : Worker} {p : Str}, wk'.state = .new →
      wk'.state.filePath ≠ some p := fun hnew hp => by
    rw [hnew] at hp
    exact absurd hp (by simp [ReceiveState.new])
  rw [DataDiode.handlePacket]
  split
  · exact ⟨⟨h.idle, h.accepted, h.output⟩, fun p hp => Or.inl hp⟩
  rename_i packet hdecode
  rw [dispatch]
  split
  · rename_i hstart
    rcases newFile_state h (Utf8.fromUtf8Lossy packet.data) packet.count packet.pathHash
        ((decodeParityField packet.dataHash).getD 0) with ⟨-, hsame⟩ | hnew | ⟨hacc, hopen⟩
    · rw [handleStart, hsame]
      exact ⟨h, fun p hp => Or.inl hp⟩
    · exact ⟨.of_new hnew, fun p hp => absurd hp (hnewPath hnew)⟩
    · refine ⟨.of_opened hacc hopen, fun p hp => Or.inr ⟨packet, hdecode, hstart, ?_⟩⟩
      rw [handleStart, hopen] at hp
      exact Option.some.inj hp
  split
  · rename_i hdata
    have hsame := handleData_sameTransfer env wk packet
    exact ⟨h.of_sameTransfer hsame hdata.2, fun p hp => Or.inl (hsame.filePath ▸ hp)⟩
  split
  · rename_i hparity
    have hsame := handleParity_sameTransfer env wk packet
    exact ⟨h.of_sameTransfer hsame hparity.2, fun p hp => Or.inl (hsame.filePath ▸ hp)⟩
  split
  · rename_i hend
    obtain ⟨p, hp⟩ := Option.isSome_iff_exists.mp hend.2
    have hnew := finishFile_state env hp
    exact ⟨.of_new hnew, fun q hq => absurd hq (hnewPath hnew)⟩
  split
  · exact ⟨⟨h.idle, h.accepted, h.output⟩, fun p hp => Or.inl hp⟩
  · exact ⟨h, fun p hp => Or.inl hp⟩

/-- A step makes calls about the file in progress and the announced file. -/
theorem handlePacket_steps {env : Env} {wk : Worker} (h : wk.Inv env) (raw : Bytes) :
    Steps env (fun c => ∃ p, (wk.state.filePath = some p ∨ Announces raw p) ∧ Accepted p ∧
      About env p c) wk.world (handlePacket env wk raw).world := by
  rw [handlePacket]
  split
  · exact (Steps.refl _ _).congr rfl rfl
  rename_i packet hdecode
  have hcurrent : ∀ p, wk.state.filePath = some p → ∀ c, About env p c →
      ∃ p, (wk.state.filePath = some p ∨ Announces raw p) ∧ Accepted p ∧ About env p c :=
    fun p hp c hc => ⟨p, Or.inl hp, h.accepted p hp, hc⟩
  rw [dispatch]
  split
  · rename_i hstart
    exact newFile_steps wk _ _ _ _ hcurrent
      fun hacc c hc => ⟨_, Or.inr ⟨packet, hdecode, hstart, rfl⟩, hacc, hc⟩
  split
  · rename_i hdata
    obtain ⟨p, hp⟩ := Option.isSome_iff_exists.mp hdata.2
    exact ((outputFrame_about env p).handleData (h.output p hp) packet).mono (hcurrent p hp)
  split
  · rename_i hparity
    obtain ⟨p, hp⟩ := Option.isSome_iff_exists.mp hparity.2
    exact ((outputFrame_about env p).handleParity (h.output p hp) packet).mono (hcurrent p hp)
  split
  · rename_i hend
    obtain ⟨p, hp⟩ := Option.isSome_iff_exists.mp hend.2
    exact (finishFile_steps hp (h.output p hp)).mono (hcurrent p hp)
  split <;> exact Steps.refl _ _

/-- One datagram, and the others. -/
theorem run_cons (env : Env) (wk : Worker) (raw : Bytes) (raws : List Bytes) :
    run env wk (raw :: raws) = run env (handlePacket env wk raw) raws := rfl

/-- Some datagrams, and some more. -/
theorem run_append (env : Env) (wk : Worker) (raws raws' : List Bytes) :
    run env wk (raws ++ raws') = run env (run env wk raws) raws' :=
  List.foldl_append

/-- The last datagram of a run. -/
theorem run_concat (env : Env) (wk : Worker) (raws : List Bytes) (raw : Bytes) :
    run env wk (raws ++ [raw]) = handlePacket env (run env wk raws) raw :=
  run_append env wk raws [raw]

/-- **Every run** keeps the invariant. -/
theorem Worker.Inv.run {env : Env} {wk : Worker} (h : wk.Inv env) (raws : List Bytes) :
    (DataDiode.run env wk raws).Inv env := by
  induction raws generalizing wk with
  | nil => exact h
  | cons raw raws ih => exact ih (h.handlePacket raw).1

/-- **Every run** makes calls about the files announced in it, and the file in progress
before. -/
theorem run_steps {env : Env} {wk : Worker} (h : wk.Inv env) (raws : List Bytes) :
    Steps env (fun c => ∃ p, (wk.state.filePath = some p ∨ ∃ raw ∈ raws, Announces raw p) ∧
      Accepted p ∧ About env p c) wk.world (run env wk raws).world := by
  induction raws generalizing wk with
  | nil => exact Steps.refl _ _
  | cons raw raws ih =>
      obtain ⟨hinv, hpath⟩ := h.handlePacket raw
      refine ((handlePacket_steps h raw).mono ?_).trans ((ih hinv).mono ?_)
      · rintro c ⟨p, hp, hacc, hc⟩
        refine ⟨p, ?_, hacc, hc⟩
        rcases hp with hp | hp
        · exact Or.inl hp
        · exact Or.inr ⟨raw, List.mem_cons_self, hp⟩
      · rintro c ⟨p, hp, hacc, hc⟩
        refine ⟨p, ?_, hacc, hc⟩
        rcases hp with hp | ⟨raw', hraw', hp⟩
        · rcases hpath p hp with hp | hp
          · exact Or.inl hp
          · exact Or.inr ⟨raw, List.mem_cons_self, hp⟩
        · exact Or.inr ⟨raw', List.mem_cons_of_mem _ hraw', hp⟩

/-! ### Containment -/

/-- Calls about an accepted path stay inside the output directory; only directories may be the
output directory itself. -/
theorem About.inside {env : Env} {p : Str} (hp : Accepted p) {c : FsCall} (hc : About env p c)
    {q : Path} (hq : q ∈ c.paths) :
    ∃ ns, Inside env q ns ∧ (ns = [] → c = .createDirAll q) := by
  have hfile : (q = env.finalPath p ∨ q = env.partialPath p ∨ q = env.failedPath p) →
      ∃ ns, Inside env q ns ∧ (ns = [] → c = .createDirAll q) := by
    rintro (rfl | rfl | rfl)
    · exact ⟨_, hp.inside_finalPath env, fun h => absurd h hp.plain.names_ne_nil⟩
    · exact ⟨_, hp.inside_partialPath env, fun h => absurd h (by simp [partialNames])⟩
    · exact ⟨_, hp.inside_failedPath env, fun h => absurd h (by simp [failedNames])⟩
  cases c with
  | createDirAll r =>
      rw [List.mem_singleton.mp hq]
      rcases hc with hc | hc
      · exact ⟨_, (hp.inside_partialPath env).parent hc, fun _ => rfl⟩
      · exact ⟨_, (hp.inside_failedPath env).parent hc, fun _ => rfl⟩
  | openWrite | setLen | seek | write | removeFile | rename | openRead | read | metadata =>
      exact hfile (hc q hq)

/-- **Path containment**: for every sequence of datagrams, whatever the operating system fails,
every path given to a file-system call has the components of the output directory followed by
ordinary names, and lies below it accordingly; without such names it is only ever made as a
directory. -/
theorem run_calls_inside (env : Env) (fs : Tree) (raws : List Bytes) :
    ∀ c ∈ (run env (.new fs) raws).world.calls, ∀ q ∈ c.paths, ∃ ns,
      components q = components env.outputDir ++ ns.map Component.normal ∧
        env.locate q = env.locate env.outputDir ++ ns ∧ (ns = [] → c = .createDirAll q) := by
  intro c hc q hq
  obtain ⟨new, hcalls, hnew, -⟩ := run_steps (.of_new rfl : (Worker.new fs).Inv env) raws
  rw [hcalls] at hc
  obtain ⟨p, -, hp, habout⟩ := hnew c (by simpa [Worker.new, World.new] using hc)
  obtain ⟨ns, hinside, hdir⟩ := habout.inside hp hq
  exact ⟨ns, hinside, hinside.locate, hdir⟩

/-- The file opened for the START packet of a file `a` lies below the output directory. -/
theorem run_calls_inside_start : ∃ ns,
    components (referenceEnv.partialPath ['a']) =
        components referenceEnv.outputDir ++ ns.map Component.normal ∧
      referenceEnv.locate (referenceEnv.partialPath ['a']) =
        referenceEnv.locate referenceEnv.outputDir ++ ns ∧
      (ns = [] → FsCall.openWrite (referenceEnv.partialPath ['a']) true =
        .createDirAll (referenceEnv.partialPath ['a'])) :=
  run_calls_inside referenceEnv referenceTree
    [encodePacket pkgTypeStart 0 emptyHash (encodeParityField 100) [97]]
    (.openWrite (referenceEnv.partialPath ['a']) true) (by decide) _
    (List.mem_singleton.mpr rfl)

end DataDiode
