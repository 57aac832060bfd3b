import DataDiode.Buffers

/-!
# What the Receiver Logs

A frame relation for the log: `Logs P w w'` says that from `w` to `w'` records were logged that
all satisfy `P`, and none was lost. It is proved from the single calls, which log nothing, up to
whole runs of the worker, for one predicate: a record is **routine** if it does not report that
the byte limit of a batch was exceeded, and if the characters it prints without escaping them are
no control characters but horizontal tabs. One record is exempt from the second half: the warning
that a digest could not be computed, whose reason shows the path as it is.

## Main results

* `handlePacket_logs`, `run_logs`: the records of a step and of a run are routine.
* `run_state_invariant`: the buffers, the counter and the output file in every state of a run, and
  the byte limit that is never reported.
* `run_log_sanitized`: no control character but tabs reaches the log from a received path, the
  digest warning apart.
-/

namespace DataDiode

open UnixPath World

/-! ### What a record prints -/

/-- The characters a piece prints unescaped, out of what the receiver was sent. -/
def Piece.raw : Piece → Str
  | .display s => s
  | _ => []

/-- The characters a text prints unescaped. -/
def rawChars (text : Text) : Str := text.flatMap Piece.raw

/-- The raw characters of a text are those of its parts. -/
theorem rawChars_append (text text' : Text) :
    rawChars (text ++ text') = rawChars text ++ rawChars text' :=
  List.flatMap_append

/-- A control character: C0, DEL or C1. -/
def isControl (c : Char) : Bool := c.toNat < 32 || (127 ≤ c.toNat && c.toNat ≤ 159)

/-- A report that the byte limit of a batch was exceeded. -/
def LimitReport (text : Text) : Prop :=
  text.head? = some (.lit "Data buffer size limit (") ∨
    text.head? = some (.lit "Parity buffer size limit (")

/-- The warning that the digest of a received file could not be computed. -/
def DigestWarning (text : Text) : Prop :=
  text.head? = some (.lit "Failed to compute SHA-256 of ")

/-- A record that reports no limit, and prints no control character but tabs. -/
structure Routine (text : Text) : Prop where
  limit : ¬LimitReport text
  raw : ¬DigestWarning text → ∀ c ∈ rawChars text, isControl c = true → c = '\t'

/-- What `logSafe` keeps is no control character but tabs. -/
theorem eq_tab_of_mem_logSafe {s : Str} {c : Char} (hc : c ∈ logSafe s)
    (hcontrol : isControl c = true) : c = '\t' := by
  have hkeep := (List.mem_filter.mp hc).2
  simp only [isAsciiGraphic, Bool.or_eq_true, Bool.and_eq_true, decide_eq_true_eq] at hkeep
  simp only [isControl, Bool.or_eq_true, Bool.and_eq_true, decide_eq_true_eq] at hcontrol
  rcases hkeep with (hgraphic | rfl) | htab
  · omega
  · exact absurd hcontrol (by decide)
  · exact htab

namespace Routine

/-- A record without unescaped text. -/
theorem of_plain {text : Text} (hlimit : ¬LimitReport text) (h : rawChars text = []) :
    Routine text :=
  ⟨hlimit, fun _ c hc => absurd (h ▸ hc) (by simp)⟩

/-- A record whose unescaped text is sanitized. -/
theorem of_logSafe {text : Text} {s : Str} (hlimit : ¬LimitReport text)
    (h : rawChars text = logSafe s) : Routine text :=
  ⟨hlimit, fun _ _ hc hcontrol => eq_tab_of_mem_logSafe (h ▸ hc) hcontrol⟩

end Routine

/-! ### The frame of the log -/

/-- From `w` to `w'`, records satisfying `P` were logged, and none was lost. -/
def Logs (P : Text → Prop) (w w' : World) : Prop :=
  ∃ new, w'.log = w.log ++ new ∧ ∀ r ∈ new, P r.2

namespace Logs

variable {P : Text → Prop} {w w' w'' : World}

/-- Where nothing is logged, nothing else is logged either. -/
theorem of_eq (h : w'.log = w.log) : Logs P w w' :=
  ⟨[], by rw [h, List.append_nil], by simp⟩

/-- No step at all. -/
theorem refl (w : World) : Logs P w w := of_eq rfl

/-- One step after the other. -/
theorem trans (h : Logs P w w') (h' : Logs P w' w'') : Logs P w w'' := by
  obtain ⟨new, hlog, hP⟩ := h
  obtain ⟨new', hlog', hP'⟩ := h'
  refine ⟨new ++ new', by rw [hlog', hlog, List.append_assoc], fun r hr => ?_⟩
  rcases List.mem_append.mp hr with hr | hr
  · exact hP r hr
  · exact hP' r hr

/-- Nothing but the log counts. -/
theorem congr (h : Logs P w w') {v : World} (hlog : v.log = w'.log) : Logs P w v :=
  h.trans (of_eq hlog)

/-- One more record. -/
theorem record (h : Logs P w w') {level : Level} {text : Text} (htext : P text) :
    Logs P w (w'.logAt level text) :=
  h.trans ⟨[(level, text)], rfl, fun r hr => by rwa [List.mem_singleton.mp hr]⟩

end Logs

/-! ### File-system calls log nothing -/

namespace World

variable (env : Env) (w : World)

/-- A call of the file system does not log. -/
theorem call_log (c : FsCall) (undone : ℕ → Tree → Tree) (act : Tree → Except IoError Tree) :
    (w.call env c undone act).2.log = w.log := by
  rw [call]
  split
  · rfl
  · split <;> rfl

/-- `create_dir_all` does not log. -/
theorem createDirAll_log (p : Path) : (w.createDirAll env p).2.log = w.log :=
  call_log env w _ _ _

/-- `remove_file` does not log. -/
theorem removeFile_log (p : Path) : (w.removeFile env p).2.log = w.log :=
  call_log env w _ _ _

/-- `rename` does not log. -/
theorem rename_log (p q : Path) : (w.rename env p q).2.log = w.log :=
  call_log env w _ _ _

/-- `set_len` does not log. -/
theorem setLen_log (f : File) (size : ℕ) : (w.setLen env f size).2.log = w.log :=
  call_log env w _ _ _

/-- Opening a file for writing does not log, whatever comes of it. -/
theorem openWrite_log (p : Path) (truncate : Bool) :
    (w.openWrite env p truncate).2.log = w.log := by
  have h := call_log env w (.openWrite p truncate) (fun _ t => t)
    fun t => onFile env p fun l => t.create l truncate
  rw [openWrite]
  split
  · rename_i w' heq
    rw [heq] at h
    exact h
  · rename_i e w' heq
    rw [heq] at h
    exact h

/-- Moving the cursor does not log. -/
theorem seek_log (f : File) (offset : ℕ) : (w.seek env f offset).2.log = w.log := by
  have h := call_log env w (.seek f.path offset) (fun _ t => t) fun t => .ok t
  rw [seek]
  split
  · rename_i w' heq
    rw [heq] at h
    exact h
  · rename_i e w' heq
    rw [heq] at h
    exact h

/-- Writing a chunk does not log. -/
theorem writeAll_log (f : File) (chunk : Bytes) : (w.writeAll env f chunk).2.log = w.log := by
  have h := call_log env w (.write f.path w.cursor chunk.length)
    (fun k t => putAt env f w.cursor (chunk.take k) t)
    fun t => .ok (putAt env f w.cursor chunk t)
  rw [writeAll]
  split
  · rename_i w' heq
    rw [heq] at h
    exact h
  · rename_i e w' heq
    rw [heq] at h
    exact h

/-- Looking at the metadata of a file does not log. -/
theorem metadata_log (p : Path) :
    (w.pathExists env p).2.log = w.log ∧ (w.fileLen env p).2.log = w.log := by
  have h := call_log env w (.metadata p) (fun _ t => t) fun t => .ok t
  rw [pathExists, fileLen]
  constructor <;> split <;>
    · rename_i w' heq
      rw [heq] at h
      exact h

/-- Making the directory of a file does not log. -/
theorem createParent_log (p : Path) : (w.createParent env p).2.log = w.log := by
  rw [createParent]
  split
  · exact createDirAll_log env w _
  · rfl

/-- Leaving a marker of a failure does not log. -/
theorem markFailure_log (p : Str) : (w.markFailure env p).log = w.log := by
  rw [markFailure, openWrite_log]
  split
  · rw [createDirAll_log, removeFile_log]
  · rw [removeFile_log]

/-- None of the steps that open the output file logs; the caller does. -/
theorem openOutputFile_log (p : Str) (fileSize : ℕ) :
    (w.openOutputFile env p fileSize).2.log = w.log := by
  have hparent := createParent_log env w (env.partialPath p)
  rw [openOutputFile]
  split
  · rename_i e w₁ heq
    rw [heq] at hparent
    exact hparent
  rename_i w₁ heq
  rw [heq] at hparent
  have hopen := openWrite_log env w₁ (env.partialPath p) true
  split
  · rename_i e w₂ heq₂
    rw [heq₂] at hopen
    exact hopen.trans hparent
  rename_i f w₂ heq₂
  rw [heq₂] at hopen
  have hlen := setLen_log env w₂ f fileSize
  split
  · split
    · rename_i e w₃ heq₃
      rw [heq₃] at hlen
      exact hlen.trans (hopen.trans hparent)
    · rename_i w₃ heq₃
      rw [heq₃] at hlen
      exact hlen.trans (hopen.trans hparent)
  · exact hopen.trans hparent

/-- Removing the markers of a failure does not log. -/
theorem clearFailure_log (p : Str) : (w.clearFailure env p).log = w.log := by
  have h := (metadata_log env w (env.failedPath p)).1
  rw [clearFailure]
  split
  · rename_i w₁ heq
    rw [heq] at h
    rw [removeFile_log]
    exact h
  · rename_i w₁ heq
    rw [heq] at h
    exact h

/-- Reading a file for its digest does not log. -/
theorem sha256File_log (p : Path) : (w.sha256File env p).2.log = w.log := by
  have hopen := call_log env w (.openRead p) (fun _ t => t) fun t =>
    onFile env p fun l => if (t.contents l).isSome then .ok t else .error (t.unreachable l)
  rw [sha256File]
  split
  · rename_i e w₁ heq
    rw [heq] at hopen
    exact hopen
  · rename_i w₁ heq
    rw [heq] at hopen
    have hread := call_log env w₁ (.read p) (fun _ t => t) fun t => .ok t
    split
    · rename_i e w₂ heq₂
      rw [heq₂] at hread
      exact hread.trans hopen
    · rename_i w₂ heq₂
      rw [heq₂] at hread
      exact hread.trans hopen

end World

/-! ### The reasons of failed batches -/

/-- A failure gives a reason that prints nothing unescaped. -/
def PlainError {α : Type} (x : Except Text α) : Prop := ∀ e, x = .error e → rawChars e = []

namespace PlainError

variable {α β : Type}

/-- A result is no error. -/
theorem ok (a : α) : PlainError (.ok a) := fun _ h => absurd h (by simp)

/-- An error whose text quotes nothing. -/
theorem error {e : Text} (h : rawChars e = []) : PlainError (α := α) (.error e) := by
  intro e' he
  rwa [← Except.error.inj he]

/-- Errors of one computation after the other. -/
theorem bind {x : Except Text α} {f : α → Except Text β} (hx : PlainError x)
    (hf : ∀ a, PlainError (f a)) : PlainError (x >>= f) := by
  cases x with
  | error e => exact .error (hx e rfl)
  | ok a => exact hf a

/-- A fold whose steps give such reasons. -/
theorem foldlM {f : β → α → Except Text β} (hf : ∀ b a, PlainError (f b a)) (as : List α) :
    ∀ b : β, PlainError (as.foldlM f b) := by
  induction as with
  | nil => exact fun b => .ok b
  | cons a as ih =>
      intro b
      rw [List.foldlM_cons]
      exact (hf b a).bind ih

end PlainError

/-- The decoder is fed with nothing that an error would quote. -/
theorem feedOriginal_plain (dataSize start : ℕ) (dec : RsDecoder) (entry : ℕ × Bytes) :
    PlainError (feedOriginal dataSize start dec entry) := by
  rw [feedOriginal]
  split
  · exact .ok dec
  · split
    · exact .ok _
    · exact .error rfl

/-- The decoder is fed with no parity that an error would quote. -/
theorem feedRecovery_plain (parity : ℕ) (dec : RsDecoder) (entry : ℕ × Bytes) :
    PlainError (feedRecovery parity dec entry) := by
  rw [feedRecovery]
  split
  · exact .ok dec
  · split
    · exact .ok _
    · exact .error rfl

/-- The errors of the decoder quote nothing that has arrived. -/
theorem decodeBatch_plain (env : Env) (state : ReceiveState) (dataSize : ℕ) :
    PlainError (decodeBatch env state dataSize) := by
  rw [decodeBatch]
  split
  · exact .error rfl
  · refine (PlainError.foldlM (feedOriginal_plain _ _) _ _).bind fun dec => ?_
    refine (PlainError.foldlM (feedRecovery_plain _) _ dec).bind fun dec' => ?_
    split
    · exact .error rfl
    · exact .ok _

/-- A chunk that is missing is named by its number. -/
theorem chunkBytes_plain (state : ReceiveState) (restored : ChunkMap) (i : ℕ) :
    PlainError (chunkBytes state restored i) := by
  rw [chunkBytes]
  split
  · split
    · exact .error rfl
    · exact .ok _
  · split
    · split
      · exact .error rfl
      · exact .ok _
    · exact .error rfl

/-! ### The records of a batch -/

section Batches

variable (env : Env)

/-- Restoring a batch: its errors are plain, and what it logs is routine. -/
theorem restoreBatch_logs (state : ReceiveState) (dataSize : ℕ) (w : World) :
    PlainError (restoreBatch env state dataSize w).1 ∧
      Logs Routine w (restoreBatch env state dataSize w).2 := by
  have hdecode := decodeBatch_plain env state dataSize
  rw [restoreBatch]
  split
  · exact ⟨.ok _, .refl w⟩
  split
  · exact ⟨.error rfl, .refl w⟩
  split
  · exact ⟨.error rfl, .refl w⟩
  split
  · rename_i e heq
    exact ⟨.error (hdecode e heq), .refl w⟩
  · exact ⟨.ok _, (Logs.refl w).record (.of_plain (by simp [LimitReport]) rfl)⟩

/-- Writing chunks logs nothing, and fails with plain errors only. -/
theorem writeChunks_logs (state : ReceiveState) (restored : ChunkMap) (file : File)
    (is : List ℕ) : ∀ w : World,
      PlainError (writeChunks env state restored file is w).1 ∧
        (writeChunks env state restored file is w).2.log = w.log := by
  induction is with
  | nil => exact fun w => ⟨.ok _, rfl⟩
  | cons i is ih =>
      intro w
      have hbytes := chunkBytes_plain state restored i
      rw [writeChunks]
      split
      · rename_i e heq
        exact ⟨.error (hbytes e heq), rfl⟩
      · rename_i chunk _
        have hwrite := writeAll_log env w file chunk
        split
        · rename_i e w' heq
          rw [heq] at hwrite
          exact ⟨.error rfl, hwrite⟩
        · rename_i w' heq
          rw [heq] at hwrite
          exact ⟨(ih w').1, (ih w').2.trans hwrite⟩

/-- Writing a batch: its errors are plain, and what it logs is routine. -/
theorem writeBatch_logs (state : ReceiveState) (dataSize : ℕ) (w : World) :
    PlainError (writeBatch env state dataSize w).1 ∧
      Logs Routine w (writeBatch env state dataSize w).2 := by
  obtain ⟨hplain, hrestore⟩ := restoreBatch_logs env state dataSize w
  rw [writeBatch]
  split
  · rename_i e w₁ heq
    rw [heq] at hplain hrestore
    exact ⟨.error (hplain e rfl), hrestore⟩
  rename_i restored w₁ heq
  rw [heq] at hrestore
  split
  · exact ⟨.error rfl, hrestore⟩
  rename_i file _
  have hseek := seek_log env w₁ file (batchOffset state.currentBatch)
  split
  · rename_i e w₂ heq₂
    rw [heq₂] at hseek
    exact ⟨.error rfl, hrestore.congr hseek⟩
  · rename_i w₂ heq₂
    rw [heq₂] at hseek
    obtain ⟨hwrite, hlog⟩ := writeChunks_logs env state restored file
      (List.range dataSize) w₂
    exact ⟨hwrite, hrestore.congr (hlog.trans hseek)⟩

/-- Finalizing a batch: its errors are plain, and what it logs is routine. -/
theorem finalizeCurrentBatch_logs (wk : Worker) :
    PlainError (finalizeCurrentBatch env wk).1 ∧
      Logs Routine wk.world (finalizeCurrentBatch env wk).2.world := by
  rw [finalizeCurrentBatch]
  split
  · exact ⟨.ok _, .refl _⟩
  obtain ⟨hplain, hlog⟩ := writeBatch_logs env wk.state
    (batchDataSize wk.state.currentBatch wk.state.fileSize) wk.world
  split
  · rename_i e w heq
    rw [heq] at hplain hlog
    exact ⟨.error (hplain e rfl), hlog⟩
  · rename_i w heq
    rw [heq] at hlog
    exact ⟨.ok _, hlog⟩

/-- Whatever number of batches is left behind, what is logged is routine. -/
theorem advanceBatches_logs (n : ℕ) : ∀ wk : Worker,
    Logs Routine wk.world (advanceBatches env n wk).world := by
  induction n with
  | zero => exact fun wk => .refl _
  | succ n ih =>
      intro wk
      rw [advanceBatches]
      split
      · exact .refl _
      obtain ⟨hplain, hlog⟩ := finalizeCurrentBatch_logs env wk
      split
      · rename_i e wk' heq
        rw [heq] at hplain hlog
        refine hlog.record (.of_plain (by simp [LimitReport]) ?_)
        rw [rawChars_append, hplain e rfl]
        rfl
      · rename_i wk' heq
        rw [heq] at hlog
        exact hlog.trans (ih wk'.nextBatch)

end Batches

/-! ### The records of the handlers -/

/-- A chunk is looked at with no more than routine messages. -/
theorem isChunkValid_logs (env : Env) (w : World) (packet : Packet) (state : ReceiveState)
    (pkgType : ℕ) : Logs Routine w (isChunkValid env w packet state pkgType).2 := by
  rw [isChunkValid]
  split
  · exact (Logs.refl w).record (.of_plain (by simp [LimitReport]) rfl)
  split
  · exact (Logs.refl w).record (.of_plain (by simp [LimitReport]) rfl)
  split
  · exact (Logs.refl w).record (.of_plain (by simp [LimitReport]) rfl)
  split
  · exact (Logs.refl w).record (.of_plain (by simp [LimitReport]) rfl)
  · exact .refl w

/-- A chunk of either kind, if keeping it in its batch meets no limit. -/
theorem acceptChunk_logs {env : Env} {wk : Worker} (h : wk.Buffered) {packet : Packet}
    {pkgType batch : ℕ} {buffer : Worker → Worker}
    (hbuffer : (isChunkValid env wk.world packet wk.state pkgType).1 = true →
      ∀ wk' : Worker, wk'.Buffered → batch = wk'.state.currentBatch →
        (buffer wk').world = wk'.world) :
    Logs Routine wk.world (acceptChunk env wk packet pkgType batch buffer).world := by
  have hvalid := isChunkValid_logs env wk.world packet wk.state pkgType
  have hadvance : Worker.Buffered
        (if wk.state.currentBatch < batch then advanceToBatch env wk batch else wk) ∧
      Logs Routine wk.world
        (if wk.state.currentBatch < batch then advanceToBatch env wk batch else wk).world := by
    split
    · exact ⟨advanceBatches_buffered env _ h, advanceBatches_logs env _ wk⟩
    · exact ⟨h, .refl _⟩
  rw [acceptChunk]
  split
  · exact .refl _
  split
  · rename_i w heq
    rw [heq] at hvalid
    exact hvalid
  rename_i w heq
  dsimp only
  generalize (if wk.state.currentBatch < batch then advanceToBatch env wk batch else wk) = wk'
    at hadvance ⊢
  split
  · rename_i hcurrent
    rw [hbuffer (by rw [heq]) wk' hadvance.1 hcurrent.2]
    exact hadvance.2
  · exact hadvance.2

/-- DATA packets lead to routine messages only; the limit of the buffer, which would quote the path,
is never reached. -/
theorem handleData_logs (env : Env) {wk : Worker} (h : wk.Buffered) (packet : Packet) :
    Logs Routine wk.world (handleData env wk packet).world :=
  acceptChunk_logs h fun hvalid _ h' hbatch =>
    (h'.bufferData hbatch ((isChunkValid_length hvalid).1 rfl)).2

/-- PARITY packets lead to routine messages only. -/
theorem handleParity_logs (env : Env) {wk : Worker} (h : wk.Buffered) (packet : Packet) :
    Logs Routine wk.world (handleParity env wk packet).world :=
  acceptChunk_logs h fun hvalid _ h' _ =>
    (h'.bufferParity (Nat.mod_lt _ (by decide)) ((isChunkValid_length hvalid).2 rfl)).2

/-- The end of a transfer is logged under the sanitized path. -/
theorem resetTransfer_logs (wk : Worker) (success : Bool) :
    Logs Routine wk.world (resetTransfer wk success).world := by
  rw [resetTransfer]
  split
  · exact .refl _
  split
  · exact (Logs.refl _).record (.of_plain (by simp [LimitReport]) rfl)
  · exact .refl _

/-- Giving up a transfer is logged under the sanitized path. -/
theorem abandon_logs (env : Env) (wk : Worker) (p : Str) :
    Logs Routine wk.world (abandon env wk p).world := by
  have h : Logs Routine wk.world
      ((wk.world.removeFile env (env.partialPath p)).2.markFailure env p) :=
    .of_eq ((markFailure_log env _ p).trans (removeFile_log env _ _))
  exact h.trans (resetTransfer_logs _ false)

/-- The earlier transfer that a START gives up is logged under its sanitized path. -/
theorem preempt_logs (env : Env) (wk : Worker) :
    Logs Routine wk.world (preempt env wk).world := by
  rw [preempt]
  split
  · exact .refl _
  · rename_i prev _
    have herror : Logs Routine wk.world (wk.error [.lit "Unfinished previous transfer of ",
        .display (logSafe prev), .lit " failed"]).world :=
      (Logs.refl _).record (.of_logSafe (s := prev) (by simp [LimitReport]) (by
        simp [rawChars, Piece.raw]))
    exact herror.trans (abandon_logs env _ prev)

/-- A START that is refused, other than for the size of a buffer, is logged under the sanitized
path. -/
theorem rejectStart_logs (wk : Worker) {reason : String} (path : Str)
    (hdata : reason ≠ "Data buffer size limit (")
    (hparity : reason ≠ "Parity buffer size limit (") :
    Logs Routine wk.world (rejectStart wk reason path).world := by
  have herror : Logs Routine wk.world (wk.error [.lit reason, .debug path, .lit " (safe: ",
      .debug (logSafe path), .lit ")"]).world :=
    (Logs.refl _).record (.of_plain (by simp [LimitReport, hdata, hparity]) rfl)
  exact herror.trans (resetTransfer_logs _ false)

/-- Opening a transfer logs the sanitized path, and the error if there is one. -/
theorem openTransfer_logs (env : Env) (wk : Worker) (p : Str) (size : ℕ) (pathHash : Bytes)
    (parityPerBatch : ℕ) : Logs Routine wk.world
      (openTransfer env wk p size pathHash parityPerBatch).world := by
  have hremove : (((wk.world.removeFile env (env.finalPath p)).2.removeFile env
      (env.partialPath p)).2.removeFile env (env.failedPath p)).2.log = wk.world.log := by
    rw [removeFile_log, removeFile_log, removeFile_log]
  have hopen := openOutputFile_log env (((wk.world.removeFile env (env.finalPath p)).2.removeFile
    env (env.partialPath p)).2.removeFile env (env.failedPath p)).2 p size
  rw [openTransfer]
  dsimp only
  split
  · rename_i e w heq
    rw [heq] at hopen
    refine Logs.congr (Logs.record (.of_eq (hopen.trans hremove))
      (.of_logSafe (s := p) (by simp [LimitReport]) ?_)) (markFailure_log env _ p)
    simp [rawChars, Piece.raw]
  · rename_i f w heq
    rw [heq] at hopen
    refine Logs.record (.of_eq (hopen.trans hremove))
      (.of_logSafe (s := p) (by simp [LimitReport]) ?_)
    simp [rawChars, Piece.raw]

/-- Whatever becomes of a START, what is logged is routine. -/
theorem newFile_logs (env : Env) (wk : Worker) (path : Str) (size : ℕ) (pathHash : Bytes)
    (parityPerBatch : ℕ) : Logs Routine wk.world
      (newFile env wk path size pathHash parityPerBatch).world := by
  have hpreempt := preempt_logs env wk
  rw [newFile]
  split
  · exact .refl _
  dsimp only
  split
  · exact hpreempt.trans (rejectStart_logs _ path (by simp) (by simp))
  split
  · exact hpreempt.trans (rejectStart_logs _ path (by simp) (by simp))
  · exact hpreempt.trans (openTransfer_logs env _ path size pathHash parityPerBatch)

/-- Finalizing the last batch, what is logged is routine. -/
theorem finalizeLast_logs (env : Env) (wk : Worker) (p : Str) :
    Logs Routine wk.world (finalizeLast env wk p).world := by
  obtain ⟨hplain, hlog⟩ := finalizeCurrentBatch_logs env wk
  rw [finalizeLast]
  split
  · exact .refl _
  split
  · rename_i wk' heq
    rw [heq] at hlog
    exact hlog
  · rename_i e wk' heq
    rw [heq] at hplain hlog
    refine hlog.record (.of_plain (by simp [LimitReport]) ?_)
    rw [rawChars_append, hplain e rfl]
    rfl

/-- A digest in the log, or the message that there is none. -/
theorem logDigest_logs (env : Env) (w : World) (p : Str) :
    Logs Routine w (w.logDigest env p) := by
  have hdigest := sha256File_log env w (env.finalPath p)
  rw [logDigest]
  split
  · rename_i contents w₁ heq
    rw [heq] at hdigest
    have hlen := (metadata_log env w₁ (env.finalPath p)).2
    exact (Logs.of_eq (hlen.trans hdigest)).record (.of_plain (by simp [LimitReport]) rfl)
  · rename_i e w₁ heq
    rw [heq] at hdigest
    refine (Logs.of_eq hdigest).record ⟨by simp [LimitReport], fun hno => absurd ?_ hno⟩
    simp [DigestWarning]

/-- Publishing a file, what is logged is routine. -/
theorem publish_logs (env : Env) (wk : Worker) (p : Str) :
    Logs Routine wk.world (publish env wk p).world := by
  have hrename := rename_log env wk.world (env.partialPath p) (env.finalPath p)
  rw [publish]
  split
  · rename_i e w heq
    rw [heq] at hrename
    exact (Logs.record (.of_eq hrename) (.of_plain (by simp [LimitReport]) rfl)).trans
      (abandon_logs env _ p)
  · rename_i w heq
    rw [heq] at hrename
    have h : Logs Routine wk.world ((w.logDigest env p).clearFailure env p) :=
      ((Logs.of_eq hrename).trans (logDigest_logs env w p)).congr (clearFailure_log env _ p)
    exact h.trans (resetTransfer_logs _ true)

/-- An END leads to routine messages, whatever the operating system fails. -/
theorem finishFile_logs (env : Env) (wk : Worker) :
    Logs Routine wk.world (finishFile env wk).world := by
  rw [finishFile]
  split
  · exact .refl _
  rename_i p _
  have hlast := finalizeLast_logs env wk p
  dsimp only
  split
  · exact hlast.trans (abandon_logs env _ p)
  · exact hlast.trans (publish_logs env _ p)

/-- **Every packet** is logged about in routine records, whatever it is and whatever fails. -/
theorem handlePacket_logs {env : Env} {wk : Worker} (h : wk.Buffered) (raw : Bytes) :
    Logs Routine wk.world (handlePacket env wk raw).world := by
  rw [handlePacket]
  split
  · exact (Logs.refl _).record (.of_plain (by simp [LimitReport]) rfl)
  rename_i packet _
  rw [dispatch]
  split
  · exact newFile_logs env wk _ _ _ _
  split
  · exact handleData_logs env h packet
  split
  · exact handleParity_logs env h packet
  split
  · exact finishFile_logs env wk
  split <;> exact .refl _

/-- **Every run** logs routine records. -/
theorem run_logs {env : Env} {wk : Worker} (hinv : wk.Inv env) (h : wk.Buffered)
    (raws : List Bytes) : Logs Routine wk.world (run env wk raws).world := by
  induction raws generalizing wk with
  | nil => exact .refl _
  | cons raw raws ih =>
      exact (handlePacket_logs h raw).trans
        (ih (hinv.handlePacket raw).1 (h.handlePacket hinv raw))

/-! ### What holds in every run -/

/-- **Every state of a run**, whatever the datagrams are and whatever the operating system fails:
there is an output file exactly while a transfer is in progress, and without one the state is the
initial one; the buffered data chunks are numbered within the current batch and have 1 to 940
bytes; the buffered parity shards are numbered below 100 and have 960 bytes; the byte counter is
the sum of all their lengths, and bounded. No chunk of the run was refused for the byte limit: a
refusal leaves a report in the log. -/
theorem run_state_invariant (env : Env) (fs : Tree) (raws : List Bytes) :
    let wk := run env (.new fs) raws
    (wk.state.filePath = none ↔ wk.state.output = none) ∧
      (wk.state.filePath = none → wk.state = .new) ∧
      (∀ k d, wk.state.dataBuffer[k]? = some d → 1000 * wk.state.currentBatch ≤ k ∧
        k ≤ 1000 * wk.state.currentBatch + 999 ∧ 1 ≤ d.length ∧ d.length ≤ 940) ∧
      (∀ k d, wk.state.parityBuffer[k]? = some d → k < 100 ∧ d.length = 960) ∧
      wk.state.bytesBuffered =
        ChunkMap.bytes wk.state.dataBuffer + ChunkMap.bytes wk.state.parityBuffer ∧
      wk.state.bytesBuffered ≤ 1000 * 940 + 100 * 960 ∧
      ∀ r ∈ wk.world.log, ¬LimitReport r.2 := by
  have hstart : (Worker.new fs).Inv env := .of_new rfl
  have hinv := hstart.run raws
  have hbuffered := Worker.Buffered.run hstart (.of_new rfl) raws
  obtain ⟨new, hlog, hroutine⟩ := run_logs hstart (.of_new rfl) raws
  refine ⟨⟨fun hnone => ?_, fun hnone => ?_⟩, hinv.idle, fun k d hk => ?_, hbuffered.parity,
    hbuffered.bytes, hbuffered.bytesBuffered_le, fun r hr => ?_⟩
  · rw [hinv.idle hnone]
    rfl
  · cases hpath : (run env (.new fs) raws).state.filePath with
    | none => rfl
    | some p => exact absurd ((hinv.output p hpath).symm.trans hnone) (by simp)
  · obtain ⟨hmem, hlen⟩ := hbuffered.data k d hk
    rw [batchNumbers, Finset.mem_Ico, batchDataChunks] at hmem
    exact ⟨by omega, by omega, hlen⟩
  · rw [hlog] at hr
    exact (hroutine r (by simpa [Worker.new, World.new] using hr)).limit

/-- The START packet of a file `a` of one byte, and its only data chunk. -/
noncomputable def oneChunk : List Bytes :=
  [encodePacket pkgTypeStart 1 emptyHash (encodeParityField 100) [97],
    encodePacket pkgTypeData 0 emptyHash (referenceEnv.md5.hex [98]) [98]]

/-- With one chunk buffered, the counter is within its bound. -/
theorem run_state_invariant_oneChunk :
    (run referenceEnv (.new referenceTree) oneChunk).state.bytesBuffered = 1 ∧
      (run referenceEnv (.new referenceTree) oneChunk).state.bytesBuffered ≤
        1000 * 940 + 100 * 960 :=
  ⟨by decide +kernel, (run_state_invariant referenceEnv referenceTree oneChunk).2.2.2.2.2.1⟩

/-- **No log injection**: for every sequence of datagrams, whatever the operating system fails,
the characters a record prints unescaped out of a received path are no control characters but
horizontal tabs, the digest warning apart. -/
theorem run_log_sanitized (env : Env) (fs : Tree) (raws : List Bytes) :
    ∀ r ∈ (run env (.new fs) raws).world.log, ¬DigestWarning r.2 →
      ∀ c ∈ rawChars r.2, isControl c = true → c = '\t' := by
  intro r hr
  have hstart : (Worker.new fs).Inv env := .of_new rfl
  obtain ⟨new, hlog, hroutine⟩ := run_logs hstart (.of_new rfl) raws
  rw [hlog] at hr
  exact (hroutine r (by simpa [Worker.new, World.new] using hr)).raw

/-- A line break in the path of a START packet does not reach the log. -/
theorem run_log_sanitized_start : ∃ r ∈ (run referenceEnv (.new referenceTree)
    [encodePacket pkgTypeStart 0 emptyHash (encodeParityField 100) [97, 10, 98]]).world.log,
      ¬DigestWarning r.2 ∧ ∀ c ∈ rawChars r.2, isControl c = true → c = '\t' := by
  let record : Level × Text := (.info, [.lit "Receiving file ", .display ['a', 'b'], .lit " (size ",
    .nat 0, .lit ", parity per batch ", .nat 100, .lit ")"])
  have hmem : record ∈ (run referenceEnv (.new referenceTree)
      [encodePacket pkgTypeStart 0 emptyHash (encodeParityField 100) [97, 10, 98]]).world.log := by
    decide
  have hwarning : ¬DigestWarning record.2 := by simp [record, DigestWarning]
  exact ⟨record, hmem, hwarning, run_log_sanitized _ _ _ record hmem hwarning⟩

/-- The path of a START packet, and the tab in it, as the log shows it. -/
theorem run_log_tab : ∃ r ∈ (run referenceEnv (.new referenceTree)
    [encodePacket pkgTypeStart 0 emptyHash (encodeParityField 100) [97, 9, 98]]).world.log,
      ∃ c ∈ rawChars r.2, isControl c = true := by
  have hany : ((run referenceEnv (.new referenceTree)
      [encodePacket pkgTypeStart 0 emptyHash (encodeParityField 100) [97, 9, 98]]).world.log.any
        fun r => (rawChars r.2).any isControl) = true := by
    decide
  obtain ⟨r, hr, hcontrol⟩ := List.any_eq_true.mp hany
  exact ⟨r, hr, List.any_eq_true.mp hcontrol⟩

/-- The reason in a digest warning shows the path as it is. -/
theorem rawChars_sha256File {env : Env} {w w' : World} {p : Path} {e : Text}
    (h : w.sha256File env p = (.error e, w')) : rawChars e = p := by
  rw [sha256File] at h
  split at h
  · rw [Prod.mk.injEq, Except.error.injEq] at h
    simp [← h.1, rawChars, Piece.raw]
  · split at h
    · rw [Prod.mk.injEq, Except.error.injEq] at h
      simp [← h.1, rawChars, Piece.raw]
    · exact absurd h (by simp)

end DataDiode
