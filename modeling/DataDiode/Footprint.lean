import DataDiode.Outcome

/-!
# What a Transfer Leaves in the Tree

A transfer touches three files, and makes directories on the way to them. `Alters` says of two trees
that from the one to the other files came and went only at given places, and directories were made
only at given other ones, and never lost.

## Main results

* `openTransfer_alters`, `finishFile_alters`, `abandon_alters`: the handlers.
* `run_alters`, `run_footprint`: in every run, whatever arrives and whatever fails, the tree changes
  at the three places of announced paths only, but for new directories on the way to them.
-/

namespace DataDiode

open UnixPath World

/-! ### Two trees -/

/-- From `t` to `t'`, files changed at places `S` only, and directories were made at places `D`
only. -/
structure Alters (S D : Location → Prop) (t t' : Tree) : Prop where
  kept : ∀ l, t.node l = some .dir → t'.node l = some .dir
  made : ∀ l, t'.node l = some .dir → t.node l = some .dir ∨ D l
  elsewhere : ∀ l, ¬S l → t'.node l = t.node l ∨ t.node l = none ∧ t'.node l = some .dir ∧ D l

namespace Alters

variable {S D S' D' : Location → Prop} {t t' t'' : Tree}

/-- Nothing is altered. -/
theorem refl (S D : Location → Prop) (t : Tree) : Alters S D t t :=
  ⟨fun _ h => h, fun _ h => Or.inl h, fun _ _ => Or.inl rfl⟩

/-- One alteration after the other. -/
theorem trans (h : Alters S D t t') (h' : Alters S D t' t'') : Alters S D t t'' where
  kept l hl := h'.kept l (h.kept l hl)
  made l hl := (h'.made l hl).elim (h.made l) Or.inr
  elsewhere l hl := by
    rcases h.elsewhere l hl with hsame | ⟨hnone, hdir, hD⟩
    · rw [← hsame]
      exact h'.elsewhere l hl
    · exact Or.inr ⟨hnone, h'.kept l hdir, hD⟩

/-- What alters less alters no more than what is allowed to alter more. -/
theorem mono (h : Alters S D t t') (hS : ∀ l, S l → S' l) (hD : ∀ l, D l → D' l) :
    Alters S' D' t t' where
  kept := h.kept
  made l hl := (h.made l hl).imp_right (hD l)
  elsewhere l hl := (h.elsewhere l fun hs => hl (hS l hs)).imp_right fun hmade =>
    ⟨hmade.1, hmade.2.1, hD l hmade.2.2⟩

/-- A place where no directory was gets a file, or loses it. -/
theorem of_update {k : Location} {o : Option (Node UInt8)} (hk : S k)
    (hdir : t.node k ≠ some .dir) (ho : o ≠ some .dir)
    (h : t'.node = Function.update t.node k o) : Alters S D t t' where
  kept l hl := by
    rw [h, Function.update_of_ne (by rintro rfl; exact hdir hl)]
    exact hl
  made l hl := by
    rw [h] at hl
    by_cases hlk : l = k
    · rw [hlk, Function.update_self] at hl
      exact absurd hl ho
    · rw [Function.update_of_ne hlk] at hl
      exact Or.inl hl
  elsewhere l hl := by
    rw [h, Function.update_of_ne (by rintro rfl; exact hl hk)]
    exact Or.inl rfl

/-- Files at other places keep their contents. -/
theorem contents (h : Alters S D t t') {l : Location} (hl : ¬S l) :
    t'.contents l = t.contents l := by
  rw [FileTree.contents, FileTree.contents]
  rcases h.elsewhere l hl with hsame | ⟨hnone, hdir, -⟩
  · rw [hsame]
  · rw [hnone, hdir]

end Alters

/-! ### Calls -/

section Calls

variable {env : Env} {S D : Location → Prop}

/-- Removing a file alters that file. -/
theorem removeFile_alters (w : World) {p : Path} (hp : S (env.locate p)) :
    Alters S D w.fs (w.removeFile env p).2.fs where
  kept l hl := by
    rcases removeFile_node env w p l with hsame | ⟨-, hne, -⟩
    · rw [hsame, hl]
    · exact absurd hl hne
  made l hl := by
    rcases removeFile_node env w p l with hsame | ⟨-, -, hnone⟩
    · exact Or.inl (hsame ▸ hl)
    · rw [hnone] at hl
      exact absurd hl (by simp)
  elsewhere l hl := by
    rcases removeFile_node env w p l with hsame | ⟨rfl, -, -⟩
    · exact Or.inl hsame
    · exact absurd hp hl

/-- `create_dir_all` makes the directories on the way. -/
theorem createDirAll_alters (w : World) {p : Path} (hp : ∀ l, l <+: env.locate p → D l) :
    Alters S D w.fs (w.createDirAll env p).2.fs where
  kept l hl := by
    rcases createDirAll_node env w p l with hsame | ⟨-, hdir, -⟩
    · rw [hsame, hl]
    · exact hdir
  made l hl := by
    rcases createDirAll_node env w p l with hsame | ⟨-, -, hprefix⟩
    · exact Or.inl (hsame ▸ hl)
    · exact Or.inr (hp l hprefix)
  elsewhere l _ :=
    (createDirAll_node env w p l).imp_right fun hmade => ⟨hmade.1, hmade.2.1, hp l hmade.2.2⟩

/-- Opening a file alters that file. -/
theorem openWrite_alters (w : World) {p : Path} (hp : S (env.locate p)) (truncate : Bool) :
    Alters S D w.fs (w.openWrite env p truncate).2.fs := by
  generalize hopen : w.openWrite env p truncate = r
  obtain ⟨e | f, w'⟩ := r
  · rw [openWrite_eq_error hopen]
    exact .refl _ _ _
  · obtain ⟨hadmits, d, hnode⟩ := openWrite_eq_ok hopen
    exact .of_update hp hadmits.2 (by simp) hnode

/-- `set_len` alters the open file. -/
theorem setLen_alters (w : World) {f : File} (hf : S (env.locate f.path)) (size : ℕ) :
    Alters S D w.fs (w.setLen env f size).2.fs := by
  generalize hlen : w.setLen env f size = r
  obtain ⟨e | ⟨⟩, w'⟩ := r
  · rw [setLen_eq_error hlen]
    exact .refl _ _ _
  · obtain ⟨d, hfile, hnode⟩ := FileTree.modify_eq_ok (call_eq_ok hlen)
    exact .of_update hf (by rw [hfile]; simp) (by simp) hnode

/-- A write of the operating system alters the open file. -/
theorem putAt_alters {f : File} (hf : S (env.locate f.path)) (pos : ℕ) (chunk : Bytes)
    (t : Tree) : Alters S D t (putAt env f pos chunk t) := by
  rw [putAt]
  cases hmodify : t.modify (env.locate f.path) fun d => Slices.overwrite d pos chunk with
  | error e => exact .refl _ _ _
  | ok t' =>
      obtain ⟨d, hfile, hnode⟩ := FileTree.modify_eq_ok hmodify
      exact .of_update hf (by rw [hfile]; simp) (by simp) hnode

/-- Writing a chunk alters the open file. -/
theorem writeAll_alters {f : File} (hf : S (env.locate f.path)) (w : World) (chunk : Bytes) :
    Alters S D w.fs (w.writeAll env f chunk).2.fs := by
  have hcall : Alters S D w.fs (w.call env (.write f.path w.cursor chunk.length)
      (fun k t => putAt env f w.cursor (chunk.take k) t)
      fun t => .ok (putAt env f w.cursor chunk t)).2.fs := by
    rw [call]
    split
    · exact putAt_alters hf _ _ _
    · exact putAt_alters hf _ _ _
  rw [writeAll]
  split
  · rename_i w' heq
    rw [heq] at hcall
    exact hcall
  · rename_i e w' heq
    rw [heq] at hcall
    exact hcall

/-- Seeking and writing in the output file. -/
theorem outputFrame_alters {f : File} (hf : S (env.locate f.path)) :
    OutputFrame env f fun w w' => Alters S D w.fs w'.fs where
  refl w := .refl _ _ _
  trans := .trans
  congr h hfs _ := by rw [hfs]; exact h
  seek w offset := by rw [seek_fs]; exact .refl _ _ _
  write := writeAll_alters hf

/-- Renaming alters two files. -/
theorem rename_alters (w : World) {p q : Path} (hp : S (env.locate p)) (hq : S (env.locate q))
    (hne : env.locate p ≠ env.locate q) : Alters S D w.fs (w.rename env p q).2.fs := by
  generalize hrename : w.rename env p q = r
  obtain ⟨e | ⟨⟩, w'⟩ := r
  · rw [World.call_eq_error hrename]
    exact .refl _ _ _
  · have hact := call_eq_ok hrename
    rw [onFile] at hact
    split at hact
    · exact absurd hact (by simp)
    · obtain ⟨d, hfile, hadmits, hnode⟩ := FileTree.rename_eq_ok hne hact
      have hmoved : (w.fs.setFile (env.locate q) d hadmits).node (env.locate p) =
          some (.file d) := by
        rw [FileTree.node_setFile, Function.update_of_ne hne, hfile]
      have hput : Alters S D w.fs (w.fs.setFile (env.locate q) d hadmits) :=
        .of_update hq hadmits.2 (by simp) rfl
      exact hput.trans (.of_update hp (by rw [hmoved]; simp) (by simp) hnode)

end Calls

/-! ### The places of a path -/

/-- The three places of a path. -/
def Env.Files (env : Env) (p : Str) (l : Location) : Prop :=
  l = env.locate (env.finalPath p) ∨ l = env.locate (env.partialPath p) ∨
    l = env.locate (env.failedPath p)

/-- The way to the directory of a path. -/
def Env.Way (env : Env) (p : Str) (l : Location) : Prop := l <+: env.dir p

section Handlers

variable {env : Env} {p : Str}

/-- The file itself belongs to its path. -/
theorem files_finalPath (env : Env) (p : Str) : env.Files p (env.locate (env.finalPath p)) :=
  Or.inl rfl

/-- The partial file belongs to the path. -/
theorem files_partialPath (env : Env) (p : Str) : env.Files p (env.locate (env.partialPath p)) :=
  Or.inr (Or.inl rfl)

/-- The marker belongs to the path. -/
theorem files_failedPath (env : Env) (p : Str) : env.Files p (env.locate (env.failedPath p)) :=
  Or.inr (Or.inr rfl)

/-- Leaving a marker alters the files of the path and makes the directories on their way. -/
theorem markFailure_alters (hp : Accepted p) {w : World} {t : Tree} (hw : w.fs = t) :
    Alters (env.Files p) (env.Way p) t (w.markFailure env p).fs := by
  subst hw
  obtain ⟨q, hq⟩ := (hp.inside_failedPath env).exists_parent
  have hremove := removeFile_alters (D := env.Way p) w (files_finalPath env p)
  rw [markFailure, hq]
  refine (hremove.trans (createDirAll_alters _ fun l hl => ?_)).trans
    (openWrite_alters _ (files_failedPath _ _) false)
  rwa [Env.Way, ← locate_parent_failedPath hp hq]

/-- **Giving up** a transfer. -/
theorem abandon_alters (hp : Accepted p) {wk : Worker} {t : Tree} (hwk : wk.world.fs = t) :
    Alters (env.Files p) (env.Way p) t (abandon env wk p).world.fs := by
  subst hwk
  have hfs : (abandon env wk p).world.fs =
      ((wk.world.removeFile env (env.partialPath p)).2.markFailure env p).fs :=
    (resetTransfer_world _ false).1
  rw [hfs]
  exact (removeFile_alters _ (files_partialPath _ _)).trans (markFailure_alters hp rfl)

/-- Opening the output file alters the partial file and makes the directories on its way. -/
theorem openOutputFile_alters {S D : Location → Prop} (hp : Accepted p)
    (hS : S (env.locate (env.partialPath p))) (hD : ∀ l, env.Way p l → D l) (w : World)
    (size : ℕ) : Alters S D w.fs (w.openOutputFile env p size).2.fs := by
  have hparent : Alters S D w.fs (w.createParent env (env.partialPath p)).2.fs := by
    obtain ⟨q, hq⟩ := (hp.inside_partialPath env).exists_parent
    rw [createParent, hq]
    refine createDirAll_alters _ fun l hl => hD l ?_
    rwa [Env.Way, ← locate_parent_partialPath hp hq]
  rw [openOutputFile]
  split
  · rename_i e w₁ heq
    rw [heq] at hparent
    exact hparent
  rename_i w₁ heq
  rw [heq] at hparent
  have hopen := openWrite_alters (D := D) w₁ hS true
  split
  · rename_i e w₂ heq₂
    rw [heq₂] at hopen
    exact hparent.trans hopen
  rename_i f w₂ heq₂
  have hfile : f.path = env.partialPath p := by rw [openWrite_file heq₂]
  rw [heq₂] at hopen
  split
  · have hplace : S (env.locate f.path) := by
      rw [hfile]
      exact hS
    have hlen := setLen_alters (D := D) w₂ hplace size
    split
    · rename_i e w₃ heq₃
      rw [heq₃] at hlen
      exact (hparent.trans hopen).trans hlen
    · rename_i w₃ heq₃
      rw [heq₃] at hlen
      exact (hparent.trans hopen).trans hlen
  · exact hparent.trans hopen

/-- **Opening** a transfer. -/
theorem openTransfer_alters (hp : Accepted p) (wk : Worker) (size : ℕ) (pathHash : Bytes)
    (parity : ℕ) : Alters (env.Files p) (env.Way p) wk.world.fs
      (openTransfer env wk p size pathHash parity).world.fs := by
  have hremoved := ((removeFile_alters (D := env.Way p) wk.world
    (files_finalPath env p)).trans (removeFile_alters _ (files_partialPath _ _))).trans
      (removeFile_alters _ (files_failedPath _ _))
  have hopened := hremoved.trans
    (openOutputFile_alters hp (files_partialPath _ _) (fun _ hl => hl) _ size)
  rw [openTransfer]
  dsimp only
  split
  · rename_i e w heq
    rw [heq] at hopened
    exact hopened.trans (markFailure_alters hp rfl)
  · rename_i f w heq
    rw [heq] at hopened
    exact hopened

/-- Removing the markers alters the files of the path. -/
theorem clearFailure_alters (env : Env) (p : Str) (w : World) :
    Alters (env.Files p) (env.Way p) w.fs (w.clearFailure env p).fs := by
  have hexists := (metadata_fs env w (env.failedPath p)).1
  rw [clearFailure]
  split
  · rename_i w₁ heq
    rw [heq] at hexists
    rw [← hexists]
    exact removeFile_alters _ (files_failedPath _ _)
  · rename_i w₁ heq
    rw [heq] at hexists
    rw [hexists]
    exact .refl _ _ _

/-- **Publishing** the file. -/
theorem publish_alters (hp : Accepted p) (wk : Worker) :
    Alters (env.Files p) (env.Way p) wk.world.fs (publish env wk p).world.fs := by
  have hrename := rename_alters (D := env.Way p) wk.world (files_partialPath env p)
    (files_finalPath _ _) (hp.locate_ne env).1
  rw [publish]
  split
  · rename_i e w heq
    rw [heq] at hrename
    exact hrename.trans (abandon_alters hp rfl)
  · rename_i w heq
    rw [heq] at hrename
    have hcleared := clearFailure_alters env p (w.logDigest env p)
    rw [logDigest_fs] at hcleared
    rw [(resetTransfer_world _ true).1]
    exact hrename.trans hcleared

/-- **Ending** a transfer. -/
theorem finishFile_alters {wk : Worker} (hinv : wk.Inv env) (hp : wk.state.filePath = some p) :
    Alters (env.Files p) (env.Way p) wk.world.fs (finishFile env wk).world.fs := by
  have hacc := hinv.accepted p hp
  have hlast := (outputFrame_alters (D := env.Way p) (f := ⟨env.partialPath p⟩)
    (files_partialPath env p)).finalizeLast (hinv.output p hp) p
  simp only [finishFile, hp]
  split
  · exact hlast.trans (abandon_alters hacc rfl)
  · exact hlast.trans (publish_alters hacc _)

end Handlers

/-! ### Steps and runs -/

/-- The places of the paths that satisfy `P`. -/
def Env.FilesOf (env : Env) (P : Str → Prop) (l : Location) : Prop :=
  ∃ p, P p ∧ Accepted p ∧ env.Files p l

/-- The ways to their directories. -/
def Env.WaysOf (env : Env) (P : Str → Prop) (l : Location) : Prop :=
  ∃ p, P p ∧ Accepted p ∧ env.Way p l

/-- What alters the files of one path alters the files of some. -/
theorem Alters.of_path {env : Env} {P : Str → Prop} {p : Str} {t t' : Tree} (hp : P p)
    (hacc : Accepted p) (h : Alters (env.Files p) (env.Way p) t t') :
    Alters (env.FilesOf P) (env.WaysOf P) t t' :=
  h.mono (fun _ hl => ⟨p, hp, hacc, hl⟩) fun _ hl => ⟨p, hp, hacc, hl⟩

/-- The fewer paths, the fewer files. -/
theorem Alters.of_paths {env : Env} {P Q : Str → Prop} {t t' : Tree}
    (h : Alters (env.FilesOf P) (env.WaysOf P) t t') (hPQ : ∀ p, P p → Q p) :
    Alters (env.FilesOf Q) (env.WaysOf Q) t t' :=
  h.mono (fun _ hl => hl.imp fun p hp => ⟨hPQ p hp.1, hp.2⟩)
    fun _ hl => hl.imp fun p hp => ⟨hPQ p hp.1, hp.2⟩

section Runs

variable {env : Env} {wk : Worker}

/-- What an announcement in between does to the transfer in progress. -/
theorem preempt_alters (hinv : wk.Inv env) :
    Alters (env.FilesOf (wk.state.filePath = some ·)) (env.WaysOf (wk.state.filePath = some ·))
      wk.world.fs (preempt env wk).world.fs := by
  rw [preempt]
  split
  · exact .refl _ _ _
  · rename_i prev hprev
    exact .of_path hprev (hinv.accepted prev hprev)
      (abandon_alters (hinv.accepted prev hprev) rfl)

/-- An announcement. -/
theorem handleStart_alters (hinv : wk.Inv env) {raw : Bytes} {packet : Packet}
    (hdecode : decodePacket raw = some packet) (hstart : packet.pkgType = pkgTypeStart) :
    Alters (env.FilesOf fun p => wk.state.filePath = some p ∨ Announces raw p)
      (env.WaysOf fun p => wk.state.filePath = some p ∨ Announces raw p)
      wk.world.fs (handleStart env wk packet).world.fs := by
  have hpreempt := (preempt_alters hinv).of_paths (Q := fun p =>
    wk.state.filePath = some p ∨ Announces raw p) fun _ => Or.inl
  rw [handleStart, newFile]
  split
  · exact .refl _ _ _
  dsimp only
  split
  · rw [(rejectStart_world _ _ _).1]
    exact hpreempt
  rename_i hsafe
  split
  · rw [(rejectStart_world _ _ _).1]
    exact hpreempt
  · rename_i hnul
    have hacc : Accepted (Utf8.fromUtf8Lossy packet.data) := ⟨by simpa using hsafe, hnul⟩
    exact hpreempt.trans ((openTransfer_alters hacc _ _ _ _).of_path
      (Or.inr ⟨packet, hdecode, hstart, rfl⟩) hacc)

/-- One datagram. -/
theorem handlePacket_alters (hinv : wk.Inv env) (raw : Bytes) :
    Alters (env.FilesOf fun p => wk.state.filePath = some p ∨ Announces raw p)
      (env.WaysOf fun p => wk.state.filePath = some p ∨ Announces raw p)
      wk.world.fs (handlePacket env wk raw).world.fs := by
  have hcurrent : ∀ {p : Str} {t : Tree}, wk.state.filePath = some p →
      Alters (env.Files p) (env.Way p) wk.world.fs t →
      Alters (env.FilesOf fun p => wk.state.filePath = some p ∨ Announces raw p)
        (env.WaysOf fun p => wk.state.filePath = some p ∨ Announces raw p) wk.world.fs t :=
    fun hp h => h.of_path (Or.inl hp) (hinv.accepted _ hp)
  rw [handlePacket]
  split
  · exact .refl _ _ _
  rename_i packet hdecode
  rw [dispatch]
  split
  · rename_i hstart
    exact handleStart_alters hinv hdecode hstart
  split
  · rename_i hdata
    obtain ⟨p, hp⟩ := Option.isSome_iff_exists.mp hdata.2
    have hframe := outputFrame_alters (D := env.Way p) (files_partialPath env p)
    exact hcurrent hp (hframe.handleData (hinv.output p hp) packet)
  split
  · rename_i hparity
    obtain ⟨p, hp⟩ := Option.isSome_iff_exists.mp hparity.2
    have hframe := outputFrame_alters (D := env.Way p) (files_partialPath env p)
    exact hcurrent hp (hframe.handleParity (hinv.output p hp) packet)
  split
  · rename_i hend
    obtain ⟨p, hp⟩ := Option.isSome_iff_exists.mp hend.2
    exact hcurrent hp (finishFile_alters hinv hp)
  split <;> exact .refl _ _ _

/-- **The footprint of any run**: from a reachable state, whatever arrives and whatever the
operating system fails, files come, change and go only at the three places of the path in progress
and of the accepted paths announced on the way; directories are made on the ways to these only, and
no directory is ever lost. -/
theorem run_alters (hinv : wk.Inv env) (raws : List Bytes) :
    Alters (env.FilesOf fun p => wk.state.filePath = some p ∨ ∃ raw ∈ raws, Announces raw p)
      (env.WaysOf fun p => wk.state.filePath = some p ∨ ∃ raw ∈ raws, Announces raw p)
      wk.world.fs (run env wk raws).world.fs := by
  induction raws generalizing wk with
  | nil => exact .refl _ _ _
  | cons raw raws ih =>
      obtain ⟨hinv', hpath⟩ := hinv.handlePacket raw
      refine ((handlePacket_alters hinv raw).of_paths fun p hp => ?_).trans
        ((ih hinv').of_paths fun p hp => ?_)
      · exact hp.imp_right fun hp => ⟨raw, List.mem_cons_self, hp⟩
      · rcases hp with hp | ⟨raw', hraw', hp⟩
        · exact (hpath p hp).imp_right fun hp => ⟨raw, List.mem_cons_self, hp⟩
        · exact Or.inr ⟨raw', List.mem_cons_of_mem _ hraw', hp⟩

end Runs

/-- **What a run can change in the tree.** Between two moments of any run, whatever arrives and
whatever the operating system fails: no directory is lost; what is different at a place is a file of
a path that was in progress or is announced, and accepted, or a new directory on the way to such a
file; and there are no other new directories. -/
theorem run_footprint (env : Env) (fs : Tree) (before raws : List Bytes) (l : Location) :
    let wk := run env (.new fs) before
    let node := wk.world.fs.node l
    let node' := (run env wk raws).world.fs.node l
    let touched := fun p =>
      (wk.state.filePath = some p ∨ ∃ raw ∈ raws, Announces raw p) ∧ Accepted p
    (node = some .dir → node' = some .dir) ∧
      (node' = some .dir → node = some .dir ∨ ∃ p, touched p ∧ l <+: env.dir p) ∧
      (node' ≠ node → (∃ p, touched p ∧ (l = env.locate (env.finalPath p) ∨
          l = env.locate (env.partialPath p) ∨ l = env.locate (env.failedPath p))) ∨
        node = none ∧ node' = some .dir) := by
  intro wk node node' touched
  have hinv : wk.Inv env := (Worker.Inv.of_new rfl).run before
  have halters := run_alters hinv raws
  refine ⟨halters.kept l, fun hdir => ?_, fun hne => ?_⟩
  · refine (halters.made l hdir).imp_right fun hway => ?_
    obtain ⟨p, hp, hacc, hprefix⟩ := hway
    exact ⟨p, ⟨hp, hacc⟩, hprefix⟩
  · by_cases hfile : env.FilesOf
        (fun p => wk.state.filePath = some p ∨ ∃ raw ∈ raws, Announces raw p) l
    · obtain ⟨p, hp, hacc, hplace⟩ := hfile
      exact Or.inl ⟨p, ⟨hp, hacc⟩, hplace⟩
    · rcases halters.elsewhere l hfile with hsame | ⟨hnone, hdir, -⟩
      · exact absurd hsame hne
      · exact Or.inr ⟨hnone, hdir⟩

end DataDiode
