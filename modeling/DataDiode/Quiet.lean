import DataDiode.Invariant

/-!
# A Quiet Operating System

What the calls and the handlers leave when the operating system fails nothing of its own
accord and nothing is in the way of the files of a path (`Unobstructed`).

While a transfer is in progress, the tree is a fixed base with one more file: the file under
reception (`Holds`). Opening a transfer establishes that, writing keeps it, and publishing the
file ends it.

## Main results

* `openTransfer_ok`: an unobstructed transfer is opened, with a zeroed file of the announced
  size.
* `writeAll_ok`, `seek_ok`: writing into the file under reception.
* `publish_ok`: the file under reception becomes the received file, and no marker stays.
-/

namespace DataDiode

open UnixPath World

/-- Nothing is in the way of the three files of a path: the path can name a file, no directory
is where one of the files belongs, and no file where a directory is needed. -/
structure Unobstructed (env : Env) (t : Tree) (p : Str) : Prop where
  file : demandsDir p = false
  final : t.node (env.locate (env.finalPath p)) ≠ some .dir
  reception : t.node (env.locate (env.partialPath p)) ≠ some .dir
  marker : t.node (env.locate (env.failedPath p)) ≠ some .dir
  way : t.Open (env.locate env.outputDir ++ dirNames p)

/-- A tree ready for the file under reception: its directory is there, and neither the received
file nor a marker. -/
structure Ready (env : Env) (base : Tree) (p : Str) : Prop where
  file : demandsDir p = false
  dir : base.node (env.locate env.outputDir ++ dirNames p) = some .dir
  final : base.node (env.locate (env.finalPath p)) = none
  marker : base.node (env.locate (env.failedPath p)) = none

/-- The tree is `base` with the file under reception, holding `data`. -/
def Holds (env : Env) (base : Tree) (p : Str) (data : Bytes) (t : Tree) : Prop :=
  t.node = Function.update base.node (env.locate (env.partialPath p)) (some (.file data))

namespace World

variable {env : Env}

/-- A call the operating system does not fail. -/
theorem call_ok (henv : env.NoFaults) {w : World} {c : FsCall} {undone : ℕ → Tree → Tree}
    {act : Tree → Except IoError Tree} {t : Tree} (h : act w.fs = .ok t) :
    w.call env c undone act = (.ok (), { w with calls := w.calls ++ [c], fs := t }) := by
  rw [call, henv]
  simp only
  rw [h]

/-- A call that the file system refuses leaves the tree as it is. -/
theorem call_error (henv : env.NoFaults) {w : World} {c : FsCall} {undone : ℕ → Tree → Tree}
    {act : Tree → Except IoError Tree} {e : IoError} (h : act w.fs = .error e) :
    w.call env c undone act = (.error e, { w with calls := w.calls ++ [c] }) := by
  rw [call, henv]
  simp only
  rw [h]

/-- A path of a file is no path of a directory. -/
theorem onFile_of_file {p : Path} (h : demandsDir p = false)
    (act : Location → Except IoError Tree) : onFile env p act = act (env.locate p) := by
  rw [onFile, h, if_neg Bool.false_ne_true]

/-- Where no directory is, removing a file leaves nothing. -/
theorem removeFile_ok (henv : env.NoFaults) (w : World) {p : Path} (hp : demandsDir p = false)
    (hnode : w.fs.node (env.locate p) ≠ some .dir) :
    (w.removeFile env p).2.fs.node = Function.update w.fs.node (env.locate p) none := by
  rw [removeFile]
  cases h : w.fs.node (env.locate p) with
  | none =>
      have hc : w.fs.contents (env.locate p) = none := by rw [FileTree.contents, h]
      have hunlink : onFile env p (fun l => w.fs.unlink l) =
          .error (w.fs.unreachable (env.locate p)) := by
        rw [onFile_of_file hp, FileTree.unlink, dif_neg hnode, hc]
        rfl
      rw [call_error henv hunlink, ← h, Function.update_eq_self]
  | some node =>
      cases node with
      | dir => exact absurd h hnode
      | file d =>
          obtain ⟨t, ht, hnode'⟩ := FileTree.unlink_of_file h
          rw [call_ok henv (t := t) (by rw [onFile_of_file hp]; exact ht)]
          exact hnode'

/-- `create_dir_all` succeeds where nothing but directories is on the way. -/
theorem createDirAll_ok (henv : env.NoFaults) (w : World) {p : Path}
    (h : w.fs.Open (env.locate p)) :
    ∃ t, w.fs.mkdirAll (env.locate p) = .ok t ∧ w.createDirAll env p =
      (.ok (), { w with calls := w.calls ++ [.createDirAll p], fs := t }) := by
  obtain ⟨t, ht⟩ := FileTree.exists_mkdirAll h
  exact ⟨t, ht, call_ok henv ht⟩

/-- Opening a file succeeds where one may be, and empties it. -/
theorem openWrite_ok (henv : env.NoFaults) (w : World) {p : Path} (hp : demandsDir p = false)
    (h : w.fs.Admits (env.locate p)) :
    ∃ w', w.openWrite env p true = (.ok ⟨p⟩, w') ∧ w'.fs.node =
      Function.update w.fs.node (env.locate p) (some (.file [])) := by
  obtain ⟨t, ht, hnode⟩ := FileTree.create_of_admits h true
  have hcreate : onFile env p (fun l => w.fs.create l true) = .ok t := by
    rw [onFile_of_file hp]
    exact ht
  rw [openWrite, call_ok henv hcreate]
  exact ⟨_, rfl, hnode⟩

/-- `set_len` succeeds on a file, and cuts or fills it up. -/
theorem setLen_ok (henv : env.NoFaults) (w : World) {f : File} {d : Bytes}
    (h : w.fs.node (env.locate f.path) = some (.file d)) (size : ℕ) :
    ∃ w', w.setLen env f size = (.ok (), w') ∧ w'.fs.node =
      Function.update w.fs.node (env.locate f.path) (some (.file (Slices.resize size d))) := by
  obtain ⟨t, ht, hnode⟩ := FileTree.modify_of_file h (Slices.resize size)
  rw [setLen, call_ok henv ht]
  exact ⟨_, rfl, hnode⟩

/-- Moving the cursor succeeds. -/
theorem seek_ok (henv : env.NoFaults) (w : World) (f : File) (offset : ℕ) :
    w.seek env f offset = (.ok (), { w with
      calls := w.calls ++ [.seek f.path offset], cursor := offset }) := by
  rw [seek, call_ok henv (t := w.fs) rfl]

/-- Writing into the file under reception. -/
theorem writeAll_ok (henv : env.NoFaults) {w : World} {base : Tree} {p : Str} {d : Bytes}
    (h : Holds env base p d w.fs) (chunk : Bytes) :
    ∃ w', w.writeAll env ⟨env.partialPath p⟩ chunk = (.ok (), w') ∧
      Holds env base p (Slices.overwrite d w.cursor chunk) w'.fs ∧
      w'.cursor = w.cursor + chunk.length ∧
      w'.calls = w.calls ++ [.write (env.partialPath p) w.cursor chunk.length] := by
  have hfile : w.fs.node (env.locate (env.partialPath p)) = some (.file d) := by
    rw [h, Function.update_self]
  obtain ⟨t, ht, hnode⟩ := FileTree.modify_of_file hfile
    (fun d => Slices.overwrite d w.cursor chunk)
  have hput : putAt env ⟨env.partialPath p⟩ w.cursor chunk w.fs = t := by
    rw [putAt, ht]
    rfl
  have hact : Except.ok (putAt env ⟨env.partialPath p⟩ w.cursor chunk w.fs) =
      (Except.ok t : Except IoError Tree) := by
    rw [hput]
  rw [writeAll, call_ok henv hact]
  refine ⟨_, rfl, ?_, rfl, rfl⟩
  rw [Holds, hnode, h, Function.update_idem]

end World

/-! ### Opening a transfer -/

section Opening

variable {env : Env} {p : Str}

/-- The location of the received file, next to the file under reception. -/
theorem Accepted.locate_finalPath_eq (env : Env) (hp : Accepted p) (hfile : demandsDir p = false) :
    env.locate (env.finalPath p) = env.locate env.outputDir ++ dirNames p ++ [lastPart p] := by
  rw [hp.locate_finalPath, names_eq_of_demandsDir hfile, List.append_assoc]

/-- The partial file is beside the file itself. -/
theorem Accepted.locate_partialPath_eq (env : Env) (hp : Accepted p) :
    env.locate (env.partialPath p) =
      env.locate env.outputDir ++ dirNames p ++ [lastPart p ++ partialSuffix] := by
  rw [hp.locate_partialPath, partialNames, List.append_assoc]

/-- The marker is beside the file itself. -/
theorem Accepted.locate_failedPath_eq (env : Env) (hp : Accepted p) :
    env.locate (env.failedPath p) =
      env.locate env.outputDir ++ dirNames p ++ [lastPart p ++ failedSuffix] := by
  rw [hp.locate_failedPath, failedNames, List.append_assoc]

/-- The directory of the file under reception is made. -/
theorem createParent_ok (henv : env.NoFaults) (hp : Accepted p) (w : World)
    (hway : w.fs.Open (env.locate env.outputDir ++ dirNames p)) :
    ∃ w', w.createParent env (env.partialPath p) = (.ok (), w') ∧
      w'.fs.node (env.locate env.outputDir ++ dirNames p) = some .dir ∧
      ∀ l, ¬l <+: env.locate env.outputDir ++ dirNames p → w'.fs.node l = w.fs.node l := by
  have hinside := hp.inside_partialPath env
  obtain ⟨q, hq⟩ := hinside.exists_parent
  have hloc : env.locate q = env.locate env.outputDir ++ dirNames p := (hinside.parent hq).locate
  obtain ⟨t, ht, hcall⟩ := createDirAll_ok henv w (p := q) (by rwa [hloc])
  obtain ⟨hdir, hrest⟩ := FileTree.mkdirAll_eq_ok ht
  rw [hloc] at hdir hrest
  refine ⟨{ w with calls := w.calls ++ [.createDirAll q], fs := t },
    by rw [createParent, hq]; exact hcall, hdir, fun l hl => ?_⟩
  rcases hrest l with h | ⟨-, -, h⟩
  · exact h
  · exact absurd h hl

/-- A file next to the file under reception is no part of the way to it. -/
theorem not_prefix_dir {loc : Location} {n : Name} : ¬loc ++ [n] <+: loc := by
  intro h
  have := h.length_le
  rw [List.length_append, List.length_singleton] at this
  omega

/-- The old files of a path are removed, and nothing else. -/
theorem removeOld_ok (henv : env.NoFaults) (hp : Accepted p) {w w₁ w₂ w₃ : World}
    (hun : Unobstructed env w.fs p) (hw₁ : w₁ = (w.removeFile env (env.finalPath p)).2)
    (hw₂ : w₂ = (w₁.removeFile env (env.partialPath p)).2)
    (hw₃ : w₃ = (w₂.removeFile env (env.failedPath p)).2) (l : Location) :
    w₃.fs.node l = if l = env.locate (env.finalPath p) ∨
      l = env.locate (env.partialPath p) ∨ l = env.locate (env.failedPath p) then none
      else w.fs.node l := by
  obtain ⟨hne₁, hne₂, hne₃⟩ := hp.locate_ne env
  have hr₁ := removeFile_ok henv w (p := env.finalPath p)
    (by rw [Env.finalPath, demandsDir_join]; exact hun.file) hun.final
  rw [← hw₁] at hr₁
  have hr₂ := removeFile_ok henv w₁ (p := env.partialPath p) (demandsDir_partialPath env p)
    (by rw [hr₁, Function.update_of_ne hne₁]; exact hun.reception)
  rw [← hw₂] at hr₂
  have hr₃ := removeFile_ok henv w₂ (p := env.failedPath p) (demandsDir_failedPath env p)
    (by rw [hr₂, Function.update_of_ne hne₃.symm, hr₁, Function.update_of_ne hne₂]
        exact hun.marker)
  rw [hw₃, hr₃, hr₂, hr₁]
  simp only [Function.update_apply]
  split_ifs <;> simp_all

/-- The file under reception is opened where none of the three files is. -/
theorem openOutputFile_ok (henv : env.NoFaults) (hp : Accepted p)
    (hfile : demandsDir p = false) {w : World}
    (hway : w.fs.Open (env.locate env.outputDir ++ dirNames p))
    (hfinal : w.fs.node (env.locate (env.finalPath p)) = none)
    (hpart : w.fs.node (env.locate (env.partialPath p)) = none)
    (hfailed : w.fs.node (env.locate (env.failedPath p)) = none) (size : ℕ) :
    ∃ w' base, w.openOutputFile env p size = (.ok ⟨env.partialPath p⟩, w') ∧
      Ready env base p ∧ Holds env base p (List.replicate size 0) w'.fs := by
  obtain ⟨w₁, hparent, hdir, hkeep⟩ := createParent_ok henv hp w hway
  have hfinal₁ : w₁.fs.node (env.locate (env.finalPath p)) = none := by
    rw [hkeep _ (by rw [hp.locate_finalPath_eq env hfile]; exact not_prefix_dir), hfinal]
  have hpart₁ : w₁.fs.node (env.locate (env.partialPath p)) = none := by
    rw [hkeep _ (by rw [hp.locate_partialPath_eq]; exact not_prefix_dir), hpart]
  have hfailed₁ : w₁.fs.node (env.locate (env.failedPath p)) = none := by
    rw [hkeep _ (by rw [hp.locate_failedPath_eq]; exact not_prefix_dir), hfailed]
  have hadmits : w₁.fs.Admits (env.locate (env.partialPath p)) := by
    refine ⟨?_, by rw [hpart₁]; simp⟩
    rw [hp.locate_partialPath_eq, List.dropLast_concat]
    exact hdir
  obtain ⟨w₂, hopen, hnode₂⟩ := openWrite_ok henv w₁ (demandsDir_partialPath env p) hadmits
  have hready : Ready env w₁.fs p := ⟨hfile, hdir, hfinal₁, hfailed₁⟩
  rw [openOutputFile, hparent]
  simp only
  rw [hopen]
  simp only
  by_cases hsize : 0 < size
  · obtain ⟨w₃, hlen, hnode₃⟩ := setLen_ok henv w₂ (f := ⟨env.partialPath p⟩) (d := [])
      (by rw [hnode₂, Function.update_self]) size
    rw [if_pos hsize, hlen]
    refine ⟨w₃, w₁.fs, rfl, hready, ?_⟩
    rw [Holds, hnode₃, hnode₂, Function.update_idem, Slices.resize_nil]
    rfl
  · rw [if_neg hsize]
    refine ⟨w₂, w₁.fs, rfl, hready, ?_⟩
    rw [Holds, hnode₂, show size = 0 by omega]
    rfl

/-- **An unobstructed transfer is opened**: the old files of the path are gone, and the file
under reception holds zeros in the announced size. -/
theorem openTransfer_ok (henv : env.NoFaults) (hp : Accepted p) {wk : Worker}
    (hnew : wk.state = .new) (hun : Unobstructed env wk.world.fs p) (size : ℕ) (pathHash : Bytes)
    (parityPerBatch : ℕ) :
    (openTransfer env wk p size pathHash parityPerBatch).state =
        .opened env p size pathHash parityPerBatch ∧
      (openTransfer env wk p size pathHash parityPerBatch).stats = wk.stats ∧
      ∃ base, Ready env base p ∧ Holds env base p (List.replicate size 0)
        (openTransfer env wk p size pathHash parityPerBatch).world.fs := by
  set w₁ := (wk.world.removeFile env (env.finalPath p)).2 with hw₁
  set w₂ := (w₁.removeFile env (env.partialPath p)).2 with hw₂
  set w₃ := (w₂.removeFile env (env.failedPath p)).2 with hw₃
  have hgone := removeOld_ok henv hp hun hw₁ hw₂ hw₃
  have hway : w₃.fs.Open (env.locate env.outputDir ++ dirNames p) := by
    intro l hl
    rw [hgone l]
    split
    · exact Or.inl rfl
    · exact hun.way l hl
  obtain ⟨w₄, base, houtput, hready, hholds⟩ := openOutputFile_ok henv hp hun.file hway
    (by rw [hgone, if_pos (Or.inl rfl)]) (by rw [hgone, if_pos (Or.inr (Or.inl rfl))])
    (by rw [hgone, if_pos (Or.inr (Or.inr rfl))]) size
  simp only [openTransfer, ← hw₁, ← hw₂, ← hw₃, houtput, true_and]
  exact ⟨by rw [hnew]; rfl, base, hready, hholds⟩

end Opening

/-! ### Reading changes nothing -/

namespace World

variable (env : Env) (w : World)

/-- A call that only reads leaves the tree, whether it succeeds or fails. -/
theorem call_fs_of_read {c : FsCall} {act : Tree → Except IoError Tree}
    (hact : ∀ t t', act t = .ok t' → t' = t) : (w.call env c (fun _ t => t) act).2.fs = w.fs := by
  rw [call]
  split
  · rfl
  · split
    · rename_i t ht
      exact hact _ _ ht
    · rfl

/-- Looking at the metadata leaves the tree alone. -/
theorem metadata_fs (p : Path) :
    (w.pathExists env p).2.fs = w.fs ∧ (w.fileLen env p).2.fs = w.fs := by
  have h : (w.call env (.metadata p) (fun _ t => t) fun t => .ok t).2.fs = w.fs :=
    call_fs_of_read env w fun t t' ht => (Except.ok.inj ht).symm
  rw [pathExists, fileLen]
  constructor <;> split <;>
    · rename_i w' heq
      rw [heq] at h
      exact h

/-- Reading a file for its digest leaves the tree alone. -/
theorem sha256File_fs (p : Path) : (w.sha256File env p).2.fs = w.fs := by
  have hopen : (w.call env (.openRead p) (fun _ t => t) fun t => onFile env p fun l =>
      if (t.contents l).isSome then .ok t else .error (t.unreachable l)).2.fs = w.fs :=
    call_fs_of_read env w fun t t' h => by
      rw [onFile] at h
      split at h
      · exact absurd h (by simp)
      · split at h
        · exact (Except.ok.inj h).symm
        · exact absurd h (by simp)
  rw [sha256File]
  split
  · rename_i e w₁ heq
    rwa [heq] at hopen
  · rename_i w₁ heq
    rw [heq] at hopen
    have hread : (w₁.call env (.read p) (fun _ t => t) fun t => .ok t).2.fs = w₁.fs :=
      call_fs_of_read env w₁ fun t t' ht => (Except.ok.inj ht).symm
    split
    · rename_i e w₂ heq₂
      rw [heq₂] at hread
      exact hread.trans hopen
    · rename_i w₂ heq₂
      rw [heq₂] at hread
      exact hread.trans hopen

/-- Logging a digest leaves the tree alone. -/
theorem logDigest_fs (p : Str) : (w.logDigest env p).fs = w.fs := by
  have hdigest := sha256File_fs env w (env.finalPath p)
  rw [logDigest]
  split
  · rename_i contents w₁ heq
    rw [heq] at hdigest
    exact (metadata_fs env w₁ _).2.trans hdigest
  · rename_i e w₁ heq
    rw [heq] at hdigest
    exact hdigest

end World

/-! ### Ending a transfer -/

section Ending

variable {env : Env} {p : Str}

/-- A transfer that is given up counts as failed. -/
theorem abandon_stats {wk : Worker} (h : wk.state.filePath.isSome) (q : Str) :
    (abandon env wk q).stats = { wk.stats with filesFailed := wk.stats.filesFailed + 1 } := by
  obtain ⟨p, hp⟩ := Option.isSome_iff_exists.mp h
  simp only [abandon, resetTransfer, hp]
  rfl

/-- Giving up the earlier transfer counts no file as transferred. -/
theorem preempt_filesTransferred (env : Env) (wk : Worker) :
    (preempt env wk).stats.filesTransferred = wk.stats.filesTransferred := by
  rw [preempt]
  split
  · rfl
  · rename_i prev hprev
    rw [abandon_stats (by
      change wk.state.filePath.isSome
      rw [hprev]
      rfl)]
    rfl

/-- Where no marker is, none is removed. -/
theorem clearFailure_fs (henv : env.NoFaults) (w : World)
    (h : w.fs.node (env.locate (env.failedPath p)) = none) : (w.clearFailure env p).fs = w.fs := by
  rw [clearFailure, pathExists, call_ok henv (t := w.fs) rfl]
  simp only
  rw [h]
  rfl

/-- **Publishing** the file under reception: the received file holds what was written, and
neither a partial file nor a marker stays. -/
theorem publish_ok (henv : env.NoFaults) (hp : Accepted p) {wk : Worker} {base : Tree}
    {d : Bytes} (hpath : wk.state.filePath = some p) (hready : Ready env base p)
    (hholds : Holds env base p d wk.world.fs) :
    (publish env wk p).state = .new ∧
      (publish env wk p).stats =
        { wk.stats with filesTransferred := wk.stats.filesTransferred + 1 } ∧
      (publish env wk p).world.fs.contents (env.locate (env.finalPath p)) = some d ∧
      (publish env wk p).world.fs.node (env.locate (env.partialPath p)) = none ∧
      (publish env wk p).world.fs.node (env.locate (env.failedPath p)) = none := by
  obtain ⟨hne₁, hne₂, hne₃⟩ := hp.locate_ne env
  have hdir : wk.world.fs.node (env.locate env.outputDir ++ dirNames p) = some .dir := by
    rw [hholds, Function.update_of_ne, hready.dir]
    intro h
    rw [hp.locate_partialPath_eq] at h
    exact not_prefix_dir ⟨[], by rw [List.append_nil]; exact h.symm⟩
  have hadmits : wk.world.fs.Admits (env.locate (env.finalPath p)) := by
    constructor
    · rw [hp.locate_finalPath_eq env hready.file, List.dropLast_concat]
      exact hdir
    · rw [hholds, Function.update_of_ne hne₁.symm, hready.final]
      simp
  have hsource : wk.world.fs.node (env.locate (env.partialPath p)) = some (.file d) := by
    rw [hholds, Function.update_self]
  obtain ⟨t, ht, hnode⟩ := FileTree.rename_of_file hsource hne₁ hadmits
  have hact : onFile env (env.finalPath p)
      (fun l => wk.world.fs.rename (env.locate (env.partialPath p)) l) = .ok t := by
    rw [onFile_of_file (by rw [Env.finalPath, demandsDir_join]; exact hready.file)]
    exact ht
  have hmarker : t.node (env.locate (env.failedPath p)) = none := by
    rw [hnode, Function.update_of_ne hne₃.symm, Function.update_of_ne hne₂, hholds,
      Function.update_of_ne hne₃.symm, hready.marker]
  have hquiet : ∀ w : World, w.fs = t → ((w.logDigest env p).clearFailure env p).fs = t := by
    intro w hw
    have hlog := logDigest_fs env w p
    rw [clearFailure_fs henv _ (by rw [hlog, hw]; exact hmarker), hlog, hw]
  have hresult : (publish env wk p).state = .new ∧
      (publish env wk p).stats =
        { wk.stats with filesTransferred := wk.stats.filesTransferred + 1 } ∧
      (publish env wk p).world.fs = t := by
    rw [publish, World.rename, World.call_ok henv hact]
    simp only [resetTransfer, hpath, if_true, true_and]
    exact hquiet _ rfl
  obtain ⟨hstate, hstats, hworld⟩ := hresult
  refine ⟨hstate, hstats, ?_, ?_, ?_⟩
  · rw [hworld, FileTree.contents_eq_some_iff, hnode, Function.update_of_ne hne₁.symm,
      Function.update_self]
  · rw [hworld, hnode, Function.update_self]
  · rw [hworld, hmarker]

end Ending

end DataDiode
