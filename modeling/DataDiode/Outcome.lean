import DataDiode.Quiet

/-!
# How Transfers End

The outcome of a transfer, whatever the operating system fails besides unlinking an existing file
and creating a failure marker. A transfer ends when another file is announced, or at its END
packet, or it is announced and cannot be opened (`Ends`). A clean end leaves no file under
reception, and either the received file, counted as transferred, or a failure marker, counted as
failed (`CleanEnd`).

The ends are not all clean: an announced file whose size cannot be set stays behind under
reception, because the failed opening has created it already.

## Main results

* `markFailure_spec`, `abandon_spec`: what marking a failure and giving a transfer up leave.
* `openOutputFile_spec`: what a failed opening leaves, by the call it fails at.
* `Worker.Receiving.run`: between two packets, the file in progress has no failure marker.
* `run_ends_clean_iff`: which ends are clean, in every run.
-/

namespace DataDiode

open UnixPath World

/-- Unlinking an existing file does not fail. -/
def Env.Unlinks (env : Env) : Prop := ∀ n p, env.faults n (.removeFile p) = none

/-! ### Calls the operating system may fail -/

namespace World

variable {env : Env} {w w' : World}

/-- A call that is let through does what the tree prescribes. -/
theorem call_of_no_fault {c : FsCall} (h : env.faults w.calls.length c = none)
    (undone : ℕ → Tree → Tree) (act : Tree → Except IoError Tree) :
    (∃ t, act w.fs = .ok t ∧ (w.call env c undone act).1 = .ok () ∧
        (w.call env c undone act).2.fs = t) ∨
      ∃ e, act w.fs = .error e ∧ (w.call env c undone act).1 = .error e ∧
        (w.call env c undone act).2.fs = w.fs := by
  rw [call, h]
  cases act w.fs with
  | ok t => exact Or.inl ⟨t, rfl, rfl, rfl⟩
  | error e => exact Or.inr ⟨e, rfl, rfl, rfl⟩

/-- A call that succeeds does what the tree prescribes. -/
theorem call_eq_ok {c : FsCall} {undone : ℕ → Tree → Tree} {act : Tree → Except IoError Tree}
    (h : w.call env c undone act = (.ok (), w')) : act w.fs = .ok w'.fs := by
  rw [call] at h
  split at h
  · exact absurd h (by simp)
  · split at h
    · rename_i hact
      rw [Prod.mk.injEq] at h
      rw [hact, ← h.2]
    · exact absurd h (by simp)

/-- A call that fails, and leaves no work half done, leaves the tree. -/
theorem call_eq_error {c : FsCall} {act : Tree → Except IoError Tree} {e : IoError}
    (h : w.call env c (fun _ t => t) act = (.error e, w')) : w'.fs = w.fs := by
  rw [call] at h
  split at h
  · rw [Prod.mk.injEq] at h
    rw [← h.2]
  · split at h
    · exact absurd h (by simp)
    · rw [Prod.mk.injEq] at h
      rw [← h.2]

/-- Removing a file changes nothing else, and removes no directory. -/
theorem removeFile_node (env : Env) (w : World) (p : Path) (l : Location) :
    (w.removeFile env p).2.fs.node l = w.fs.node l ∨
      (l = env.locate p ∧ w.fs.node l ≠ some .dir ∧
        (w.removeFile env p).2.fs.node l = none) := by
  rw [removeFile]
  generalize hcall : w.call env (.removeFile p) (fun _ t => t)
    (fun t => onFile env p fun l => t.unlink l) = r
  obtain ⟨r, w'⟩ := r
  cases r with
  | error e => exact Or.inl (by rw [call_eq_error hcall])
  | ok _ =>
      have hact := call_eq_ok hcall
      rw [onFile] at hact
      split at hact
      · exact absurd hact (by simp)
      · obtain ⟨⟨d, hfile⟩, hnode⟩ := FileTree.unlink_eq_ok hact
        by_cases hl : l = env.locate p
        · exact Or.inr ⟨hl, by rw [hl, hfile]; simp, by rw [hnode, hl, Function.update_self]⟩
        · exact Or.inl (by rw [hnode, Function.update_of_ne hl])

/-- A file that can be unlinked is gone afterwards. -/
theorem removeFile_contents (henv : env.Unlinks) (w : World) {p : Path}
    (hp : demandsDir p = false) :
    (w.removeFile env p).2.fs.contents (env.locate p) = none := by
  rcases call_of_no_fault (w := w) (henv w.calls.length p) (fun _ t => t)
    (fun t => onFile env p fun l => t.unlink l) with ⟨t, hact, -, hfs⟩ | ⟨e, hact, -, hfs⟩
  · rw [onFile_of_file hp] at hact
    rw [removeFile, hfs, FileTree.contents, (FileTree.unlink_eq_ok hact).2, Function.update_self]
  · rw [onFile_of_file hp] at hact
    rw [removeFile, hfs]
    cases hcontents : w.fs.contents (env.locate p) with
    | none => rfl
    | some d =>
        obtain ⟨t, ht, -⟩ := FileTree.unlink_of_file (FileTree.contents_eq_some_iff.mp hcontents)
        rw [ht] at hact
        exact absurd hact (by simp)

/-- Where no directory is, nothing is left. -/
theorem removeFile_gone (henv : env.Unlinks) (w : World) {p : Path} (hp : demandsDir p = false)
    (hdir : w.fs.node (env.locate p) ≠ some .dir) :
    (w.removeFile env p).2.fs.node (env.locate p) = none := by
  have hcontents := removeFile_contents henv w hp
  rcases removeFile_node env w p (env.locate p) with hsame | ⟨-, -, hnone⟩
  · rcases hnode : w.fs.node (env.locate p) with _ | _ | d
    · rw [hsame, hnode]
    · exact absurd hnode hdir
    · rw [FileTree.contents, hsame, hnode] at hcontents
      exact absurd hcontents (by simp)
  · exact hnone

/-- Directories are made on the way to a path only, and nothing else changes. -/
theorem createDirAll_node (env : Env) (w : World) (p : Path) (l : Location) :
    (w.createDirAll env p).2.fs.node l = w.fs.node l ∨
      w.fs.node l = none ∧ (w.createDirAll env p).2.fs.node l = some .dir ∧
        l <+: env.locate p := by
  have hmade : ∀ {t : Tree} {k : Location}, k <+: env.locate p → w.fs.mkdirAll k = .ok t →
      t.node l = w.fs.node l ∨ w.fs.node l = none ∧ t.node l = some .dir ∧ l <+: env.locate p := by
    intro t k hk ht
    rcases (FileTree.mkdirAll_eq_ok ht).2 l with h | ⟨hnone, hdir, hl⟩
    · exact Or.inl h
    · exact Or.inr ⟨hnone, hdir, hl.trans hk⟩
  rw [createDirAll, call]
  split
  · rename_i fault _
    dsimp only
    cases ht : w.fs.mkdirAll ((env.locate p).take fault.progress) with
    | error e => exact Or.inl rfl
    | ok t => exact hmade (List.take_prefix _ _) ht
  · split
    · rename_i t ht
      exact hmade (List.prefix_refl _) ht
    · exact Or.inl rfl

/-- A successful open has a place for the file, and makes it. -/
theorem openWrite_eq_ok {p : Path} {truncate : Bool} {f : File}
    (h : w.openWrite env p truncate = (.ok f, w')) :
    w.fs.Admits (env.locate p) ∧ ∃ d,
      w'.fs.node = Function.update w.fs.node (env.locate p) (some (.file d)) := by
  rw [openWrite] at h
  split at h
  · rename_i w₁ hcall
    rw [Prod.mk.injEq] at h
    have hact := call_eq_ok hcall
    rw [onFile] at hact
    split at hact
    · exact absurd hact (by simp)
    · obtain ⟨hadmits, hnode⟩ := FileTree.create_eq_ok hact
      rw [← h.2]
      exact ⟨hadmits, _, hnode⟩
  · exact absurd h (by simp)

/-- A file that cannot be opened is left as it is. -/
theorem openWrite_eq_error {p : Path} {truncate : Bool} {e : IoError}
    (h : w.openWrite env p truncate = (.error e, w')) : w'.fs = w.fs := by
  rw [openWrite] at h
  split at h
  · exact absurd h (by simp)
  · rename_i e' w₁ hcall
    rw [Prod.mk.injEq] at h
    rw [← h.2]
    exact call_eq_error hcall

/-- A file whose length cannot be set is left as it is. -/
theorem setLen_eq_error {f : File} {size : ℕ} {e : IoError}
    (h : w.setLen env f size = (.error e, w')) : w'.fs = w.fs :=
  call_eq_error h

end World

/-! ### The directory of a path -/

/-- The directory the files of a path are in. -/
def Env.dir (env : Env) (p : Str) : Location := env.locate env.outputDir ++ dirNames p

section Places

variable {env : Env} {p : Str}

/-- The marker is beside the file. -/
theorem dropLast_locate_failedPath (hp : Accepted p) :
    (env.locate (env.failedPath p)).dropLast = env.dir p := by
  rw [hp.locate_failedPath_eq, List.dropLast_concat, Env.dir]

/-- The file under reception and the marker are not on the way to their directory. -/
theorem not_prefix_dir_of_suffix (env : Env) (hp : Accepted p) :
    ¬env.locate (env.partialPath p) <+: env.dir p ∧
      ¬env.locate (env.failedPath p) <+: env.dir p := by
  rw [hp.locate_partialPath_eq, hp.locate_failedPath_eq, Env.dir]
  exact ⟨not_prefix_dir, not_prefix_dir⟩

/-- The directory the receiver makes for a file of the path. -/
theorem locate_parent_partialPath (hp : Accepted p) {q : Path}
    (h : parent (env.partialPath p) = some q) : env.locate q = env.dir p :=
  ((hp.inside_partialPath env).parent h).locate

/-- The directory of the marker is that of the file. -/
theorem locate_parent_failedPath (hp : Accepted p) {q : Path}
    (h : parent (env.failedPath p) = some q) : env.locate q = env.dir p :=
  ((hp.inside_failedPath env).parent h).locate

/-- A path that demands a directory is the directory of its own files. -/
theorem locate_finalPath_of_demandsDir (hp : Accepted p) (h : demandsDir p = true) :
    env.locate (env.finalPath p) = env.dir p := by
  rw [hp.locate_finalPath, names_eq_dirNames hp.plain h, Env.dir]

end Places

/-! ### Marking a failure -/

namespace World

/-- Make the failure marker: the part of `markFailure` after the received file is removed. -/
def createMarker (env : Env) (w : World) (p : Str) : Except IoError File × World :=
  let w :=
    match parent (env.failedPath p) with
    | some dir => (w.createDirAll env dir).2
    | none => w
  w.openWrite env (env.failedPath p) false

/-- The marker is left once the file itself is removed. -/
theorem markFailure_eq (env : Env) (w : World) (p : Str) :
    w.markFailure env p = ((w.removeFile env (env.finalPath p)).2.createMarker env p).2 := rfl

/-- **Marking a failure works**: the marker can be created. -/
def Marks (env : Env) (w : World) (p : Str) : Prop :=
  ∃ f, ((w.removeFile env (env.finalPath p)).2.createMarker env p).1 = .ok f

variable {env : Env} {p : Str}

/-- What creating a marker leaves. -/
theorem createMarker_spec (hp : Accepted p) {w w' : World} {f : File}
    (h : w.createMarker env p = (.ok f, w')) :
    w'.fs.node (env.dir p) = some .dir ∧ (w'.fs.contents (env.locate (env.failedPath p))).isSome ∧
      ∀ l, l ≠ env.locate (env.failedPath p) → w'.fs.node l = w.fs.node l ∨
        w.fs.node l = none ∧ w'.fs.node l = some .dir ∧ l <+: env.dir p := by
  obtain ⟨q, hq⟩ := (hp.inside_failedPath env).exists_parent
  rw [createMarker, hq] at h
  obtain ⟨hadmits, d, hnode⟩ := openWrite_eq_ok h
  have hne : env.dir p ≠ env.locate (env.failedPath p) := fun e =>
    (not_prefix_dir_of_suffix env hp).2 (by rw [← e])
  refine ⟨?_, ?_, fun l hl => ?_⟩
  · rw [hnode, Function.update_of_ne hne, ← dropLast_locate_failedPath hp]
    exact hadmits.1
  · rw [FileTree.contents_eq_some_iff.mpr (by rw [hnode, Function.update_self])]
    rfl
  · rw [hnode, Function.update_of_ne hl, ← locate_parent_failedPath hp hq]
    exact createDirAll_node env w q l

/-- The log has no say in what a call does. -/
theorem error_call (w : World) (text : Text) (c : FsCall) (undone : ℕ → Tree → Tree)
    (act : Tree → Except IoError Tree) : (w.error text).call env c undone act =
      ((w.call env c undone act).1, (w.call env c undone act).2.error text) := by
  simp only [call, World.error, logAt]
  split
  · rfl
  · split <;> rfl

/-- An error message does not change what `remove_file` does. -/
theorem error_removeFile (w : World) (text : Text) (q : Path) :
    ((w.error text).removeFile env q).2 = (w.removeFile env q).2.error text := by
  rw [removeFile, error_call]
  rfl

/-- An error message does not change what `create_dir_all` does. -/
theorem error_createDirAll (w : World) (text : Text) (q : Path) :
    ((w.error text).createDirAll env q).2 = (w.createDirAll env q).2.error text := by
  rw [createDirAll, error_call]
  rfl

/-- An error message does not change whether a file can be opened. -/
theorem error_openWrite (w : World) (text : Text) (q : Path) (truncate : Bool) :
    ((w.error text).openWrite env q truncate).1 = (w.openWrite env q truncate).1 := by
  rw [openWrite, openWrite, error_call]
  generalize w.call env _ _ _ = r
  obtain ⟨r, w'⟩ := r
  cases r <;> rfl

/-- An error message does not change whether the marker can be left. -/
theorem Marks.error {w : World} (h : w.Marks env p) (text : Text) : (w.error text).Marks env p := by
  obtain ⟨f, hf⟩ := h
  refine ⟨f, ?_⟩
  rw [createMarker] at hf ⊢
  rw [error_removeFile, ← hf]
  cases parent (env.failedPath p) with
  | none => exact error_openWrite _ _ _ _
  | some dir =>
      dsimp only
      rw [error_createDirAll]
      exact error_openWrite _ _ _ _

/-- **What marking a failure leaves**: the marker, and not the file. -/
theorem markFailure_spec (henv : env.Unlinks) (hp : Accepted p) {w : World}
    (hmarks : w.Marks env p) :
    (w.markFailure env p).fs.contents (env.locate (env.finalPath p)) = none ∧
      ((w.markFailure env p).fs.contents (env.locate (env.failedPath p))).isSome ∧
      (w.markFailure env p).fs.node (env.locate (env.partialPath p)) =
        w.fs.node (env.locate (env.partialPath p)) := by
  obtain ⟨hne₁, hne₂, hne₃⟩ := hp.locate_ne env
  obtain ⟨f, hf⟩ := hmarks
  rw [markFailure_eq]
  generalize hcreate : (w.removeFile env (env.finalPath p)).2.createMarker env p = r at hf ⊢
  obtain ⟨r, w'⟩ := r
  obtain rfl : r = .ok f := hf
  obtain ⟨hdir, hmarker, hrest⟩ := createMarker_spec hp hcreate
  refine ⟨?_, hmarker, ?_⟩
  · cases hdemands : demandsDir p with
    | true =>
        rw [locate_finalPath_of_demandsDir hp hdemands, FileTree.contents, hdir]
    | false =>
        have hgone := removeFile_contents henv w (p := env.finalPath p)
          (by rw [Env.finalPath, demandsDir_join]; exact hdemands)
        rw [FileTree.contents] at hgone ⊢
        rcases hrest _ hne₂.symm with hsame | ⟨-, hmade, -⟩
        · rw [hsame]
          exact hgone
        · rw [hmade]
  · rcases hrest _ hne₃ with hsame | ⟨-, -, hstarts⟩
    · rcases removeFile_node env w (env.finalPath p) (env.locate (env.partialPath p)) with
        hkeep | ⟨heq, -⟩
      · exact hsame.trans hkeep
      · exact absurd heq hne₁
    · exact absurd hstarts (not_prefix_dir_of_suffix env hp).1

end World

/-- **What giving a transfer up leaves**: its marker only, and one more failure counted. -/
theorem abandon_spec {env : Env} {p : Str} (henv : env.Unlinks) (hp : Accepted p) {wk : Worker}
    (hactive : wk.state.filePath.isSome)
    (hdir : wk.world.fs.node (env.locate (env.partialPath p)) ≠ some .dir)
    (hmarks : (wk.world.removeFile env (env.partialPath p)).2.Marks env p) :
    (abandon env wk p).world.fs.node (env.locate (env.partialPath p)) = none ∧
      (abandon env wk p).world.fs.contents (env.locate (env.finalPath p)) = none ∧
      ((abandon env wk p).world.fs.contents (env.locate (env.failedPath p))).isSome ∧
      (abandon env wk p).stats = { wk.stats with filesFailed := wk.stats.filesFailed + 1 } := by
  have hfs : (abandon env wk p).world.fs =
      ((wk.world.removeFile env (env.partialPath p)).2.markFailure env p).fs :=
    (resetTransfer_world _ false).1
  obtain ⟨hfinal, hmarker, hpart⟩ := markFailure_spec henv hp hmarks
  rw [hfs]
  exact ⟨hpart.trans (removeFile_gone henv wk.world (demandsDir_partialPath env p) hdir), hfinal,
    hmarker, abandon_stats hactive p⟩

/-! ### Opening a transfer -/

namespace World

/-- Remove the old files of a path: the first steps of `openTransfer`. -/
def removeOld (env : Env) (w : World) (p : Str) : World :=
  let w := (w.removeFile env (env.finalPath p)).2
  let w := (w.removeFile env (env.partialPath p)).2
  (w.removeFile env (env.failedPath p)).2

/-- Opening the file under reception fails at its last call: the file has been created, and its
size cannot be set. -/
def FailsAtSetLen (env : Env) (w : World) (p : Str) (size : ℕ) : Prop :=
  ∃ w₁ w₂ w₃ f e, w.createParent env (env.partialPath p) = (.ok (), w₁) ∧
    w₁.openWrite env (env.partialPath p) true = (.ok f, w₂) ∧ 0 < size ∧
    w₂.setLen env f size = (.error e, w₃)

variable {env : Env} {p : Str}

/-- The file under reception is removed where no directory is, and so is an old marker. -/
theorem removeOld_spec (henv : env.Unlinks) (hp : Accepted p) (w : World) :
    ((w.removeOld env p).fs.node (env.locate (env.partialPath p)) =
      if w.fs.node (env.locate (env.partialPath p)) = some .dir then some .dir else none) ∧
    (w.removeOld env p).fs.contents (env.locate (env.failedPath p)) = none := by
  obtain ⟨hne₁, hne₂, hne₃⟩ := hp.locate_ne env
  refine ⟨?_, removeFile_contents henv _ (demandsDir_failedPath env p)⟩
  rw [removeOld]
  set w₁ := (w.removeFile env (env.finalPath p)).2
  set w₂ := (w₁.removeFile env (env.partialPath p)).2
  have hfirst : w₁.fs.node (env.locate (env.partialPath p)) =
      w.fs.node (env.locate (env.partialPath p)) := by
    rcases removeFile_node env w (env.finalPath p) (env.locate (env.partialPath p)) with h | h
    · exact h
    · exact absurd h.1 hne₁
  have hlast : (w₂.removeFile env (env.failedPath p)).2.fs.node (env.locate (env.partialPath p)) =
      w₂.fs.node (env.locate (env.partialPath p)) := by
    rcases removeFile_node env w₂ (env.failedPath p) (env.locate (env.partialPath p)) with h | h
    · exact h
    · exact absurd h.1 hne₃
  rw [hlast]
  split
  · rename_i hdir
    rcases removeFile_node env w₁ (env.partialPath p) (env.locate (env.partialPath p)) with
      hsame | ⟨-, hfile, -⟩
    · rw [hsame, hfirst, hdir]
    · exact absurd (hfirst.trans hdir) hfile
  · rename_i hdir
    exact removeFile_gone henv w₁ (demandsDir_partialPath env p) (by rwa [hfirst])

/-- What making the directory of the file under reception leaves. -/
theorem createParent_node (hp : Accepted p) {w w' : World} {r : Except IoError Unit}
    (h : w.createParent env (env.partialPath p) = (r, w')) (l : Location) :
    w'.fs.node l = w.fs.node l ∨
      w.fs.node l = none ∧ w'.fs.node l = some .dir ∧ l <+: env.dir p := by
  obtain ⟨q, hq⟩ := (hp.inside_partialPath env).exists_parent
  have hmade := createDirAll_node env w q l
  rw [createParent, hq] at h
  dsimp only at h
  rwa [h, locate_parent_partialPath hp hq] at hmade

/-- Making the directory of the file under reception changes nothing outside the way to it. -/
theorem createParent_node_eq (hp : Accepted p) {w w' : World} {r : Except IoError Unit}
    (h : w.createParent env (env.partialPath p) = (r, w')) {l : Location}
    (hl : ¬l <+: env.dir p) : w'.fs.node l = w.fs.node l := by
  rcases createParent_node hp h l with hsame | ⟨-, -, hprefix⟩
  · exact hsame
  · exact absurd hprefix hl

/-- What an open file under reception leaves, with the size it is announced with. -/
theorem setLen_node {w w' : World} {f : File} {size : ℕ}
    (h : w.setLen env f size = (.ok (), w')) :
    ∃ d, w'.fs.node = Function.update w.fs.node (env.locate f.path) (some (.file d)) := by
  obtain ⟨d, -, hnode⟩ := FileTree.modify_eq_ok (call_eq_ok h)
  exact ⟨_, hnode⟩

/-- **How opening the file under reception ends**: before the file is created, or behind it. -/
theorem openOutputFile_cases {w w' : World} {size : ℕ} {r : Except IoError File}
    (h : w.openOutputFile env p size = (r, w')) :
    (¬(r.isOk ∨ w.FailsAtSetLen env p size) ∧
      ∃ r' w₁, w.createParent env (env.partialPath p) = (r', w₁) ∧ w'.fs = w₁.fs) ∨
    ((r.isOk ∨ w.FailsAtSetLen env p size) ∧
      ∃ w₁ w₂ f, w.createParent env (env.partialPath p) = (.ok (), w₁) ∧
        w₁.openWrite env (env.partialPath p) true = (.ok f, w₂) ∧
        (w'.fs = w₂.fs ∨ w₂.setLen env f size = (.ok (), w'))) := by
  have herror : ∀ e : IoError, ¬(Except.error e : Except IoError File).isOk :=
    fun e => by simp [Except.isOk, Except.toBool]
  rw [openOutputFile] at h
  split at h
  · rename_i e w₁ hparent
    obtain ⟨rfl, rfl⟩ := Prod.mk.inj h
    refine Or.inl ⟨fun hor => ?_, _, w₁, hparent, rfl⟩
    rcases hor with hok | ⟨_, _, _, _, _, hparent', -⟩
    · exact herror e hok
    · rw [hparent] at hparent'
      exact absurd hparent' (by simp)
  rename_i w₁ hparent
  split at h
  · rename_i e w₂ hopen
    obtain ⟨rfl, rfl⟩ := Prod.mk.inj h
    refine Or.inl ⟨fun hor => ?_, _, w₁, hparent, openWrite_eq_error hopen⟩
    rcases hor with hok | ⟨_, _, _, _, _, hparent', hopen', -⟩
    · exact herror e hok
    · rw [hparent] at hparent'
      obtain ⟨-, rfl⟩ := Prod.mk.inj hparent'
      rw [hopen] at hopen'
      exact absurd hopen' (by simp)
  rename_i f w₂ hopen
  right
  split at h
  · rename_i hsize
    split at h
    · rename_i e w₃ hlen
      obtain ⟨rfl, rfl⟩ := Prod.mk.inj h
      exact ⟨Or.inr ⟨w₁, w₂, w₃, f, e, hparent, hopen, hsize, hlen⟩, w₁, w₂, f, hparent, hopen,
        Or.inl (setLen_eq_error hlen)⟩
    · rename_i w₃ hlen
      obtain ⟨rfl, rfl⟩ := Prod.mk.inj h
      exact ⟨Or.inl rfl, w₁, w₂, f, hparent, hopen, Or.inr hlen⟩
  · obtain ⟨rfl, rfl⟩ := Prod.mk.inj h
    exact ⟨Or.inl rfl, w₁, w₂, f, hparent, hopen, Or.inl rfl⟩

/-- **What opening the file under reception leaves**: the file, if it is opened; the file as well,
if its size cannot be set; and nothing in all other cases. A marker stays where it is. -/
theorem openOutputFile_spec (hp : Accepted p) {w w' : World} {size : ℕ}
    {r : Except IoError File} (h : w.openOutputFile env p size = (r, w')) :
    (w'.fs.node (env.locate (env.failedPath p)) = w.fs.node (env.locate (env.failedPath p))) ∧
    (r.isOk ∨ w.FailsAtSetLen env p size →
      ∃ d, w'.fs.node (env.locate (env.partialPath p)) = some (.file d)) ∧
    (¬(r.isOk ∨ w.FailsAtSetLen env p size) →
      w'.fs.node (env.locate (env.partialPath p)) =
        w.fs.node (env.locate (env.partialPath p))) := by
  have hne := (hp.locate_ne env).2.2
  obtain ⟨hpart, hfailed⟩ := not_prefix_dir_of_suffix env hp
  rcases openOutputFile_cases h with ⟨hnot, r', w₁, hparent, hfs⟩ |
    ⟨hor, w₁, w₂, f, hparent, hopen, hlen⟩
  · rw [hfs]
    exact ⟨createParent_node_eq hp hparent hfailed, fun hor => absurd hor hnot,
      fun _ => createParent_node_eq hp hparent hpart⟩
  · obtain ⟨-, d, hnode⟩ := openWrite_eq_ok hopen
    have hmarker : w₂.fs.node (env.locate (env.failedPath p)) =
        w.fs.node (env.locate (env.failedPath p)) := by
      rw [hnode, Function.update_of_ne hne.symm, createParent_node_eq hp hparent hfailed]
    rcases hlen with hfs | hlen
    · rw [hfs]
      exact ⟨hmarker, fun _ => ⟨d, by rw [hnode, Function.update_self]⟩,
        fun hnot => absurd hor hnot⟩
    · obtain ⟨d', hnode'⟩ := setLen_node hlen
      rw [openWrite_file hopen] at hnode'
      rw [hnode']
      exact ⟨by rw [Function.update_of_ne hne.symm, hmarker],
        fun _ => ⟨d', by rw [Function.update_self]⟩, fun hnot => absurd hor hnot⟩

end World

/-! ### The file in progress -/

/-- From `w` to `w'`, nothing but the file under reception changed, and no directory took its
place. -/
def OnlyReception (env : Env) (p : Str) (w w' : World) : Prop :=
  (∀ l, l ≠ env.locate (env.partialPath p) → w'.fs.node l = w.fs.node l) ∧
    (w.fs.node (env.locate (env.partialPath p)) ≠ some .dir →
      w'.fs.node (env.locate (env.partialPath p)) ≠ some .dir)

/-- Moving the cursor changes no file. -/
theorem seek_fs (env : Env) (w : World) (f : File) (offset : ℕ) :
    (w.seek env f offset).2.fs = w.fs := by
  rw [seek]
  split
  · rename_i w₁ hcall
    exact (Except.ok.inj (call_eq_ok hcall)).symm
  · rename_i e w₁ hcall
    exact call_eq_error hcall

/-- Bytes put into the file under reception. -/
theorem putAt_onlyReception (env : Env) (p : Str) (pos : ℕ) (chunk : Bytes) {w w' : World}
    (h : w'.fs = putAt env ⟨env.partialPath p⟩ pos chunk w.fs) : OnlyReception env p w w' := by
  rw [putAt] at h
  cases hmodify : w.fs.modify (env.locate (env.partialPath p))
      fun d => Slices.overwrite d pos chunk with
  | error e =>
      rw [hmodify] at h
      exact ⟨fun l _ => by rw [h]; rfl, fun hdir => by rw [h]; exact hdir⟩
  | ok t =>
      rw [hmodify] at h
      obtain ⟨d, -, hnode⟩ := FileTree.modify_eq_ok hmodify
      have hnode' : w'.fs.node = Function.update w.fs.node (env.locate (env.partialPath p))
          (some (.file (Slices.overwrite d pos chunk))) := by rw [h]; exact hnode
      exact ⟨fun l hl => by rw [hnode', Function.update_of_ne hl],
        fun _ => by rw [hnode', Function.update_self]; simp⟩

/-- A chunk that is written goes to the partial file. -/
theorem writeAll_onlyReception (env : Env) (p : Str) (w : World) (chunk : Bytes) :
    OnlyReception env p w (w.writeAll env ⟨env.partialPath p⟩ chunk).2 := by
  have hcall : OnlyReception env p w (w.call env (.write (env.partialPath p) w.cursor chunk.length)
      (fun k t => putAt env ⟨env.partialPath p⟩ w.cursor (chunk.take k) t)
      fun t => .ok (putAt env ⟨env.partialPath p⟩ w.cursor chunk t)).2 := by
    rw [call]
    split <;> exact putAt_onlyReception env p _ _ rfl
  rw [writeAll]
  split
  · rename_i w' heq
    rw [heq] at hcall
    exact hcall
  · rename_i e w' heq
    rw [heq] at hcall
    exact hcall

/-- That is all finalizing a batch does to the tree. -/
theorem outputFrame_onlyReception (env : Env) (p : Str) :
    OutputFrame env ⟨env.partialPath p⟩ (OnlyReception env p) where
  refl _ := ⟨fun _ _ => rfl, fun h => h⟩
  trans h h' := ⟨fun l hl => (h'.1 l hl).trans (h.1 l hl), fun hdir => h'.2 (h.2 hdir)⟩
  congr h hfs _ :=
    ⟨fun l hl => by rw [hfs]; exact h.1 l hl, fun hdir => by rw [hfs]; exact h.2 hdir⟩
  seek w offset := ⟨fun l _ => by rw [seek_fs], fun hdir => by rwa [seek_fs]⟩
  write := writeAll_onlyReception env p

/-- Between two packets, the file in progress has no marker, and no directory is in its place. -/
def Worker.Receiving (env : Env) (wk : Worker) : Prop :=
  ∀ p, wk.state.filePath = some p →
    wk.world.fs.contents (env.locate (env.failedPath p)) = none ∧
      wk.world.fs.node (env.locate (env.partialPath p)) ≠ some .dir

/-- Files next to the file under reception keep their contents. -/
theorem OnlyReception.contents {env : Env} {p : Str} {w w' : World} (h : OnlyReception env p w w')
    {l : Location} (hl : l ≠ env.locate (env.partialPath p)) :
    w'.fs.contents l = w.fs.contents l := by
  rw [FileTree.contents, FileTree.contents, h.1 l hl]

namespace Worker.Receiving

variable {env : Env} {wk : Worker}

/-- Nothing is being received. -/
theorem of_new (h : wk.state = .new) : wk.Receiving env := by
  intro p hp
  rw [h] at hp
  exact absurd hp (by simp [ReceiveState.new])

/-- What goes to the partial file alone keeps the file being received. -/
theorem of_onlyReception (hinv : wk.Inv env) (h : wk.Receiving env) {wk' : Worker} {p : Str}
    (hp : wk.state.filePath = some p) (hsame : wk'.state.filePath = wk.state.filePath)
    (hworld : OnlyReception env p wk.world wk'.world) : wk'.Receiving env := by
  intro q hq
  obtain rfl : p = q := Option.some.inj (hp.symm.trans (hsame ▸ hq))
  obtain ⟨hmarker, hdir⟩ := h p hp
  rw [hworld.contents ((hinv.accepted p hp).locate_ne env).2.2.symm]
  exact ⟨hmarker, hworld.2 hdir⟩

end Worker.Receiving

/-- A transfer that has been opened is one without a marker. -/
theorem openTransfer_receiving {env : Env} (henv : env.Unlinks) {p : Str} (hp : Accepted p)
    {wk : Worker} (hnew : wk.state = .new) (size : ℕ) (pathHash : Bytes) (parityPerBatch : ℕ) :
    (openTransfer env wk p size pathHash parityPerBatch).Receiving env := by
  have hold := (removeOld_spec henv hp wk.world).2
  rw [removeOld] at hold
  rw [openTransfer]
  dsimp only at hold ⊢
  split
  · exact .of_new hnew
  · rename_i f w heq
    obtain ⟨hmarker, hfile, -⟩ := openOutputFile_spec hp heq
    intro q hq
    obtain rfl : p = q := Option.some.inj hq
    obtain ⟨d, hd⟩ := hfile (Or.inl rfl)
    refine ⟨?_, ?_⟩
    · change w.fs.contents _ = none
      rw [FileTree.contents, hmarker]
      exact hold
    · change w.fs.node _ ≠ _
      rw [hd]
      simp

/-- **Every packet** keeps the file in progress free of markers. -/
theorem Worker.Receiving.handlePacket {env : Env} (henv : env.Unlinks) {wk : Worker}
    (hinv : wk.Inv env) (h : wk.Receiving env) (raw : Bytes) :
    (handlePacket env wk raw).Receiving env := by
  rw [DataDiode.handlePacket]
  split
  · exact h
  rename_i packet _
  rw [dispatch]
  split
  · rw [handleStart, newFile]
    split
    · exact h
    dsimp only
    split
    · exact .of_new (rejectStart_state _ _ _)
    rename_i hsafe
    split
    · exact .of_new (rejectStart_state _ _ _)
    · rename_i hnul
      exact openTransfer_receiving henv ⟨by simpa using hsafe, hnul⟩ (preempt_state hinv) _ _ _
  split
  · rename_i hdata
    obtain ⟨p, hp⟩ := Option.isSome_iff_exists.mp hdata.2
    exact h.of_onlyReception hinv hp (handleData_sameTransfer env wk packet).filePath
      ((outputFrame_onlyReception env p).handleData (hinv.output p hp) packet)
  split
  · rename_i hparity
    obtain ⟨p, hp⟩ := Option.isSome_iff_exists.mp hparity.2
    exact h.of_onlyReception hinv hp (handleParity_sameTransfer env wk packet).filePath
      ((outputFrame_onlyReception env p).handleParity (hinv.output p hp) packet)
  split
  · rename_i hend
    obtain ⟨p, hp⟩ := Option.isSome_iff_exists.mp hend.2
    exact .of_new (finishFile_state env hp)
  split <;> exact h

/-- **Every run** keeps the file in progress free of markers. -/
theorem Worker.Receiving.run {env : Env} (henv : env.Unlinks) {wk : Worker} (hinv : wk.Inv env)
    (h : wk.Receiving env) (raws : List Bytes) : (run env wk raws).Receiving env := by
  induction raws generalizing wk with
  | nil => exact h
  | cons raw raws ih => exact ih (hinv.handlePacket raw).1 (h.handlePacket henv hinv raw)

/-! ### Ends -/

/-- The ways a transfer ends, or an attempt at one: the announced file, of a size, cannot be
opened; another file is announced; or the END packet has come. -/
inductive Ending
  | attempt (size : ℕ)
  | preemption
  | finish

/-- **A transfer of `p` ends** in the step that handles `raw`: the worker right before the end and
right after it, before anything else is opened. -/
inductive Ends (env : Env) (wk : Worker) (raw : Bytes) (p : Str) :
    Ending → Worker → Worker → Prop
  | attempt {packet : Packet} {e : IoError} {w : World} (hdecode : decodePacket raw = some packet)
      (hstart : packet.pkgType = pkgTypeStart) (hpath : Utf8.fromUtf8Lossy packet.data = p)
      (hother : wk.state.filePath ≠ some p) (haccepted : Accepted p)
      (hopen : ((preempt env wk).world.removeOld env p).openOutputFile env p packet.count =
        (.error e, w)) :
      Ends env wk raw p (.attempt packet.count) (preempt env wk) (handlePacket env wk raw)
  | preemption {packet : Packet} (hdecode : decodePacket raw = some packet)
      (hstart : packet.pkgType = pkgTypeStart) (hprev : wk.state.filePath = some p)
      (hother : Utf8.fromUtf8Lossy packet.data ≠ p) :
      Ends env wk raw p .preemption wk (preempt env wk)
  | finish {packet : Packet} (hdecode : decodePacket raw = some packet)
      (hend : packet.pkgType = pkgTypeEnd) (hprev : wk.state.filePath = some p) :
      Ends env wk raw p .finish wk (handlePacket env wk raw)

/-- **Creating the failure marker works**, if the end comes to it. -/
def MarkerWorks (env : Env) (p : Str) (before : Worker) : Ending → Prop
  | .attempt size => ∀ e w,
      (before.world.removeOld env p).openOutputFile env p size = (.error e, w) → w.Marks env p
  | .preemption => (before.world.removeFile env (env.partialPath p)).2.Marks env p
  | .finish =>
      ((finalizeLast env before p).state.failed = true →
        ((finalizeLast env before p).world.removeFile env (env.partialPath p)).2.Marks env p) ∧
      ∀ e w, (finalizeLast env before p).world.rename env (env.partialPath p) (env.finalPath p) =
        (.error e, w) → (w.removeFile env (env.partialPath p)).2.Marks env p

/-- The end is spoilt: a file cannot be opened because its size cannot be set, after it has been
created, or because a directory is in the place of the file under reception. -/
def Spoilt (env : Env) (p : Str) (before : Worker) : Ending → Prop
  | .attempt size => (before.world.removeOld env p).FailsAtSetLen env p size ∨
      before.world.fs.node (env.locate (env.partialPath p)) = some .dir
  | .preemption => False
  | .finish => False

/-- **A clean end**: nothing is left under reception; and either the received file is there and
counted as transferred, or its failure marker is there and counted as failed, and the other is
not. -/
structure CleanEnd (env : Env) (p : Str) (before after : Worker) : Prop where
  reception : after.world.fs.node (env.locate (env.partialPath p)) = none
  outcome :
    ((after.world.fs.contents (env.locate (env.finalPath p))).isSome ∧
        after.world.fs.contents (env.locate (env.failedPath p)) = none ∧
        after.stats.filesTransferred = before.stats.filesTransferred + 1 ∧
        after.stats.filesFailed = before.stats.filesFailed) ∨
      after.world.fs.contents (env.locate (env.finalPath p)) = none ∧
        (after.world.fs.contents (env.locate (env.failedPath p))).isSome ∧
        after.stats.filesTransferred = before.stats.filesTransferred ∧
        after.stats.filesFailed = before.stats.filesFailed + 1

section Clean

variable {env : Env} {p : Str}

/-- A START is handled as one. -/
theorem handlePacket_of_start {wk : Worker} {raw : Bytes} {packet : Packet}
    (hdecode : decodePacket raw = some packet) (hstart : packet.pkgType = pkgTypeStart) :
    handlePacket env wk raw = handleStart env wk packet := by
  rw [handlePacket, hdecode]
  exact if_pos hstart

/-- An END of the transfer in progress finishes the file. -/
theorem handlePacket_of_end {wk : Worker} {raw : Bytes} {packet : Packet}
    (hdecode : decodePacket raw = some packet) (hend : packet.pkgType = pkgTypeEnd)
    (hactive : wk.state.filePath = some p) : handlePacket env wk raw = finishFile env wk := by
  rw [handlePacket, hdecode]
  change dispatch env wk packet = _
  rw [dispatch, hend, hactive]
  rfl

/-- A transfer that is given up ends clean. -/
theorem abandon_clean (henv : env.Unlinks) (hp : Accepted p) {wk before : Worker}
    (hactive : wk.state.filePath.isSome)
    (hdir : wk.world.fs.node (env.locate (env.partialPath p)) ≠ some .dir)
    (hmarks : (wk.world.removeFile env (env.partialPath p)).2.Marks env p)
    (htransferred : wk.stats.filesTransferred = before.stats.filesTransferred)
    (hfailed : wk.stats.filesFailed = before.stats.filesFailed) :
    CleanEnd env p before (abandon env wk p) := by
  obtain ⟨hpart, hfinal, hmarker, hstats⟩ := abandon_spec henv hp hactive hdir hmarks
  refine ⟨hpart, Or.inr ⟨hfinal, hmarker, ?_, ?_⟩⟩
  · rw [hstats, htransferred]
  · rw [hstats, hfailed]

/-- A file that cannot be opened ends clean just when it is not left behind. -/
theorem openTransfer_clean_iff (henv : env.Unlinks) (hp : Accepted p) {wk : Worker} {size : ℕ}
    {e : IoError} {w : World} (pathHash : Bytes) (parityPerBatch : ℕ)
    (hopen : (wk.world.removeOld env p).openOutputFile env p size = (.error e, w))
    (hmarks : w.Marks env p) :
    CleanEnd env p wk (openTransfer env wk p size pathHash parityPerBatch) ↔
      ¬Spoilt env p wk (.attempt size) := by
  obtain ⟨hold, -⟩ := removeOld_spec henv hp wk.world
  obtain ⟨-, hleft, hkept⟩ := openOutputFile_spec hp hopen
  obtain ⟨hfinal, hmarker, hpart⟩ := markFailure_spec henv hp (hmarks.error
    [.lit "Failed to open output file ", .display (logSafe p), .lit ": ", .io e])
  have hresult : openTransfer env wk p size pathHash parityPerBatch =
      { wk with
        stats := { wk.stats with filesFailed := wk.stats.filesFailed + 1 }
        world := (w.error [.lit "Failed to open output file ", .display (logSafe p),
          .lit ": ", .io e]).markFailure env p } := by
    rw [removeOld] at hopen
    rw [openTransfer]
    dsimp only
    rw [hopen]
  rw [hresult]
  constructor
  · rintro ⟨hnone, -⟩ hspoilt
    have hnone' := hpart.symm.trans hnone
    rcases hspoilt with hfails | hdir
    · obtain ⟨d, hd⟩ := hleft (Or.inr hfails)
      exact absurd (hd.symm.trans hnone') (by simp)
    · by_cases hfails : (wk.world.removeOld env p).FailsAtSetLen env p size
      · obtain ⟨d, hd⟩ := hleft (Or.inr hfails)
        exact absurd (hd.symm.trans hnone') (by simp)
      · have hkeep := hkept fun hor => hor.elim (fun hok => absurd hok (by
          simp [Except.isOk, Except.toBool])) hfails
        rw [hold, if_pos hdir] at hkeep
        exact absurd (hkeep.symm.trans hnone') (by simp)
  · intro hclean
    have hfails : ¬(wk.world.removeOld env p).FailsAtSetLen env p size :=
      fun h => hclean (Or.inl h)
    have hdir : wk.world.fs.node (env.locate (env.partialPath p)) ≠ some .dir :=
      fun h => hclean (Or.inr h)
    have hkeep := hkept fun hor => hor.elim (fun hok => absurd hok (by
      simp [Except.isOk, Except.toBool])) hfails
    rw [hold, if_neg hdir] at hkeep
    exact ⟨hpart.trans hkeep, Or.inr ⟨hfinal, hmarker, rfl, rfl⟩⟩

/-- Clearing the marker of an earlier failure changes nothing else. -/
theorem clearFailure_node (env : Env) (w : World) (p : Str) (l : Location) :
    (w.clearFailure env p).fs.node l = w.fs.node l ∨
      l = env.locate (env.failedPath p) ∧ (w.clearFailure env p).fs.node l = none := by
  have hexists := (metadata_fs env w (env.failedPath p)).1
  rw [clearFailure]
  split
  · rename_i w₁ heq
    rw [heq] at hexists
    rcases removeFile_node env w₁ (env.failedPath p) l with h | ⟨hl, -, h⟩
    · exact Or.inl (by rw [h, hexists])
    · exact Or.inr ⟨hl, h⟩
  · rename_i w₁ heq
    rw [heq] at hexists
    exact Or.inl (by rw [hexists])

/-- The last steps after the renaming touch the marker only, and leave none. -/
theorem clearFailure_logDigest (env : Env) (w : World) (p : Str) :
    (∀ l, l ≠ env.locate (env.failedPath p) →
      ((w.logDigest env p).clearFailure env p).fs.node l = w.fs.node l) ∧
    (w.fs.contents (env.locate (env.failedPath p)) = none →
      ((w.logDigest env p).clearFailure env p).fs.contents
        (env.locate (env.failedPath p)) = none) := by
  refine ⟨fun l hl => ?_, fun hmarker => ?_⟩
  · rcases clearFailure_node env (w.logDigest env p) p l with h | ⟨h, -⟩
    · rw [h, logDigest_fs]
    · exact absurd h hl
  · rcases clearFailure_node env (w.logDigest env p) p (env.locate (env.failedPath p)) with
      h | ⟨-, h⟩
    · rw [FileTree.contents, h, logDigest_fs]
      exact hmarker
    · rw [FileTree.contents, h]

/-- A transfer whose file has been renamed counts as done. -/
theorem publish_of_renamed {wk : Worker} (hactive : wk.state.filePath = some p) {w : World}
    (h : wk.world.rename env (env.partialPath p) (env.finalPath p) = (.ok (), w)) :
    (publish env wk p).world.fs = ((w.logDigest env p).clearFailure env p).fs ∧
      (publish env wk p).stats =
        { wk.stats with filesTransferred := wk.stats.filesTransferred + 1 } := by
  rw [publish, h]
  refine ⟨(resetTransfer_world _ true).1, ?_⟩
  simp only [resetTransfer, hactive]
  rfl

/-- Publishing a file without a marker ends clean, also when it cannot be renamed. -/
theorem publish_clean (henv : env.Unlinks) (hp : Accepted p) {wk before : Worker}
    (hactive : wk.state.filePath = some p)
    (hmarker : wk.world.fs.contents (env.locate (env.failedPath p)) = none)
    (hdir : wk.world.fs.node (env.locate (env.partialPath p)) ≠ some .dir)
    (hmarks : ∀ e w, wk.world.rename env (env.partialPath p) (env.finalPath p) = (.error e, w) →
      (w.removeFile env (env.partialPath p)).2.Marks env p)
    (htransferred : wk.stats.filesTransferred = before.stats.filesTransferred)
    (hfailed : wk.stats.filesFailed = before.stats.filesFailed) :
    CleanEnd env p before (publish env wk p) := by
  obtain ⟨hne₁, hne₂, hne₃⟩ := hp.locate_ne env
  rcases hrename : wk.world.rename env (env.partialPath p) (env.finalPath p) with ⟨e | ⟨⟩, w⟩
  · have hfs := call_eq_error hrename
    rw [publish, hrename]
    refine abandon_clean henv hp (by simp [hactive]) ?_ ?_ htransferred hfailed
    · change w.fs.node _ ≠ _
      rwa [hfs]
    · change ((w.error _).removeFile env (env.partialPath p)).2.Marks env p
      rw [error_removeFile]
      exact (hmarks e w hrename).error _
  · have hact := call_eq_ok hrename
    rw [onFile] at hact
    split at hact
    · exact absurd hact (by simp)
    obtain ⟨d, -, -, hnode⟩ := FileTree.rename_eq_ok hne₁ hact
    obtain ⟨hkeep, hnone⟩ := clearFailure_logDigest env w p
    obtain ⟨hworld, hstats⟩ := publish_of_renamed hactive hrename
    refine ⟨?_, Or.inl ⟨?_, ?_, ?_, ?_⟩⟩
    · rw [hworld, hkeep _ hne₃, hnode, Function.update_self]
    · rw [hworld, FileTree.contents, hkeep _ hne₂.symm, hnode, Function.update_of_ne hne₁.symm,
        Function.update_self]
      rfl
    · rw [hworld]
      refine hnone ?_
      rw [FileTree.contents, hnode, Function.update_of_ne hne₃.symm, Function.update_of_ne hne₂]
      exact hmarker
    · rw [hstats, htransferred]
    · rw [hstats, hfailed]

/-- Finalizing the last batch leaves the transfer what it is. -/
theorem finalizeLast_sameTransfer (env : Env) (wk : Worker) (p : Str) :
    SameTransfer wk (finalizeLast env wk p) := by
  have h := finalizeCurrentBatch_sameTransfer env wk
  rw [finalizeLast]
  split
  · exact .refl wk
  · split
    · rename_i wk' heq
      rw [heq] at h
      exact h
    · rename_i e wk' heq
      rw [heq] at h
      exact h.trans ⟨rfl, rfl, rfl, rfl, rfl, rfl, rfl⟩

/-- The END packet ends a transfer clean. -/
theorem finishFile_clean (henv : env.Unlinks) {wk : Worker} (hinv : wk.Inv env)
    (hreceiving : wk.Receiving env) (hprev : wk.state.filePath = some p)
    (hmarks : MarkerWorks env p wk .finish) : CleanEnd env p wk (finishFile env wk) := by
  have hp := hinv.accepted p hprev
  obtain ⟨hmarker, hdir⟩ := hreceiving p hprev
  have hworld := (outputFrame_onlyReception env p).finalizeLast (hinv.output p hprev) p
  have hsame := finalizeLast_sameTransfer env wk p
  have hactive := hsame.filePath.trans hprev
  simp only [finishFile, hprev]
  split
  · rename_i hfailed
    refine abandon_clean henv hp ?_ (hworld.2 hdir) (hmarks.1 hfailed) hsame.filesTransferred
      hsame.filesFailed
    simp [hactive]
  · refine publish_clean henv hp hactive ?_ (hworld.2 hdir) hmarks.2 hsame.filesTransferred
      hsame.filesFailed
    exact (hworld.contents (hp.locate_ne env).2.2.symm).trans hmarker

/-- **Every end is clean unless it is spoilt**, and a spoilt end is not. -/
theorem ends_clean_iff (henv : env.Unlinks) {wk before after : Worker} {raw : Bytes}
    {ending : Ending} (hinv : wk.Inv env) (hreceiving : wk.Receiving env)
    (hends : Ends env wk raw p ending before after)
    (hmarks : MarkerWorks env p before ending) :
    CleanEnd env p before after ↔ ¬Spoilt env p before ending := by
  cases hends with
  | @attempt packet e w hdecode hstart hpath hother haccepted hopen =>
      have hresult : handlePacket env wk raw = openTransfer env (preempt env wk) p packet.count
          packet.pathHash ((decodeParityField packet.dataHash).getD 0) := by
        rw [handlePacket_of_start hdecode hstart, handleStart, hpath, newFile, if_neg hother]
        dsimp only
        rw [if_neg (by simp [haccepted.safe]), if_neg haccepted.no_nul]
      rw [hresult]
      exact openTransfer_clean_iff henv haccepted _ _ hopen (hmarks e w hopen)
  | preemption hdecode hstart hprev hother =>
      obtain ⟨-, hdir⟩ := hreceiving p hprev
      have hclean : CleanEnd env p wk (preempt env wk) := by
        simp only [preempt, hprev]
        refine abandon_clean henv (hinv.accepted p hprev) ?_ hdir ?_ rfl rfl
        · change wk.state.filePath.isSome
          simp [hprev]
        · change ((wk.world.error _).removeFile env (env.partialPath p)).2.Marks env p
          rw [error_removeFile]
          exact World.Marks.error hmarks _
      exact ⟨fun _ hspoilt => hspoilt, fun _ => hclean⟩
  | finish hdecode hend hprev =>
      rw [handlePacket_of_end hdecode hend hprev]
      exact ⟨fun _ hspoilt => hspoilt,
        fun _ => finishFile_clean henv hinv hreceiving hprev hmarks⟩

/-- **Nothing else ends a transfer.** -/
theorem exists_ends {wk : Worker} {raw : Bytes} (hprev : wk.state.filePath = some p)
    (hgone : (handlePacket env wk raw).state.filePath ≠ some p) :
    Ends env wk raw p .preemption wk (preempt env wk) ∨
      Ends env wk raw p .finish wk (handlePacket env wk raw) := by
  cases hdecode : decodePacket raw with
  | none =>
      rw [handlePacket, hdecode] at hgone
      exact absurd hprev hgone
  | some packet =>
      by_cases hstart : packet.pkgType = pkgTypeStart
      · refine Or.inl (.preemption hdecode hstart hprev fun hsame => hgone ?_)
        rw [handlePacket_of_start hdecode hstart, handleStart, newFile,
          if_pos (by rw [hprev, hsame])]
        exact hprev
      by_cases hend : packet.pkgType = pkgTypeEnd
      · exact Or.inr (.finish hdecode hend hprev)
      rw [handlePacket, hdecode] at hgone
      refine absurd ?_ hgone
      change (dispatch env wk packet).state.filePath = _
      rw [dispatch, if_neg hstart]
      split
      · exact (handleData_sameTransfer env wk packet).filePath.trans hprev
      split
      · exact (handleParity_sameTransfer env wk packet).filePath.trans hprev
      rw [if_neg fun h => hend h.1]
      split <;> exact hprev

/-- Opening or refusing a transfer counts no file as transferred. -/
theorem newFile_stats (env : Env) (wk : Worker) (path : Str) (size : ℕ) (pathHash : Bytes)
    (parityPerBatch : ℕ) :
    (newFile env wk path size pathHash parityPerBatch).stats.filesTransferred =
        wk.stats.filesTransferred ∧
      (wk.state.filePath = some path ∨
        (preempt env wk).stats.filesFailed ≤
          (newFile env wk path size pathHash parityPerBatch).stats.filesFailed) := by
  have hreject : ∀ (wk : Worker) reason,
      (rejectStart wk reason path).stats.filesTransferred = wk.stats.filesTransferred ∧
        wk.stats.filesFailed ≤ (rejectStart wk reason path).stats.filesFailed := by
    intro wk reason
    rw [rejectStart]
    simp only [resetTransfer]
    split
    · exact ⟨rfl, Nat.le_succ _⟩
    · exact ⟨rfl, (Nat.le_succ _).trans (Nat.le_succ _)⟩
  have htransferred := preempt_filesTransferred env wk
  rw [newFile]
  split
  · rename_i hsame
    exact ⟨rfl, Or.inl hsame⟩
  dsimp only
  split
  · exact ⟨(hreject _ _).1.trans htransferred, Or.inr (hreject _ _).2⟩
  split
  · exact ⟨(hreject _ _).1.trans htransferred, Or.inr (hreject _ _).2⟩
  · rw [openTransfer]
    dsimp only
    split
    · exact ⟨htransferred, Or.inr (Nat.le_succ _)⟩
    · exact ⟨htransferred, Or.inr (le_refl _)⟩

/-- **A transfer that has failed stays failed**: no packet makes it count as transferred, and a
packet that does not keep it in its state ends it as a failure. -/
theorem handlePacket_of_failed {wk : Worker} (hprev : wk.state.filePath = some p)
    (hfailed : wk.state.failed = true) (raw : Bytes) :
    (handlePacket env wk raw).stats.filesTransferred = wk.stats.filesTransferred ∧
      ((handlePacket env wk raw).state = wk.state ∨
        wk.stats.filesFailed < (handlePacket env wk raw).stats.filesFailed) := by
  rw [handlePacket]
  split
  · exact ⟨rfl, Or.inl rfl⟩
  rename_i packet _
  rw [dispatch]
  split
  · rw [handleStart]
    obtain ⟨htransferred, hcount⟩ := newFile_stats env wk
      (Utf8.fromUtf8Lossy packet.data) packet.count packet.pathHash
      ((decodeParityField packet.dataHash).getD 0)
    refine ⟨htransferred, ?_⟩
    rcases hcount with hsame | hle
    · rw [newFile, if_pos hsame]
      exact Or.inl rfl
    · refine Or.inr (Nat.lt_of_lt_of_le ?_ hle)
      simp only [preempt, hprev]
      rw [abandon_stats (by
        change wk.state.filePath.isSome
        simp [hprev])]
      exact Nat.lt_succ_self _
  split
  · rw [handleData, acceptChunk, if_pos hfailed]
    exact ⟨rfl, Or.inl rfl⟩
  split
  · rw [handleParity, acceptChunk, if_pos hfailed]
    exact ⟨rfl, Or.inl rfl⟩
  split
  · have hlast : finalizeLast env wk p = wk := if_pos hfailed
    simp only [finishFile, hprev, hlast, hfailed, if_true]
    rw [abandon_stats (by simp)]
    exact ⟨rfl, Or.inr (Nat.lt_succ_self _)⟩
  split <;> exact ⟨rfl, Or.inl rfl⟩

end Clean

/-- **Which ends are clean, in every run.** Let unlinking not fail. In every state of every run
and for every packet: an end at which the failure marker can be created is clean if and only if it
is not spoilt; and once the transfer in progress has failed, the packet does not make it count as
transferred, and either keeps its state or ends it as a failure. -/
theorem run_ends_clean_iff (env : Env) (henv : env.Unlinks) (fs : Tree) (raws : List Bytes)
    (raw : Bytes) :
    (∀ p ending before after, Ends env (run env (.new fs) raws) raw p ending before after →
      MarkerWorks env p before ending →
        (CleanEnd env p before after ↔ ¬Spoilt env p before ending)) ∧
      ((run env (.new fs) raws).state.failed = true →
        (run env (.new fs) (raws ++ [raw])).stats.filesTransferred =
            (run env (.new fs) raws).stats.filesTransferred ∧
          ((run env (.new fs) (raws ++ [raw])).state = (run env (.new fs) raws).state ∨
            (run env (.new fs) raws).stats.filesFailed <
              (run env (.new fs) (raws ++ [raw])).stats.filesFailed)) := by
  have hstart : (Worker.new fs).Inv env := .of_new rfl
  have hinv := hstart.run raws
  have hreceiving := Worker.Receiving.run henv hstart (.of_new rfl) raws
  refine ⟨fun p ending before after hends hmarks =>
    ends_clean_iff henv hinv hreceiving hends hmarks, fun hfailed => ?_⟩
  rw [run_append]
  cases hprev : (run env (.new fs) raws).state.filePath with
  | none =>
      rw [hinv.idle hprev] at hfailed
      exact absurd hfailed (by simp [ReceiveState.new])
  | some p => exact handlePacket_of_failed hprev hfailed raw

/-- A receiver writing to `/out` on a full disk: no file can be given a size. -/
noncomputable def fullDiskEnv : Env :=
  { referenceEnv with
    faults := fun _ c =>
      match c with
      | .setLen _ _ => some ⟨.os 28, 0⟩
      | _ => none }

/-- The START packet of a file `a`, of a size. -/
def startOfA (size : ℕ) : Bytes :=
  encodePacket pkgTypeStart size emptyHash (encodeParityField 100) [97]

/-- On a full disk a file of one byte is announced: its opening fails, its marker is created, and
the file under reception stays behind. -/
theorem run_ends_left_behind : fullDiskEnv.Unlinks ∧
    Ends fullDiskEnv (run fullDiskEnv (.new referenceTree) []) (startOfA 1) ['a'] (.attempt 1)
      (.new referenceTree) (handlePacket fullDiskEnv (.new referenceTree) (startOfA 1)) ∧
    MarkerWorks fullDiskEnv ['a'] (.new referenceTree) (.attempt 1) ∧
    ¬CleanEnd fullDiskEnv ['a'] (.new referenceTree)
      (handlePacket fullDiskEnv (.new referenceTree) (startOfA 1)) := by
  have hopen : (((Worker.new referenceTree).world.removeOld fullDiskEnv ['a']).openOutputFile
      fullDiskEnv ['a'] 1).1 = .error (.os 28) := by decide
  refine ⟨fun _ _ => rfl, ?_, ?_, fun hclean => ?_⟩
  · have hdecode : decodePacket (startOfA 1) =
        some ⟨pkgTypeStart, 1, emptyHash, encodeParityField 100, [97]⟩ := by decide +kernel
    exact .attempt hdecode rfl (by decide +kernel) (by decide)
      ⟨by decide, by decide⟩ (Prod.ext hopen rfl)
  · intro e w hfail
    have hw := congrArg Prod.snd hfail
    subst hw
    exact ⟨⟨fullDiskEnv.failedPath ['a']⟩, by decide⟩
  · have hleft : (handlePacket fullDiskEnv (.new referenceTree) (startOfA 1)).world.fs.node
        (fullDiskEnv.locate (fullDiskEnv.partialPath ['a'])) ≠ none := by decide
    exact hleft hclean.reception

/-- A receiver writing to `/out` that can create files, but cannot write into them. -/
noncomputable def unwritableEnv : Env :=
  { referenceEnv with
    faults := fun _ c =>
      match c with
      | .write _ _ _ => some ⟨.os 5, 0⟩
      | _ => none }

/-- The START packet of a file `a` of one byte, and its chunk. -/
noncomputable def byteOfA : List Bytes :=
  [startOfA 1, encodePacket pkgTypeData 0 emptyHash (unwritableEnv.md5.hex [98]) [98]]

/-- The worker before the END packet. -/
noncomputable def holdingA : Worker := run unwritableEnv (.new referenceTree) byteOfA

/-- The END packet of a file `a` of one byte. -/
def endOfByte : Bytes := encodePacket pkgTypeEnd 1 emptyHash emptyHash [97]

/-- A file of one byte arrives in full, but writing it fails: its failure marker is a clean end. -/
theorem run_ends_clean_iff_unwritable :
    (finalizeLast unwritableEnv holdingA ['a']).state.failed = true ∧
      CleanEnd unwritableEnv ['a'] holdingA (handlePacket unwritableEnv holdingA endOfByte) := by
  have hdecode : decodePacket endOfByte = some ⟨pkgTypeEnd, 1, emptyHash, emptyHash, [97]⟩ := by
    decide +kernel
  have hrename : ((finalizeLast unwritableEnv holdingA ['a']).world.rename unwritableEnv
      (unwritableEnv.partialPath ['a']) (unwritableEnv.finalPath ['a'])).1 = .ok () := by
    decide +kernel
  refine ⟨by decide +kernel, ((run_ends_clean_iff unwritableEnv (fun _ _ => rfl) referenceTree
    byteOfA endOfByte).1 ['a'] .finish _ _ (.finish hdecode rfl ?_)
      ⟨fun _ => ?_, fun e w h => ?_⟩).mpr id⟩
  · decide +kernel
  · exact ⟨⟨unwritableEnv.failedPath ['a']⟩, by decide +kernel⟩
  · exact absurd (hrename.symm.trans (congrArg Prod.fst h)) (by simp)

end DataDiode
