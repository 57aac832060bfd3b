import DataDiode.Layout

/-!
# What the Receiver Does to the File System

A frame relation between worlds: `Steps env P w w'` says that from `w` to `w'` calls were made
that all satisfy `P`, and that files none of them aims at kept their contents, whatever the
operating system failed. The relation is proved call by call here, and from the calls upwards for
every operation of the receiver on one file.

## Main results

* `call_steps`: one call is one step.
* `markFailure_steps`, `openOutputFile_steps`, `logDigest_steps`, `clearFailure_steps`: the
  operations on the three files of a path make calls about that path only.
-/

namespace DataDiode

open UnixPath World

/-- The paths of the files a call may change. -/
def FsCall.targets : FsCall → List Path
  | .openWrite p _ | .setLen p _ | .write p _ _ | .removeFile p => [p]
  | .rename p q => [p, q]
  | .createDirAll _ | .seek _ _ | .openRead _ | .read _ | .metadata _ => []

/-- Files that none of the paths names keep their contents. -/
def Frames (env : Env) (ps : List Path) (t t' : Tree) : Prop :=
  ∀ l, (∀ p ∈ ps, env.locate p ≠ l) → t'.contents l = t.contents l

/-- Nothing changes. -/
theorem Frames.refl (env : Env) (ps : List Path) (t : Tree) : Frames env ps t t := fun _ _ => rfl

/-- From `w` to `w'`, calls satisfying `P` were made, and nothing else was changed. -/
def Steps (env : Env) (P : FsCall → Prop) (w w' : World) : Prop :=
  ∃ new, w'.calls = w.calls ++ new ∧ (∀ c ∈ new, P c) ∧
    Frames env (new.flatMap FsCall.targets) w.fs w'.fs

namespace Steps

variable {env : Env} {P Q : FsCall → Prop} {w w' w'' : World}

/-- No step at all. -/
theorem refl (P : FsCall → Prop) (w : World) : Steps env P w w :=
  ⟨[], by rw [List.append_nil], by simp, Frames.refl env _ _⟩

/-- One step after the other. -/
theorem trans (h : Steps env P w w') (h' : Steps env P w' w'') : Steps env P w w'' := by
  obtain ⟨new, hcalls, hP, hframe⟩ := h
  obtain ⟨new', hcalls', hP', hframe'⟩ := h'
  refine ⟨new ++ new', by rw [hcalls', hcalls, List.append_assoc], fun c hc => ?_, fun l hl => ?_⟩
  · rcases List.mem_append.mp hc with hc | hc
    · exact hP c hc
    · exact hP' c hc
  · rw [List.flatMap_append] at hl
    rw [hframe' l fun p hp => hl p (List.mem_append_right _ hp),
      hframe l fun p hp => hl p (List.mem_append_left _ hp)]

/-- Steps that make calls of a kind make calls of every wider kind. -/
theorem mono (h : Steps env P w w') (hPQ : ∀ c, P c → Q c) : Steps env Q w w' := by
  obtain ⟨new, hcalls, hP, hframe⟩ := h
  exact ⟨new, hcalls, fun c hc => hPQ c (hP c hc), hframe⟩

/-- Log records and the position of the output file are no steps. -/
theorem congr (h : Steps env P w w') {v : World} (hfs : v.fs = w'.fs)
    (hcalls : v.calls = w'.calls) :
    Steps env P w v := by
  obtain ⟨new, hnew, hP, hframe⟩ := h
  exact ⟨new, by rw [hcalls, hnew], hP, by rw [hfs]; exact hframe⟩

end Steps

/-! ### Single calls -/

namespace World

variable {env : Env}

/-- One call is one step. -/
theorem call_steps (w : World) (c : FsCall) {undone : ℕ → Tree → Tree}
    {act : Tree → Except IoError Tree} (hundone : ∀ k t, Frames env c.targets t (undone k t))
    (hact : ∀ t t', act t = .ok t' → Frames env c.targets t t') {P : FsCall → Prop} (hc : P c) :
    Steps env P w (w.call env c undone act).2 := by
  have hone : [c].flatMap FsCall.targets = c.targets := by
    rw [List.flatMap_singleton]
  have hP : ∀ d ∈ [c], P d := by
    intro d hd
    rwa [List.mem_singleton.mp hd]
  rw [call]
  split
  · exact ⟨[c], rfl, hP, hone ▸ hundone _ _⟩
  · split
    · rename_i h
      exact ⟨[c], rfl, hP, hone ▸ hact _ _ h⟩
    · exact ⟨[c], rfl, hP, Frames.refl env _ _⟩

/-- An act on a file under a path that does not demand a directory. -/
theorem frames_onFile {p : Path} {ps : List Path} {act : Location → Except IoError Tree}
    {t t' : Tree}
    (h : onFile env p act = .ok t') (hact : act (env.locate p) = .ok t' → Frames env ps t t') :
    Frames env ps t t' := by
  rw [onFile] at h
  split at h
  · exact absurd h (by simp)
  · exact hact h

/-- Changing the node at the location of a path changes that file only. -/
theorem frames_update {p : Path} {t t' : Tree} {o : Option (Node UInt8)}
    (h : t'.node = Function.update t.node (env.locate p) o) : Frames env [p] t t' :=
  fun _ hl => FileTree.contents_update_ne h (hl p List.mem_cons_self).symm

variable {P : FsCall → Prop}

/-- `create_dir_all` makes one call. -/
theorem createDirAll_steps (w : World) (p : Path) (hP : P (.createDirAll p)) :
    Steps env P w (w.createDirAll env p).2 := by
  refine call_steps w _ (fun k t l _ => ?_) (fun t t' h l _ => FileTree.mkdirAll_contents h l) hP
  cases h : t.mkdirAll ((env.locate p).take k) with
  | error e => rfl
  | ok t' => exact FileTree.mkdirAll_contents h l

/-- Opening a file for writing is one call. -/
theorem openWrite_steps (w : World) (p : Path) (truncate : Bool)
    (hP : P (.openWrite p truncate)) : Steps env P w (w.openWrite env p truncate).2 := by
  have h : Steps env P w (w.call env (.openWrite p truncate) (fun _ t => t)
      fun t => onFile env p fun l => t.create l truncate).2 :=
    call_steps w _ (fun _ t => Frames.refl env _ t)
      (fun t t' h => frames_onFile h fun h => frames_update (FileTree.create_eq_ok h).2) hP
  rw [openWrite]
  split
  · rename_i w' heq
    rw [heq] at h
    exact h.congr rfl rfl
  · rename_i e w' heq
    rw [heq] at h
    exact h

/-- A successful open yields the file of its path. -/
theorem openWrite_file {w w' : World} {p : Path} {truncate : Bool} {f : File}
    (h : w.openWrite env p truncate = (.ok f, w')) : f = ⟨p⟩ := by
  rw [openWrite] at h
  split at h
  · rw [Prod.mk.injEq, Except.ok.injEq] at h
    exact h.1.symm
  · exact absurd h (by simp)

/-- `set_len` is one call. -/
theorem setLen_steps (w : World) (f : File) (size : ℕ) (hP : P (.setLen f.path size)) :
    Steps env P w (w.setLen env f size).2 := by
  refine call_steps w _ (fun _ t => Frames.refl env _ t) (fun t t' h => ?_) hP
  obtain ⟨d, -, hnode⟩ := FileTree.modify_eq_ok h
  exact frames_update hnode

/-- Moving the cursor is one call. -/
theorem seek_steps (w : World) (f : File) (offset : ℕ) (hP : P (.seek f.path offset)) :
    Steps env P w (w.seek env f offset).2 := by
  have h : Steps env P w (w.call env (.seek f.path offset) (fun _ t => t) fun t => .ok t).2 :=
    call_steps w _ (fun _ t => Frames.refl env _ t)
      (fun t t' h => by rw [Except.ok.inj h]; exact Frames.refl env _ _) hP
  rw [seek]
  split
  · rename_i w' heq
    rw [heq] at h
    exact h.congr rfl rfl
  · rename_i e w' heq
    rw [heq] at h
    exact h

/-- A write changes one file. -/
theorem frames_putAt (f : File) (pos : ℕ) (chunk : Bytes) (t : Tree) :
    Frames env [f.path] t (putAt env f pos chunk t) := by
  rw [putAt]
  cases h : t.modify (env.locate f.path) fun d => Slices.overwrite d pos chunk with
  | error e => exact Frames.refl env _ _
  | ok t' =>
      obtain ⟨d, -, hnode⟩ := FileTree.modify_eq_ok h
      exact frames_update hnode

/-- Writing a chunk is one call. -/
theorem writeAll_steps (w : World) (f : File) (chunk : Bytes)
    (hP : P (.write f.path w.cursor chunk.length)) : Steps env P w (w.writeAll env f chunk).2 := by
  have h : Steps env P w (w.call env (.write f.path w.cursor chunk.length)
      (fun k t => putAt env f w.cursor (chunk.take k) t)
      fun t => .ok (putAt env f w.cursor chunk t)).2 :=
    call_steps w _ (fun k t => frames_putAt f _ _ t)
      (fun t t' h => by rw [← Except.ok.inj h]; exact frames_putAt f _ _ t) hP
  rw [writeAll]
  split
  · rename_i w' heq
    rw [heq] at h
    exact h.congr rfl rfl
  · rename_i e w' heq
    rw [heq] at h
    exact h

/-- `remove_file` is one call. -/
theorem removeFile_steps (w : World) (p : Path) (hP : P (.removeFile p)) :
    Steps env P w (w.removeFile env p).2 :=
  call_steps w (.removeFile p) (fun _ t => Frames.refl env _ t)
    (fun _ _ h => frames_onFile h fun h => frames_update (FileTree.unlink_eq_ok h).2) hP

/-- `rename` is one call. -/
theorem rename_steps (w : World) (p q : Path) (hP : P (.rename p q)) :
    Steps env P w (w.rename env p q).2 := by
  refine call_steps w _ (fun _ t => Frames.refl env _ t) (fun t t' h => ?_) hP
  refine frames_onFile h fun h l hl => ?_
  have hp : l ≠ env.locate p := (hl p List.mem_cons_self).symm
  have hq : l ≠ env.locate q := (hl q (List.mem_cons_of_mem _ List.mem_cons_self)).symm
  by_cases hne : env.locate p = env.locate q
  · rw [hne, FileTree.rename] at h
    split at h
    · exact absurd h (by simp)
    · rw [if_pos rfl, Except.ok.injEq] at h
      rw [h]
  · obtain ⟨d, -, -, hnode⟩ := FileTree.rename_eq_ok hne h
    rw [FileTree.contents, FileTree.contents, hnode, Function.update_of_ne hp,
      Function.update_of_ne hq]

/-- Looking at the metadata is one call. -/
theorem metadata_steps (w : World) (p : Path) (hP : P (.metadata p)) :
    Steps env P w (w.pathExists env p).2 ∧ Steps env P w (w.fileLen env p).2 := by
  have h : Steps env P w (w.call env (.metadata p) (fun _ t => t) fun t => .ok t).2 :=
    call_steps w _ (fun _ t => Frames.refl env _ t)
      (fun t t' h => by rw [Except.ok.inj h]; exact Frames.refl env _ _) hP
  rw [pathExists, fileLen]
  constructor <;> split <;>
    · rename_i w' heq
      rw [heq] at h
      exact h

end World

/-! ### Calls about one file -/

/-- A call about the file of an accepted path: about one of its three files, or about a
directory these are in. -/
def About (env : Env) (p : Str) : FsCall → Prop
  | .createDirAll q => parent (env.partialPath p) = some q ∨ parent (env.failedPath p) = some q
  | c => ∀ q ∈ c.paths, q = env.finalPath p ∨ q = env.partialPath p ∨ q = env.failedPath p

/-- A call that writes into a file. -/
def FsCall.isWrite : FsCall → Bool
  | .write _ _ _ => true
  | _ => false

/-- A call about the file of a path, other than a write into it. -/
def Upkeep (env : Env) (p : Str) (c : FsCall) : Prop := About env p c ∧ c.isWrite = false

namespace World

variable (env : Env) (w : World) (p : Str)

/-- Removing the file itself looks after the files of its path. -/
theorem removeFinal_steps : Steps env (Upkeep env p) w (w.removeFile env (env.finalPath p)).2 :=
  removeFile_steps w _ ⟨fun _ hq => Or.inl (List.mem_singleton.mp hq), rfl⟩

/-- Removing the partial file looks after the files of the path. -/
theorem removePartial_steps :
    Steps env (Upkeep env p) w (w.removeFile env (env.partialPath p)).2 :=
  removeFile_steps w _ ⟨fun _ hq => Or.inr (Or.inl (List.mem_singleton.mp hq)), rfl⟩

/-- Removing the marker looks after the files of the path. -/
theorem removeFailed_steps : Steps env (Upkeep env p) w (w.removeFile env (env.failedPath p)).2 :=
  removeFile_steps w _ ⟨fun _ hq => Or.inr (Or.inr (List.mem_singleton.mp hq)), rfl⟩

/-- Opening one of the three files looks after them. -/
theorem openWrite_about {q : Path} (truncate : Bool)
    (hq : q = env.finalPath p ∨ q = env.partialPath p ∨ q = env.failedPath p) :
    Steps env (Upkeep env p) w (w.openWrite env q truncate).2 :=
  openWrite_steps w q truncate ⟨fun r hr => by rwa [List.mem_singleton.mp hr], rfl⟩

/-- Leaving a failure marker. -/
theorem markFailure_steps : Steps env (Upkeep env p) w (w.markFailure env p) := by
  rw [markFailure]
  refine ((removeFinal_steps env w p).trans ?_).trans
    (openWrite_about env _ p false (Or.inr (Or.inr rfl)))
  split
  · rename_i dir hdir
    exact createDirAll_steps _ _ ⟨Or.inr hdir, rfl⟩
  · exact Steps.refl _ _

/-- Opening the file under reception. -/
theorem openOutputFile_steps (fileSize : ℕ) :
    Steps env (Upkeep env p) w (w.openOutputFile env p fileSize).2 := by
  have hparent : Steps env (Upkeep env p) w (w.createParent env (env.partialPath p)).2 := by
    rw [createParent]
    split
    · rename_i dir hdir
      exact createDirAll_steps _ _ ⟨Or.inl hdir, rfl⟩
    · exact Steps.refl _ _
  rw [openOutputFile]
  split
  · rename_i e w₁ heq
    rwa [heq] at hparent
  rename_i w₁ heq
  rw [heq] at hparent
  have hopen := openWrite_about env w₁ p true (Or.inr (Or.inl (Eq.refl (env.partialPath p))))
  split
  · rename_i e w₂ heq₂
    rw [heq₂] at hopen
    exact hparent.trans hopen
  rename_i f w₂ heq₂
  have hf := openWrite_file heq₂
  rw [heq₂] at hopen
  have hboth := hparent.trans hopen
  split
  · have hlen : Steps env (Upkeep env p) w₂ (w₂.setLen env f fileSize).2 :=
      setLen_steps w₂ f fileSize
        ⟨fun q hq => Or.inr (Or.inl (by rw [List.mem_singleton.mp hq, hf])), rfl⟩
    split
    · rename_i e w₃ heq₃
      rw [heq₃] at hlen
      exact hboth.trans hlen
    · rename_i w₃ heq₃
      rw [heq₃] at hlen
      exact hboth.trans hlen
  · exact hboth

/-- The file opened under reception is the partial file. -/
theorem openOutputFile_file {w' : World} {fileSize : ℕ} {f : File}
    (h : w.openOutputFile env p fileSize = (.ok f, w')) : f = ⟨env.partialPath p⟩ := by
  rw [openOutputFile] at h
  split at h
  · exact absurd h (by simp)
  · split at h
    · exact absurd h (by simp)
    · rename_i g w₂ heq₂
      have hg := openWrite_file heq₂
      split at h
      · split at h
        · exact absurd h (by simp)
        · rw [Prod.mk.injEq, Except.ok.injEq] at h
          rw [← h.1, hg]
      · rw [Prod.mk.injEq, Except.ok.injEq] at h
        rw [← h.1, hg]

/-- A call that only reads. -/
theorem read_steps {c : FsCall} {act : Tree → Except IoError Tree}
    (hact : ∀ t t', act t = .ok t' → t' = t) (hc : Upkeep env p c) :
    Steps env (Upkeep env p) w (w.call env c (fun _ t => t) act).2 :=
  call_steps w c (fun _ t => Frames.refl env _ t)
    (fun t t' h => by rw [hact t t' h]; exact Frames.refl env _ _) hc

/-- Reading a received file. -/
theorem sha256File_steps :
    Steps env (Upkeep env p) w (w.sha256File env (env.finalPath p)).2 := by
  have hopen : Steps env (Upkeep env p) w (w.call env (.openRead (env.finalPath p))
      (fun _ t => t) fun t => onFile env (env.finalPath p) fun l =>
        if (t.contents l).isSome then .ok t else .error (t.unreachable l)).2 :=
    read_steps env w p (fun t t' h => by
      rw [onFile] at h
      split at h
      · exact absurd h (by simp)
      · split at h
        · exact (Except.ok.inj h).symm
        · exact absurd h (by simp))
      ⟨fun q hq => Or.inl (List.mem_singleton.mp hq), rfl⟩
  rw [sha256File]
  split
  · rename_i e w₁ heq
    rwa [heq] at hopen
  · rename_i w₁ heq
    rw [heq] at hopen
    have hread : Steps env (Upkeep env p) w₁ (w₁.call env (.read (env.finalPath p))
        (fun _ t => t) fun t => .ok t).2 :=
      read_steps env w₁ p (fun t t' h => (Except.ok.inj h).symm)
        ⟨fun q hq => Or.inl (List.mem_singleton.mp hq), rfl⟩
    split
    · rename_i e w₂ heq₂
      rw [heq₂] at hread
      exact hopen.trans hread
    · rename_i w₂ heq₂
      rw [heq₂] at hread
      exact hopen.trans hread

/-- Reading the file for its digest looks after the files of its path. -/
theorem logDigest_steps : Steps env (Upkeep env p) w (w.logDigest env p) := by
  have hdigest := sha256File_steps env w p
  rw [logDigest]
  split
  · rename_i contents w₁ heq
    rw [heq] at hdigest
    exact (hdigest.trans (metadata_steps w₁ _
      ⟨fun q hq => Or.inl (List.mem_singleton.mp hq), rfl⟩).2).congr rfl rfl
  · rename_i e w₁ heq
    rw [heq] at hdigest
    exact hdigest.congr rfl rfl

/-- Removing the markers looks after the files of the path. -/
theorem clearFailure_steps : Steps env (Upkeep env p) w (w.clearFailure env p) := by
  have hexists : Steps env (Upkeep env p) w (w.pathExists env (env.failedPath p)).2 :=
    (metadata_steps w _ ⟨fun q hq => Or.inr (Or.inr (List.mem_singleton.mp hq)), rfl⟩).1
  rw [clearFailure]
  split
  · rename_i w₁ heq
    rw [heq] at hexists
    exact hexists.trans (removeFailed_steps env w₁ p)
  · rename_i w₁ heq
    rwa [heq] at hexists

end World

end DataDiode
