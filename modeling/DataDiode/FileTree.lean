import Mathlib.Logic.Function.Basic
import DataDiode.Slices

/-!
# A Tree of Files and Directories

`FileTree Name β` is a directory tree whose files hold lists of `β`, as a finite-depth map
from locations to nodes. The structure carries its own well-formedness: the root is a
directory, and whatever exists lies in a directory, so an orphaned entry cannot be built.

The operations follow the POSIX calls on trees without links: `unlink` removes files only,
`create` makes or truncates a file in an existing directory, `mkdirAll` fills in missing
directories and is stopped by a file in the way, `rename` moves a file over whatever file
is there. Each operation either yields a new tree or an `IoError` and no tree.

## Main results

* `unlink_of_file`, `create_of_admits`, `modify_of_file`, `rename_of_file`,
  `exists_mkdirAll`: sufficient conditions for success, with the exact map left behind.
* `unlink_eq_ok`, `create_eq_ok`, `modify_eq_ok`, `rename_eq_ok`, `mkdirAll_eq_ok`: what a
  success says about the tree before and after.
-/

/-- The errors of file-system calls. -/
inductive IoError
  | notFound
  | alreadyExists
  | notADirectory
  | isADirectory
  /-- Any other error the operating system reports. -/
  | os (code : ℕ)
  deriving DecidableEq, Repr

/-- A node of a directory tree. -/
inductive Node (β : Type)
  | dir
  | file (data : List β)
  deriving DecidableEq

/-- A directory tree. -/
@[ext]
structure FileTree (Name β : Type) where
  /-- What is at a location. -/
  node : List Name → Option (Node β)
  /-- The root is a directory. -/
  root : node [] = some .dir
  /-- Whatever exists lies in a directory. -/
  parent : ∀ l n, node (l ++ [n]) ≠ none → node l = some .dir

namespace FileTree

variable {Name β : Type}

/-- A file can be at `l`: its parent is a directory, and no directory is there. -/
def Admits (t : FileTree Name β) (l : List Name) : Prop :=
  t.node l.dropLast = some .dir ∧ t.node l ≠ some .dir

instance decidableAdmits [DecidableEq β] (t : FileTree Name β) (l : List Name) :
    Decidable (t.Admits l) :=
  inferInstanceAs (Decidable (_ ∧ _))

/-- The contents of the file at a location. -/
def contents (t : FileTree Name β) (l : List Name) : Option (List β) :=
  match t.node l with
  | some (.file d) => some d
  | _ => none

/-- The contents are those of a file. -/
theorem contents_eq_some_iff {t : FileTree Name β} {l : List Name} {d : List β} :
    t.contents l = some d ↔ t.node l = some (.file d) := by
  rw [contents]
  rcases h : t.node l with _ | _ | _ <;> simp

/-- No location but the root is its own parent. -/
theorem dropLast_ne_self {l : List Name} (h : l ≠ []) : l.dropLast ≠ l := by
  intro e
  have hlen := congrArg List.length e
  have hpos := List.length_pos_iff.mpr h
  rw [List.length_dropLast] at hlen
  omega

/-- What is no directory is not the root. -/
theorem ne_nil_of_not_dir {t : FileTree Name β} {l : List Name} (h : t.node l ≠ some .dir) :
    l ≠ [] := by
  rintro rfl
  exact h t.root

/-- The parent of an existing entry is a directory. -/
theorem node_dropLast_of_ne_none {t : FileTree Name β} {l : List Name} (h : t.node l ≠ none) :
    t.node l.dropLast = some .dir := by
  rcases List.eq_nil_or_concat l with rfl | ⟨k, n, rfl⟩
  · exact t.root
  · rw [List.concat_eq_append] at h ⊢
    rw [List.dropLast_concat]
    exact t.parent k n h

/-- The location of a file admits a file. -/
theorem admits_of_file {t : FileTree Name β} {l : List Name} {d : List β}
    (h : t.node l = some (.file d)) : t.Admits l :=
  ⟨node_dropLast_of_ne_none (by rw [h]; exact Option.some_ne_none _), by rw [h]; simp⟩

/-- The error of a call whose location cannot be reached: some part of the way is a file,
or missing. -/
def unreachable (t : FileTree Name β) (l : List Name) : IoError :=
  if l.inits.any fun k => (t.contents k).isSome then .notADirectory else .notFound

variable [DecidableEq Name]

/-- Put a file at a location that admits one. -/
def setFile (t : FileTree Name β) (l : List Name) (d : List β) (h : t.Admits l) :
    FileTree Name β where
  node := Function.update t.node l (some (.file d))
  root := by
    rw [Function.update_of_ne (ne_nil_of_not_dir h.2).symm]
    exact t.root
  parent := by
    intro k n hk
    have hne := ne_nil_of_not_dir h.2
    by_cases hkn : k ++ [n] = l
    · have hkd : k = l.dropLast := by rw [← hkn, List.dropLast_concat]
      rw [hkd, Function.update_of_ne (dropLast_ne_self hne)]
      exact h.1
    · rw [Function.update_of_ne hkn] at hk
      have hdir := t.parent k n hk
      rw [Function.update_of_ne (by rintro rfl; exact h.2 hdir)]
      exact hdir

/-- Remove the file at a location. -/
def erase (t : FileTree Name β) (l : List Name) (h : t.node l ≠ some .dir) :
    FileTree Name β where
  node := Function.update t.node l none
  root := by
    rw [Function.update_of_ne (ne_nil_of_not_dir h).symm]
    exact t.root
  parent := by
    intro k n hk
    by_cases hkn : k ++ [n] = l
    · rw [hkn, Function.update_self] at hk
      exact absurd rfl hk
    · rw [Function.update_of_ne hkn] at hk
      have hdir := t.parent k n hk
      rw [Function.update_of_ne (by rintro rfl; exact h hdir)]
      exact hdir

/-- Make a directory at a location in a directory. -/
def addDir (t : FileTree Name β) (l : List Name) (h : t.node l.dropLast = some .dir) :
    FileTree Name β where
  node := Function.update t.node l (some .dir)
  root := by
    by_cases hl : [] = l
    · rw [← hl, Function.update_self]
    · rw [Function.update_of_ne hl]
      exact t.root
  parent := by
    intro k n hk
    by_cases hkl : k = l
    · rw [hkl, Function.update_self]
    · rw [Function.update_of_ne hkl]
      by_cases hkn : k ++ [n] = l
      · rw [← hkn, List.dropLast_concat] at h
        exact h
      · rw [Function.update_of_ne hkn] at hk
        exact t.parent k n hk

/-- Setting a file changes its node alone. -/
@[simp] theorem node_setFile {t : FileTree Name β} {l : List Name} {d : List β}
    (h : t.Admits l) : (t.setFile l d h).node = Function.update t.node l (some (.file d)) := rfl

/-- Removing a file changes its node alone. -/
@[simp] theorem node_erase {t : FileTree Name β} {l : List Name} (h : t.node l ≠ some .dir) :
    (t.erase l h).node = Function.update t.node l none := rfl

/-- Making a directory changes its node alone. -/
@[simp] theorem node_addDir {t : FileTree Name β} {l : List Name}
    (h : t.node l.dropLast = some .dir) :
    (t.addDir l h).node = Function.update t.node l (some .dir) := rfl

/-- The other files keep their contents. -/
theorem contents_update_ne {t t' : FileTree Name β} {l k : List Name} {o : Option (Node β)}
    (h : t'.node = Function.update t.node l o) (hk : k ≠ l) : t'.contents k = t.contents k := by
  rw [contents, contents, h, Function.update_of_ne hk]

variable [DecidableEq β]

/-- Remove a file. -/
def unlink (t : FileTree Name β) (l : List Name) : Except IoError (FileTree Name β) :=
  if h : t.node l = some .dir then .error .isADirectory
  else if (t.contents l).isSome then .ok (t.erase l h)
  else .error (t.unreachable l)

/-- Open a file for writing, making it if it is missing; `truncate` empties it. -/
def create (t : FileTree Name β) (l : List Name) (truncate : Bool) :
    Except IoError (FileTree Name β) :=
  if h : t.Admits l then
    .ok (t.setFile l (if truncate then [] else (t.contents l).getD []) h)
  else if t.node l = some .dir then .error .isADirectory
  else .error (t.unreachable l)

/-- Replace the contents of a file. -/
def modify (t : FileTree Name β) (l : List Name) (f : List β → List β) :
    Except IoError (FileTree Name β) :=
  match t.contents l with
  | some d => if h : t.Admits l then .ok (t.setFile l (f d) h) else .error (t.unreachable l)
  | none => .error (t.unreachable l)

/-- Move the file at `src` to `dst`, replacing a file that is there. -/
def rename (t : FileTree Name β) (src dst : List Name) : Except IoError (FileTree Name β) :=
  match t.contents src with
  | none => .error (if t.node src = some .dir then .isADirectory else t.unreachable src)
  | some d =>
      if src = dst then .ok t
      else if hd : t.Admits dst then
        if hs : (t.setFile dst d hd).node src ≠ some .dir then
          .ok ((t.setFile dst d hd).erase src hs)
        else .error .isADirectory
      else .error (if t.node dst = some .dir then .isADirectory else t.unreachable dst)

/-- Make the directories `names` below the directory `base`, one in the other. -/
def mkdirFrom (t : FileTree Name β) (base : List Name) :
    List Name → Except IoError (FileTree Name β)
  | [] => .ok t
  | n :: names =>
      match t.node (base ++ [n]) with
      | some .dir => mkdirFrom t (base ++ [n]) names
      -- `mkdir` finds the name taken, or a file on the way
      | some (.file _) => .error (if names.isEmpty then .alreadyExists else .notADirectory)
      | none =>
          if h : t.node (base ++ [n]).dropLast = some .dir then
            mkdirFrom (t.addDir (base ++ [n]) h) (base ++ [n]) names
          else .error .notFound

/-- Make a directory and whatever directories are missing above it. -/
def mkdirAll (t : FileTree Name β) (l : List Name) : Except IoError (FileTree Name β) :=
  t.mkdirFrom [] l

/-! ### When the operations succeed -/

/-- `unlink` removes a file. -/
theorem unlink_of_file {t : FileTree Name β} {l : List Name} {d : List β}
    (h : t.node l = some (.file d)) :
    ∃ t', t.unlink l = .ok t' ∧ t'.node = Function.update t.node l none := by
  have hd : t.node l ≠ some .dir := by rw [h]; simp
  have hc : (t.contents l).isSome := by rw [contents_eq_some_iff.mpr h]; rfl
  exact ⟨t.erase l hd, by rw [unlink, dif_neg hd, if_pos hc], rfl⟩

/-- `unlink` succeeds only on a file. -/
theorem unlink_eq_ok {t t' : FileTree Name β} {l : List Name} (h : t.unlink l = .ok t') :
    (∃ d, t.node l = some (.file d)) ∧ t'.node = Function.update t.node l none := by
  rw [unlink] at h
  split at h
  · exact absurd h (by simp)
  · split at h
    · rename_i hc
      obtain ⟨d, hd⟩ := Option.isSome_iff_exists.mp hc
      refine ⟨⟨d, contents_eq_some_iff.mp hd⟩, ?_⟩
      rw [← Except.ok.inj h]
      rfl
    · exact absurd h (by simp)

/-- `create` makes a file wherever one is admitted. -/
theorem create_of_admits {t : FileTree Name β} {l : List Name} (h : t.Admits l)
    (truncate : Bool) :
    ∃ t', t.create l truncate = .ok t' ∧ t'.node = Function.update t.node l
      (some (.file (if truncate then [] else (t.contents l).getD []))) :=
  ⟨_, by rw [create, dif_pos h], rfl⟩

/-- A file that is opened is admitted there, and keeps its contents or loses them. -/
theorem create_eq_ok {t t' : FileTree Name β} {l : List Name} {truncate : Bool}
    (h : t.create l truncate = .ok t') :
    t.Admits l ∧ t'.node = Function.update t.node l
      (some (.file (if truncate then [] else (t.contents l).getD []))) := by
  rw [create] at h
  split at h
  · rename_i ha
    refine ⟨ha, ?_⟩
    rw [← Except.ok.inj h]
    rfl
  · split at h <;> exact absurd h (by simp)

/-- `modify` rewrites a file in place. -/
theorem modify_of_file {t : FileTree Name β} {l : List Name} {d : List β}
    (h : t.node l = some (.file d)) (f : List β → List β) :
    ∃ t', t.modify l f = .ok t' ∧ t'.node = Function.update t.node l (some (.file (f d))) := by
  refine ⟨t.setFile l (f d) (admits_of_file h), ?_, rfl⟩
  rw [modify, contents_eq_some_iff.mpr h]
  exact dif_pos (admits_of_file h)

/-- What a change of a file does. -/
theorem modify_eq_ok {t t' : FileTree Name β} {l : List Name} {f : List β → List β}
    (h : t.modify l f = .ok t') :
    ∃ d, t.node l = some (.file d) ∧ t'.node = Function.update t.node l (some (.file (f d))) := by
  rw [modify] at h
  split at h
  · rename_i d hd
    have hf := contents_eq_some_iff.mp hd
    rw [dif_pos (admits_of_file hf)] at h
    refine ⟨d, hf, ?_⟩
    rw [← Except.ok.inj h]
    rfl
  · exact absurd h (by simp)

/-- `rename` moves a file to another location that admits one. -/
theorem rename_of_file {t : FileTree Name β} {src dst : List Name} {d : List β}
    (h : t.node src = some (.file d)) (hne : src ≠ dst) (hdst : t.Admits dst) :
    ∃ t', t.rename src dst = .ok t' ∧
      t'.node = Function.update (Function.update t.node dst (some (.file d))) src none := by
  have hs : (t.setFile dst d hdst).node src ≠ some .dir := by
    rw [node_setFile, Function.update_of_ne hne, h]
    simp
  refine ⟨(t.setFile dst d hdst).erase src hs, ?_, rfl⟩
  rw [rename, contents_eq_some_iff.mpr h]
  exact (if_neg hne).trans ((dif_pos hdst).trans (dif_pos hs))

/-- What a rename does. -/
theorem rename_eq_ok {t t' : FileTree Name β} {src dst : List Name} (hne : src ≠ dst)
    (h : t.rename src dst = .ok t') :
    ∃ d, t.node src = some (.file d) ∧ t.Admits dst ∧
      t'.node = Function.update (Function.update t.node dst (some (.file d))) src none := by
  rw [rename] at h
  split at h
  · exact absurd h (by simp)
  · rename_i d hd
    have hf := contents_eq_some_iff.mp hd
    rw [if_neg hne] at h
    split at h
    · rename_i hdst
      obtain ⟨t'', ht'', hnode⟩ := rename_of_file hf hne hdst
      have hs : (t.setFile dst d hdst).node src ≠ some .dir := by
        rw [node_setFile, Function.update_of_ne hne, hf]
        simp
      rw [dif_pos hs] at h
      refine ⟨d, hf, hdst, ?_⟩
      rw [← Except.ok.inj h]
      rfl
    · exact absurd h (by simp)

/-! ### Directories -/

/-- Every proper ancestor of `l` that exists is a directory, and so is `l` itself if it
exists: nothing stops `mkdirAll`. -/
def Open (t : FileTree Name β) (l : List Name) : Prop :=
  ∀ k, k <+: l → t.node k = none ∨ t.node k = some .dir

/-- What a walk down `names` from a directory leaves: exactly the prefixes are added. -/
theorem mkdirFrom_eq_ok {names : List Name} : ∀ {t t' : FileTree Name β} {base : List Name},
    t.node base = some .dir → t.mkdirFrom base names = .ok t' →
      t'.node (base ++ names) = some .dir ∧
      ∀ k, t'.node k = t.node k ∨ (t.node k = none ∧ t'.node k = some .dir ∧
        base <+: k ∧ k <+: base ++ names) := by
  induction names with
  | nil =>
      intro t t' base hbase h
      rw [mkdirFrom, Except.ok.injEq] at h
      subst h
      exact ⟨by rwa [List.append_nil], fun k => Or.inl rfl⟩
  | cons n names ih =>
      intro t t' base hbase h
      have happ : base ++ n :: names = base ++ [n] ++ names := by simp
      have hpre : base <+: base ++ [n] := List.prefix_append _ _
      rw [mkdirFrom] at h
      split at h
      · rename_i hdir
        obtain ⟨hend, hrest⟩ := ih hdir h
        refine ⟨by rw [happ]; exact hend, fun k => ?_⟩
        rcases hrest k with hk | ⟨hnone, hk, hb, hkp⟩
        · exact Or.inl hk
        · exact Or.inr ⟨hnone, hk, hpre.trans hb, by rw [happ]; exact hkp⟩
      · exact absurd h (by simp)
      · rename_i hnone
        have hparent : t.node (base ++ [n]).dropLast = some .dir := by
          rw [List.dropLast_concat]; exact hbase
        rw [dif_pos hparent] at h
        have hdir : (t.addDir (base ++ [n]) hparent).node (base ++ [n]) = some .dir := by simp
        obtain ⟨hend, hrest⟩ := ih hdir h
        refine ⟨by rw [happ]; exact hend, fun k => ?_⟩
        by_cases hkn : k = base ++ [n]
        · subst hkn
          have hk : t'.node (base ++ [n]) = some .dir := by
            rcases hrest (base ++ [n]) with hk | ⟨-, hk, -⟩
            · rw [hk, hdir]
            · exact hk
          exact Or.inr ⟨hnone, hk, hpre, by rw [happ]; exact List.prefix_append _ _⟩
        · rcases hrest k with hk | ⟨hnone', hk, hb, hkp⟩
          · rw [node_addDir, Function.update_of_ne hkn] at hk
            exact Or.inl hk
          · rw [node_addDir, Function.update_of_ne hkn] at hnone'
            exact Or.inr ⟨hnone', hk, hpre.trans hb, by rw [happ]; exact hkp⟩

/-- Nothing stops the walk where nothing but directories is on the way. -/
theorem exists_mkdirFrom {names : List Name} : ∀ {t : FileTree Name β} {base : List Name},
    t.node base = some .dir →
    (∀ k, base <+: k → k <+: base ++ names → t.node k = none ∨ t.node k = some .dir) →
      ∃ t', t.mkdirFrom base names = .ok t' := by
  induction names with
  | nil => exact fun {t base} _ _ => ⟨t, rfl⟩
  | cons n names ih =>
      intro t base hbase h
      have happ : base ++ n :: names = base ++ [n] ++ names := by simp
      have hpre : base <+: base ++ [n] := List.prefix_append _ _
      have hstep : base ++ [n] <+: base ++ n :: names := by rw [happ]; exact List.prefix_append _ _
      have hrest : ∀ k, base ++ [n] <+: k → k <+: base ++ [n] ++ names →
          t.node k = none ∨ t.node k = some .dir :=
        fun k hk hk' => h k (hpre.trans hk) (by rw [happ]; exact hk')
      rw [mkdirFrom]
      rcases h (base ++ [n]) hpre hstep with hnone | hdir
      · have hparent : t.node (base ++ [n]).dropLast = some .dir := by
          rw [List.dropLast_concat]; exact hbase
        simp only [hnone, dif_pos hparent]
        refine ih (by simp) fun k hk hk' => ?_
        by_cases hkn : k = base ++ [n]
        · right; simp [hkn]
        · rw [node_addDir, Function.update_of_ne hkn]
          exact hrest k hk hk'
      · simp only [hdir]
        exact ih hdir hrest

/-- **Making directories** makes the last one and what is missing on its way, and nothing else. -/
theorem mkdirAll_eq_ok {t t' : FileTree Name β} {l : List Name} (h : t.mkdirAll l = .ok t') :
    t'.node l = some .dir ∧
      ∀ k, t'.node k = t.node k ∨ (t.node k = none ∧ t'.node k = some .dir ∧ k <+: l) := by
  obtain ⟨hend, hrest⟩ := mkdirFrom_eq_ok t.root h
  refine ⟨by simpa using hend, fun k => ?_⟩
  rcases hrest k with hk | ⟨hnone, hk, -, hkp⟩
  · exact Or.inl hk
  · exact Or.inr ⟨hnone, hk, by simpa using hkp⟩

/-- Nothing stops `create_dir_all` where nothing but directories is on the way. -/
theorem exists_mkdirAll {t : FileTree Name β} {l : List Name} (h : t.Open l) :
    ∃ t', t.mkdirAll l = .ok t' :=
  exists_mkdirFrom t.root fun k _ hk => h k (by simpa using hk)

/-! ### Frames -/

/-- Directories that are made leave every file where it is. -/
theorem mkdirAll_contents {t t' : FileTree Name β} {l : List Name} (h : t.mkdirAll l = .ok t')
    (k : List Name) : t'.contents k = t.contents k := by
  rcases (mkdirAll_eq_ok h).2 k with hk | ⟨hnone, hdir, -⟩
  · rw [contents, contents, hk]
  · rw [contents, contents, hnone, hdir]

end FileTree
