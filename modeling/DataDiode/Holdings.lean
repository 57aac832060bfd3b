import DataDiode.Pins

/-!
# The Download Directory over Many Runs

`download_packages` is run again and again, with another index, another configuration, another
mirror, and any run may fail at any call. A file is fetched only if there is none under its name,
so files are never replaced, not even the part of a file that a failed download left; and nothing
is fetched but what the index of its branch lists.

## Main results

* `recursiveDownload_along`: what holds along the parts of a call holds along the call.
* `downloadMain_grows`: one run.
* `disksAfter_provenance`: any number of runs.
-/

namespace DataDiode

open ConfigParser Script

/-! ### What a run brings -/

/-- What a download leaves under the path of a file. -/
def Mirror.Brings (mirror : Mirror) (path : PkgPath) (archive : Archive) : Prop :=
  mirror.fetch path = .fetched archive ∨ mirror.fetch path = .failed (some archive)

/-- The branch of the index that a file is of lists it. -/
def Index.Lists (idx : Index) (path : PkgPath) : Prop :=
  path.osVersion = idx.osVersion ∧ path.arch = idx.arch ∧
    path.file ∈ if path.stable then idx.avlPkgsStbl else idx.avlPkgs

/-- **A stretch of a run that only adds files**, each of them one that satisfies `P`. -/
structure Grows (P : PkgPath → Archive → Prop) (st st' : Download) : Prop where
  kept : Extends st.disk st'.disk
  new : ∀ path archive, st'.disk.lookup path = some archive →
    st.disk.lookup path = some archive ∨ P path archive

section Stretches

variable {P : PkgPath → Archive → Prop} {st st' : Download}

/-- Growth may be put one behind the other. -/
instance : IsPreorder Download (Grows P) where
  refl _ := ⟨Extends.refl _, fun _ _ => Or.inl⟩
  trans _ _ _ h h' := ⟨h.kept.trans h'.kept, fun path archive hpath =>
    (h'.new path archive hpath).elim (h.new path archive) Or.inr⟩

/-- Where the files stay, nothing grows. -/
theorem Grows.of_disk_eq (h : st'.disk = st.disk) : Grows P st st' :=
  ⟨h ▸ Extends.refl _, fun _ _ hpath => Or.inl (h ▸ hpath)⟩

/-- What may be gained may be more. -/
theorem Grows.mono {Q : PkgPath → Archive → Prop} (h : Grows P st st')
    (hPQ : ∀ path archive, P path archive → Q path archive) : Grows Q st st' :=
  ⟨h.kept, fun path archive hpath => (h.new path archive hpath).imp_right (hPQ path archive)⟩

/-- A file that was not there. -/
theorem Grows.insert {path : PkgPath} {archive : Archive} (hnone : st.disk.lookup path = none)
    (hP : P path archive) : Grows P st { st with disk := st.disk.insert path archive } := by
  refine ⟨extends_insert archive hnone, fun q a hq => ?_⟩
  by_cases hqp : q = path
  · subst hqp
    rw [AList.lookup_insert] at hq
    exact Or.inr (Option.some.inj hq ▸ hP)
  · rw [AList.lookup_insert_ne hqp] at hq
    exact Or.inl hq

end Stretches

section Runs

variable {py : Python} {mirror : Mirror} {idx : Index} {st : Download} {path : PkgPath}

/-- What the runs of an architecture add. -/
def Gained (mirror : Mirror) (idx : Index) (path : PkgPath) (archive : Archive) : Prop :=
  idx.Lists path ∧ mirror.Brings path archive

/-- Setting a version downloads nothing. -/
theorem setVersion_grows {P : PkgPath → Archive → Prop} {sec package version : Str} :
    Leads (Grows P) st (setVersion py sec package version) fun _ _ => True := by
  refine Leads.bind Leads.get fun _ _ _ _ => ?_
  split
  · exact Leads.throw
  · exact Leads.modify (.of_disk_eq rfl) trivial

/-- **A download** happens only if the file is not there. -/
theorem downloadPackage_grows (hlists : idx.Lists path) :
    Leads (Grows (Gained mirror idx)) st (downloadPackage mirror path) fun _ _ => True := by
  refine Leads.bind Leads.get fun before st' _ hst => ?_
  obtain ⟨rfl, rfl⟩ := hst
  split
  · exact Leads.ofExcept.weaken fun _ _ _ _ => trivial
  · rename_i hnone
    split
    · rename_i left hfetch
      refine Leads.bind (Q := fun _ _ => True) (Leads.modify ?_ trivial) fun _ _ _ _ => Leads.throw
      cases left with
      | none => exact .of_disk_eq rfl
      | some archive => exact .insert hnone ⟨hlists, Or.inr hfetch⟩
    · rename_i archive hfetch
      refine Leads.bind (Q := fun _ _ => True)
        (Leads.modify (.insert hnone ⟨hlists, Or.inl hfetch⟩) trivial) fun _ _ _ _ => ?_
      exact Leads.ofExcept.weaken fun _ _ _ _ => trivial

/-- A file that is found is in the list. -/
theorem mem_of_firstMatch {pattern file : Str} {files : List Str}
    (h : firstMatch py pattern files = .ok (some file)) : file ∈ files := by
  induction files with
  | nil => exact absurd h (by simp [firstMatch])
  | cons first files ih =>
      rw [firstMatch] at h
      split at h
      · exact absurd h (by simp)
      · obtain rfl : first = file := by simpa using h
        exact List.mem_cons_self
      · exact List.mem_cons_of_mem _ (ih h)

/-- The file that is selected is in the list it was looked for in. -/
theorem mem_of_getPkgDownloadPath {avlPkgs avlPkgsStbl : List Str} {package file : Str}
    {version : Option Str} {stable : Bool}
    (h : getPkgDownloadPath py avlPkgs avlPkgsStbl package version = .ok (some (stable, file))) :
    file ∈ if stable then avlPkgsStbl else avlPkgs := by
  rw [getPkgDownloadPath] at h
  split at h
  · exact absurd h (by simp)
  · rename_i found hfound
    obtain ⟨rfl, rfl⟩ : true = stable ∧ found = file := by simpa using h
    exact mem_of_firstMatch hfound
  · split at h
    · exact absurd h (by simp)
    · rename_i found hfound
      obtain ⟨rfl, rfl⟩ : false = stable ∧ found = file := by simpa using h
      exact mem_of_firstMatch hfound
    · exact absurd h (by simp)

/-- **What is selected is listed.** -/
theorem lists_of_selectFile {package version : Str} {demanded : Option Str}
    (h : selectFile py idx package demanded = .ok (path, version)) : idx.Lists path := by
  obtain ⟨hos, harch, hfound, -⟩ := selectFile_eq_ok h
  exact ⟨hos, harch, mem_of_getPkgDownloadPath hfound⟩

/-- **A rule for calls**: what holds along the downloads, the records and the calls of a run holds
along it, however deep it goes. A call returns the version of the file that it selects. -/
theorem recursiveDownload_along {R : Download → Download → Prop} [IsPreorder Download R]
    (hdownload : ∀ {st path}, idx.Lists path →
      Leads R st (downloadPackage mirror path) fun _ _ => True)
    (hset : ∀ {st package version},
      Leads R st (setVersion py idx.depSection package version) fun _ _ => True)
    (hcalls : ∀ {st : Download} {calls : List Call}, R st { st with calls }) (depth : ℕ)
    (st : Download) (package : Str) (demanded : Option Str) :
    Leads R st (recursiveDownload py mirror idx depth package demanded) fun version _ =>
      ∃ path, selectFile py idx package demanded = .ok (path, version) := by
  induction depth generalizing st package demanded with
  | zero => exact Leads.throw
  | succ depth ih =>
      rw [recursiveDownload]
      refine Leads.bind Leads.ofExcept fun selected st₁ _ hofExcept => ?_
      obtain ⟨path, version⟩ := selected
      have hselected := hofExcept.1
      dsimp only
      refine Leads.bind Leads.get fun before st₂ _ _ => ?_
      refine Leads.bind (Q := fun _ _ => True) ?_ fun old st₃ _ _ => ?_
      · refine Leads.bind Leads.get fun _ _ _ _ => ?_
        split
        · exact Leads.throw
        · exact Leads.pure trivial
      refine Leads.bind (Q := fun _ _ => True) ?_ fun _ st₄ _ _ => ?_
      · rw [downloadNewer]
        split
        · refine Leads.bind (hdownload (lists_of_selectFile hselected)) fun deps _ _ _ => ?_
          refine Leads.forM_true fun dep st₅ => ?_
          exact Leads.bind (ih st₅ dep.1 (some dep.2)) fun _ _ _ _ => hset
        · exact Leads.pure trivial
      · exact Leads.bind (Q := fun _ _ => True) (Leads.modify hcalls trivial)
          fun _ _ _ _ => Leads.pure ⟨path, hselected⟩

/-- **Every call** only adds files that are listed. -/
theorem recursiveDownload_grows (py : Python) (mirror : Mirror) (idx : Index) (depth : ℕ)
    (st : Download) (package : Str) (demanded : Option Str) :
    Leads (Grows (Gained mirror idx)) st (recursiveDownload py mirror idx depth package demanded)
      fun _ _ => True :=
  (recursiveDownload_along downloadPackage_grows setVersion_grows (.of_disk_eq rfl) depth st package
    demanded).weaken fun _ _ _ _ => trivial

/-- An update of a package gains files of the mirror. -/
theorem updatePackage_grows {depth : ℕ} {package : Str} :
    Leads (Grows (Gained mirror idx)) st (updatePackage py mirror idx depth package)
      fun _ _ => True := by
  refine Leads.bind Leads.get fun _ _ _ _ => ?_
  refine Leads.bind (recursiveDownload_grows py mirror idx depth _ package none) fun _ _ _ _ => ?_
  refine Leads.bind setVersion_grows fun _ _ _ _ => ?_
  refine Leads.bind Leads.get fun _ _ _ _ => ?_
  exact Leads.modify (.of_disk_eq rfl) trivial

/-- An update of a dependency gains files of the mirror. -/
theorem updateDependency_grows {depth : ℕ} {package : Str} :
    Leads (Grows (Gained mirror idx)) st (updateDependency py mirror idx depth package)
      fun _ _ => True := by
  refine Leads.bind Leads.get fun _ _ _ _ => ?_
  split
  · exact Leads.throw
  · exact Leads.throw
  · exact Leads.bind (recursiveDownload_grows py mirror idx depth _ package _)
      fun _ _ _ _ => setVersion_grows

end Runs

/-! ### Whole runs -/

/-- A run of the script: its process, the mirror as it is then, how deep it may recurse, and the
configuration that it reads. -/
structure ScriptRun where
  py : Python
  mirror : Mirror
  depth : ℕ
  config : Config

/-- **A run has a file on offer**: it is of the version and an architecture that are configured, and
the page of its branch links to it. -/
structure ScriptRun.Offers (run : ScriptRun) (path : PkgPath) : Prop where
  osVersion : run.config.get run.py.lower "OpenBSD".toList "version".toList =
    .ok (some path.osVersion)
  arch : path.arch ∈ run.config.sectionNames ∧ path.arch ≠ "OpenBSD".toList ∧
    ¬"/dependencies".toList <:+: path.arch
  listed : ∃ files, run.mirror.pkgsAdded path.arch path.osVersion path.stable = .ok files ∧
    path.file ∈ files

/-- A file of the package list is one of those that were added to the set. -/
theorem mem_of_getPkgList {py : Python} {mirror : Mirror} {arch version file : Str} {stable : Bool}
    {files : List Str} (h : getPkgList py mirror arch version stable = .ok files)
    (hfile : file ∈ files) :
    ∃ added, mirror.pkgsAdded arch version stable = .ok added ∧ file ∈ added := by
  rw [getPkgList] at h
  cases hadded : mirror.pkgsAdded arch version stable with
  | error e =>
      rw [hadded] at h
      exact absurd h (by simp [Except.map])
  | ok added =>
      rw [hadded] at h
      obtain rfl := Except.ok.inj h
      exact ⟨added, rfl, (py.order.mem_iff added file).mp hfile⟩

/-- What is in an index is on a page of the mirror. -/
theorem listed_of_getIndex {py : Python} {mirror : Mirror} {osVersion arch : Str} {idx : Index}
    {path : PkgPath} (h : getIndex py mirror osVersion arch = .ok idx) (hlists : idx.Lists path) :
    path.osVersion = osVersion ∧ path.arch = arch ∧
      ∃ files, mirror.pkgsAdded arch osVersion path.stable = .ok files ∧ path.file ∈ files := by
  obtain ⟨hos, harch, hfile⟩ := hlists
  rw [getIndex] at h
  split at h
  · exact absurd h (by simp)
  · exact absurd h (by simp)
  · rename_i avl havl _
    obtain rfl := (Except.ok.inj h).symm
    cases hstable : path.stable with
    | true => simp [hstable] at hfile
    | false => exact ⟨hos, harch, mem_of_getPkgList havl (by simpa [hstable] using hfile)⟩
  · rename_i avl stbl havl hstbl
    obtain rfl := (Except.ok.inj h).symm
    cases hstable : path.stable with
    | true => exact ⟨hos, harch, mem_of_getPkgList hstbl (by simpa [hstable] using hfile)⟩
    | false => exact ⟨hos, harch, mem_of_getPkgList havl (by simpa [hstable] using hfile)⟩

/-- The files after a run, whether it ends normally or not. -/
def diskAfter (disk : Disk) (run : ScriptRun) : Disk :=
  (final (downloadMain run.py run.mirror run.depth) (Download.start run.config disk)).disk

/-- **One run** adds files that it has on offer, and does nothing else to files. -/
theorem downloadMain_grows (run : ScriptRun) (disk : Disk) :
    Leads (Grows fun path archive => run.Offers path ∧ run.mirror.Brings path archive)
      (Download.start run.config disk) (downloadMain run.py run.mirror run.depth)
      fun _ _ => True := by
  refine Leads.bind Leads.get fun start st hst h => ?_
  obtain ⟨rfl, rfl⟩ := h
  split
  · exact Leads.throw
  · exact Leads.throw
  rename_i osVersion hos
  refine (Leads.forM (P := fun _ _ => True) (fun _ _ _ _ => id) fun arch harch st' _ => ?_).weaken
    fun _ _ _ _ => trivial
  obtain ⟨hsection, hname⟩ := List.mem_filter.mp harch
  refine Leads.bind (Q := fun _ _ => True) (Leads.modify ?_ trivial) fun _ st₁ _ _ => ?_
  · split
    · exact .of_disk_eq rfl
    · exact .of_disk_eq rfl
  refine Leads.bind Leads.ofExcept fun idx st₂ _ hofExcept => ?_
  have hidx := hofExcept.1
  have hoffers : ∀ {s s' : Download}, Grows (Gained run.mirror idx) s s' →
      Grows (fun path archive => run.Offers path ∧ run.mirror.Brings path archive) s s' := by
    refine fun hgrows => hgrows.mono fun path archive hgained => ⟨?_, hgained.2⟩
    obtain ⟨rfl, rfl, hlisted⟩ := listed_of_getIndex hidx hgained.1
    exact ⟨hos, ⟨hsection, of_decide_eq_true hname⟩, hlisted⟩
  refine Leads.bind Leads.get fun _ _ _ _ => ?_
  refine Leads.bind (Leads.forM_true fun _ _ => updatePackage_grows.mono fun _ => hoffers)
    fun _ _ _ _ => ?_
  refine Leads.bind Leads.get fun _ _ _ _ => ?_
  exact Leads.forM_true fun _ _ => updateDependency_grows.mono fun _ => hoffers

/-- The files after some runs, one after the other. -/
def disksAfter (disk : Disk) (runs : List ScriptRun) : Disk :=
  runs.foldl diskAfter disk

/-- **Any number of runs**, each with its own process, mirror and configuration, and each ended by a
failure or not: a file that is there stays as it is; and a file that was not there is one that some
run had on offer, as that run fetched it, or what a failed download of that run left of it, when
there was no file under its name. -/
theorem disksAfter_provenance (disk : Disk) (runs : List ScriptRun) :
    Extends disk (disksAfter disk runs) ∧
      ∀ path archive, (disksAfter disk runs).lookup path = some archive →
        disk.lookup path = some archive ∨
          ∃ front run rest, runs = front ++ run :: rest ∧ path ∉ disksAfter disk front ∧
            run.Offers path ∧ run.mirror.Brings path archive := by
  induction runs using List.reverseRecOn with
  | nil => exact ⟨Extends.refl _, fun _ _ => Or.inl⟩
  | append_singleton runs run ih =>
      obtain ⟨hkept, hnew⟩ := ih
      have hgrows := (downloadMain_grows run (disksAfter disk runs)).final
      have hlast : disksAfter disk (runs ++ [run]) =
          diskAfter (disksAfter disk runs) run := by
        rw [disksAfter, List.foldl_append, List.foldl_cons, List.foldl_nil, ← disksAfter]
      rw [hlast]
      refine ⟨hkept.trans hgrows.kept, fun path archive hpath => ?_⟩
      cases hbefore : (disksAfter disk runs).lookup path with
      | some found =>
          have hsame := hgrows.kept path found hbefore
          obtain rfl := Option.some.inj (hsame.symm.trans hpath)
          refine (hnew path found hbefore).imp_right ?_
          rintro ⟨front, run', rest, rfl, hrest⟩
          exact ⟨front, run', rest ++ [run], by simp, hrest⟩
      | none =>
          refine Or.inr ⟨runs, run, [], rfl, AList.lookup_eq_none.mp hbefore, ?_⟩
          refine (hgrows.new path archive hpath).resolve_left fun hthere => ?_
          exact absurd (hbefore.symm.trans hthere) (by simp)

end DataDiode
