import DataDiode.Packages

/-!
# Dependencies

A package file is complete if it is there, and with it, for every line that demands a package, a
complete file that answers the demand. A call of `recursive_download` that downloads a file goes on
to all that the file demands. A call that finds a version recorded that is not less than the one
demanded, as a string, does nothing at all, whatever the recorded version was recorded for.

`Sound` is what holds throughout a run: calls that return leave complete files, if those that do
nothing find them.

## Main results

* `Complete.mono`: files that are added do no harm.
* `recursiveDownload_leads`: every call keeps a run sound.
* `recursiveDownload_installable_iff`: what every call of a run leaves.
* `not_installable_olderVersion`: two packages that demand different versions of a third.
-/

namespace DataDiode

open ConfigParser Script

/-! ### Complete files -/

/-- A file that answers a demand: same mirror, same architecture, and a name that matches. -/
structure Answers (py : Python) (path : PkgPath) (dep : Str × Str) (q : PkgPath) : Prop where
  osVersion : q.osVersion = path.osVersion
  arch : q.arch = path.arch
  matched : py.reMatch (downloadPattern py dep.1 (some dep.2)) (py.lower q.file) = some true

/-- **A complete file**: it is there, and complete files answer what it demands. -/
inductive Complete (py : Python) (disk : Disk) : PkgPath → Prop
  | intro {path : PkgPath} {archive : Archive} {deps : List (Str × Str)}
      (answer : Str × Str → PkgPath) (present : disk.lookup path = some archive)
      (demands : getPkgDependencies archive = .ok deps)
      (answers : ∀ dep ∈ deps, Answers py path dep (answer dep))
      (complete : ∀ dep ∈ deps, Complete py disk (answer dep)) : Complete py disk path

/-- A package with everything it demands, in one way for each demand. -/
theorem Complete.of_forall_exists {py : Python} {disk : Disk} {path : PkgPath} {archive : Archive}
    {deps : List (Str × Str)} (present : disk.lookup path = some archive)
    (demands : getPkgDependencies archive = .ok deps)
    (h : ∀ dep ∈ deps, ∃ q, Answers py path dep q ∧ Complete py disk q) :
    Complete py disk path := by
  have : Nonempty PkgPath := ⟨path⟩
  choose! answer hanswer using h
  exact .intro answer present demands (fun dep hdep => (hanswer dep hdep).1)
    fun dep hdep => (hanswer dep hdep).2

/-- A package that can be installed is there. -/
theorem Complete.mem {py : Python} {disk : Disk} {path : PkgPath} (h : Complete py disk path) :
    path ∈ disk := by
  cases h with
  | intro _ present => exact AList.lookup_isSome.mp (Option.isSome_of_eq_some present)

/-- A complete file has a complete file for each of its demands. -/
theorem Complete.exists_answer {py : Python} {disk : Disk} {path : PkgPath} {archive : Archive}
    {deps : List (Str × Str)} {dep : Str × Str} (h : Complete py disk path)
    (hpresent : disk.lookup path = some archive) (hdeps : getPkgDependencies archive = .ok deps)
    (hdep : dep ∈ deps) : ∃ q, Answers py path dep q ∧ Complete py disk q := by
  cases h with
  | intro answer present demands answers complete =>
      rw [hpresent] at present
      obtain rfl := Option.some.inj present
      rw [hdeps] at demands
      obtain rfl := Except.ok.inj demands
      exact ⟨answer dep, answers dep hdep, complete dep hdep⟩

/-- No file is removed or replaced. -/
def Extends (disk disk' : Disk) : Prop :=
  ∀ path archive, disk.lookup path = some archive → disk'.lookup path = some archive

/-- No file is lost. -/
theorem Extends.refl (disk : Disk) : Extends disk disk := fun _ _ h => h

/-- One extension after the other. -/
theorem Extends.trans {d₁ d₂ d₃ : Disk} (h : Extends d₁ d₂) (h' : Extends d₂ d₃) : Extends d₁ d₃ :=
  fun path archive hpath => h' path archive (h path archive hpath)

/-- A new file extends what is there. -/
theorem extends_insert {disk : Disk} {path : PkgPath} (archive : Archive)
    (h : disk.lookup path = none) : Extends disk (disk.insert path archive) := by
  intro q a hq
  rw [AList.lookup_insert_ne, hq]
  rintro rfl
  rw [h] at hq
  exact absurd hq (by simp)

/-- **Complete files stay complete.** -/
theorem Complete.mono {py : Python} {disk disk' : Disk} {path : PkgPath}
    (h : Complete py disk path) (hext : Extends disk disk') : Complete py disk' path := by
  induction h with
  | intro answer present demands answers _ ih =>
      exact .intro answer (hext _ _ present) demands answers ih

namespace Call

/-- The recorded version is not less than the one demanded, so that the call does nothing. -/
def Skipped (c : Call) : Prop := ∃ old, c.old = some old ∧ PyString.lt old c.version = false

/-- **What a call is for**: a demand is answered by a complete file; without a version demanded,
the file that is selected is complete. -/
def InstallableIn (py : Python) (c : Call) (disk : Disk) : Prop :=
  match c.demanded with
  | none => Complete py disk c.path
  | some v => ∃ q, Answers py c.path (c.package, v) q ∧ Complete py disk q

/-- A call is skipped if the version is not greater than the one before. -/
theorem skipped_iff {c : Call} : c.Skipped ↔ c.old.all (PyString.lt · c.version) = false := by
  rw [Skipped]
  cases c.old <;> simp

/-- A complete file that is selected is what the call is for. -/
theorem installableIn_of_complete {py : Python} {c : Call} {disk : Disk}
    (hmatched : py.reMatch (downloadPattern py c.package c.demanded) (py.lower c.path.file) =
      some true) (h : Complete py disk c.path) : c.InstallableIn py disk := by
  rw [InstallableIn]
  split
  · exact h
  · rename_i v hv
    rw [hv] at hmatched
    exact ⟨c.path, ⟨rfl, rfl, hmatched⟩, h⟩

/-- With more files more can be installed. -/
theorem InstallableIn.mono {py : Python} {c : Call} {disk disk' : Disk}
    (h : c.InstallableIn py disk) (hext : Extends disk disk') : c.InstallableIn py disk' := by
  rw [InstallableIn] at h ⊢
  split at h
  · exact h.mono hext
  · obtain ⟨q, hq, hcomplete⟩ := h
    exact ⟨q, hq, hcomplete.mono hext⟩

end Call

/-! ### Runs -/

/-- **What holds throughout a run**: the files that calls have left are there; calls that do nothing
leave all as it was; and if these find what they are for, all calls leave it. -/
structure Sound (py : Python) (st : Download) : Prop where
  kept : ∀ c ∈ st.calls, Extends c.after st.disk
  idle : ∀ c ∈ st.calls, c.Skipped → c.after = c.before
  installable : (∀ c ∈ st.calls, c.Skipped → c.InstallableIn py c.before) →
    ∀ c ∈ st.calls, c.InstallableIn py c.after

/-- Nothing has been skipped at first. -/
theorem sound_start (py : Python) (config : Config) (disk : Disk) :
    Sound py (Download.start config disk) :=
  ⟨fun _ hc => absurd hc List.not_mem_nil, fun _ hc => absurd hc List.not_mem_nil,
    fun _ _ hc => absurd hc List.not_mem_nil⟩

/-- **All calls of a sound run** leave what they are for, if and only if those that do nothing find
it. -/
theorem Sound.iff {py : Python} {st : Download} (h : Sound py st) :
    (∀ c ∈ st.calls, c.InstallableIn py c.after) ↔
      ∀ c ∈ st.calls, c.Skipped → c.InstallableIn py c.before := by
  refine ⟨fun hall c hc hskipped => ?_, h.installable⟩
  rw [← h.idle c hc hskipped]
  exact hall c hc

/-- **A call returns** in a sound run. -/
theorem Sound.returned {py : Python} {st : Download} {c : Call} (h : Sound py st)
    (hkept : Extends c.after st.disk) (hidle : c.Skipped → c.after = c.before)
    (hinstallable : ¬c.Skipped → (∀ c ∈ st.calls, c.InstallableIn py c.after) →
      c.InstallableIn py c.after) :
    Sound py { st with calls := st.calls ++ [c] } := by
  refine ⟨?_, ?_, fun hskips => ?_⟩
  · exact List.forall_mem_append.mpr ⟨h.kept, List.forall_mem_singleton.mpr hkept⟩
  · exact List.forall_mem_append.mpr ⟨h.idle, List.forall_mem_singleton.mpr hidle⟩
  · obtain ⟨hskips, hskip⟩ := List.forall_mem_append.mp hskips
    have hall := h.installable hskips
    refine List.forall_mem_append.mpr ⟨hall, List.forall_mem_singleton.mpr ?_⟩
    by_cases hskipped : c.Skipped
    · rw [hidle hskipped]
      exact hskip c List.mem_cons_self hskipped
    · exact hinstallable hskipped hall

/-- A stretch of a run: files are added, calls return, and the run stays sound. -/
structure Goes (py : Python) (st st' : Download) : Prop where
  disk : Extends st.disk st'.disk
  calls : st.calls ⊆ st'.calls
  pins : st'.pins = st.pins
  sound : Sound py st → Sound py st'

/-- The steps of a selection may be put one behind the other. -/
instance (py : Python) : IsPreorder Download (Goes py) where
  refl _ := ⟨Extends.refl _, List.Subset.refl _, rfl, id⟩
  trans _ _ _ h h' := ⟨h.disk.trans h'.disk, List.Subset.trans h.calls h'.calls,
    h'.pins.trans h.pins, h'.sound ∘ h.sound⟩

section Steps

variable {py : Python} {mirror : Mirror} {idx : Index} {st : Download} {path : PkgPath}

/-- Files may be added at any time. -/
theorem goes_of_extends {st' : Download} (hdisk : Extends st.disk st'.disk)
    (hcalls : st'.calls = st.calls) (hpins : st'.pins = st.pins) : Goes py st st' := by
  refine ⟨hdisk, ?_, hpins, fun h => ⟨?_, ?_, ?_⟩⟩
  · rw [hcalls]
    exact List.Subset.refl _
  · rw [hcalls]
    exact fun c hc => (h.kept c hc).trans hdisk
  · rw [hcalls]
    exact h.idle
  · rw [hcalls]
    exact h.installable

/-- Versions may be recorded at any time, which changes no files. -/
theorem setVersion_leads {sec package version : Str} :
    Leads (Goes py) st (setVersion py sec package version) fun _ st' => st'.disk = st.disk := by
  refine Leads.bind Leads.get fun before st' _ hst => ?_
  obtain ⟨rfl, rfl⟩ := hst
  split
  · exact Leads.throw
  · exact Leads.modify (goes_of_extends (Extends.refl _) rfl rfl) rfl

/-- **A download** leaves the file, and tells what it demands. -/
theorem downloadPackage_leads : Leads (Goes py) st (downloadPackage mirror path) fun deps st' =>
    ∃ archive, st'.disk.lookup path = some archive ∧ getPkgDependencies archive = .ok deps := by
  refine Leads.bind Leads.get fun before st' _ hst => ?_
  obtain ⟨rfl, rfl⟩ := hst
  split
  · rename_i archive hpath
    exact Leads.ofExcept.weaken fun deps st' _ ⟨hdeps, hst⟩ => ⟨archive, hst ▸ hpath, hdeps⟩
  · rename_i hpath
    split
    · rename_i left _
      refine Leads.bind (Q := fun _ _ => True) (Leads.modify ?_ trivial) fun _ _ _ _ => Leads.throw
      refine goes_of_extends ?_ rfl rfl
      cases left with
      | none => exact Extends.refl _
      | some a => exact extends_insert a hpath
    · rename_i archive _
      refine Leads.bind (Leads.modify (goes_of_extends (extends_insert archive hpath) rfl rfl)
        (Q := fun _ st' => st'.disk.lookup path = some archive) (AList.lookup_insert _))
        fun _ st' _ hst' => ?_
      exact Leads.ofExcept.weaken fun deps _ _ ⟨hdeps, hst⟩ => ⟨archive, hst ▸ hst', hdeps⟩

end Steps

/-! ### Selected files -/

/-- A file that is found matches the pattern. -/
theorem matched_of_firstMatch {py : Python} {pattern file : Str} {files : List Str}
    (h : firstMatch py pattern files = .ok (some file)) :
    py.reMatch pattern (py.lower file) = some true := by
  induction files with
  | nil => exact absurd h (by simp [firstMatch])
  | cons first files ih =>
      rw [firstMatch] at h
      split at h
      · exact absurd h (by simp)
      · rename_i hmatch
        obtain rfl : first = file := by simpa using h
        exact hmatch
      · exact ih h

/-- The file that is selected matches the pattern. -/
theorem matched_of_getPkgDownloadPath {py : Python} {avlPkgs avlPkgsStbl : List Str}
    {package file : Str} {version : Option Str} {stable : Bool}
    (h : getPkgDownloadPath py avlPkgs avlPkgsStbl package version = .ok (some (stable, file))) :
    py.reMatch (downloadPattern py package version) (py.lower file) = some true := by
  rw [getPkgDownloadPath] at h
  split at h
  · exact absurd h (by simp)
  · rename_i found hfound
    obtain ⟨-, rfl⟩ : true = stable ∧ found = file := by simpa using h
    exact matched_of_firstMatch hfound
  · split at h
    · exact absurd h (by simp)
    · rename_i found hfound
      obtain ⟨-, rfl⟩ : false = stable ∧ found = file := by simpa using h
      exact matched_of_firstMatch hfound
    · exact absurd h (by simp)

/-- **What is selected**: a file of the right architecture. -/
theorem selectFile_eq_ok {py : Python} {idx : Index} {package : Str} {demanded : Option Str}
    {path : PkgPath} {version : Str}
    (h : selectFile py idx package demanded = .ok (path, version)) :
    path.osVersion = idx.osVersion ∧ path.arch = idx.arch ∧
      getPkgDownloadPath py idx.avlPkgs idx.avlPkgsStbl package demanded =
        .ok (some (path.stable, path.file)) ∧
      demanded.elim (getPkgVersion py package path.file) .ok = .ok version := by
  rw [selectFile] at h
  cases hfound : getPkgDownloadPath py idx.avlPkgs idx.avlPkgsStbl package demanded with
  | error e =>
      rw [hfound] at h
      exact absurd h (by simp [bind, Except.bind])
  | ok found =>
      rw [hfound] at h
      cases found with
      | none => exact absurd h (by simp [bind, Except.bind, throw, throwThe, MonadExceptOf.throw])
      | some found =>
          obtain ⟨stable, file⟩ := found
          cases hversion : demanded.elim (getPkgVersion py package file) Except.ok with
          | error e =>
              simp only [bind, Except.bind, hversion] at h
              exact absurd h (by simp)
          | ok v =>
              simp only [bind, Except.bind, hversion, pure, Except.pure, Except.ok.injEq,
                Prod.mk.injEq] at h
              obtain ⟨rfl, rfl⟩ := h
              exact ⟨rfl, rfl, rfl, hversion⟩

/-! ### The recursion -/

/-- **What is known of a call** that has returned. -/
structure Returned (py : Python) (idx : Index) (pkg : Str) (wanted : Option Str) (st : Download)
    (result : Str) (st' : Download) (c : Call) : Prop where
  mem : c ∈ st'.calls
  package : c.package = pkg
  demanded : c.demanded = wanted
  version : c.version = result
  selected : selectFile py idx pkg wanted = .ok (c.path, result)
  old : getExistingVersion py st.config idx.arch pkg = .ok c.old
  before : c.before = st.disk
  after : c.after = st'.disk
  idle : c.Skipped → c.after = c.before
  present : ¬c.Skipped → c.path ∈ c.after

section Recursion

variable {py : Python} {mirror : Mirror} {idx : Index}

/-- Looking for the version before changes nothing. -/
theorem existingVersion_leads {st : Download} {package : Str} :
    Leads (Goes py) st (existingVersion py idx package) fun old st' =>
      getExistingVersion py st.config idx.arch package = .ok old ∧ st' = st := by
  refine Leads.bind Leads.get fun before st' _ h => ?_
  obtain ⟨rfl, rfl⟩ := h
  split
  · exact Leads.throw
  · rename_i hold
    exact Leads.pure ⟨hold, rfl⟩

/-- The loop over dependencies asks for each of them. -/
theorem downloadDependencies_leads {download : Str → Option Str → DownloadM Str} {st : Download}
    {deps : List (Str × Str)} (hdownload : ∀ st package demanded, Leads (Goes py) st
      (download package demanded) fun version st' =>
        ∃ c, Returned py idx package demanded st version st' c) :
    Leads (Goes py) st (downloadDependencies py idx download deps) fun _ st' =>
      ∀ dep ∈ deps, ∃ c ∈ st'.calls, c.package = dep.1 ∧ c.demanded = some dep.2 ∧
        c.path.osVersion = idx.osVersion ∧ c.path.arch = idx.arch := by
  refine Leads.forM (fun dep st₁ st₂ h ⟨c, hc, hdep⟩ => ⟨c, h.calls hc, hdep⟩) fun dep _ st' _ => ?_
  refine Leads.bind (hdownload st' dep.1 (some dep.2)) fun version st₁ _ ⟨c, hc⟩ => ?_
  refine setVersion_leads.weaken fun _ st₂ h₂ _ => ?_
  obtain ⟨hos, harch, -⟩ := selectFile_eq_ok hc.selected
  exact ⟨c, h₂.calls hc.mem, hc.package, hc.demanded, hos, harch⟩

/-- The files that a call leaves if it is not skipped. -/
theorem downloadNewer_leads {download : Str → Option Str → DownloadM Str} {st : Download}
    {path : PkgPath} {version : Str} {old : Option Str} (hos : path.osVersion = idx.osVersion)
    (harch : path.arch = idx.arch) (hdownload : ∀ st package demanded, Leads (Goes py) st
      (download package demanded) fun version st' =>
        ∃ c, Returned py idx package demanded st version st' c) :
    Leads (Goes py) st (downloadNewer py mirror idx download path version old) fun _ st' =>
      if old.all (PyString.lt · version) then path ∈ st'.disk ∧ (Sound py st' →
        (∀ c ∈ st'.calls, c.InstallableIn py c.after) → Complete py st'.disk path)
      else st' = st := by
  rw [downloadNewer]
  split
  · refine Leads.bind downloadPackage_leads fun deps st₁ _ ⟨archive, hpath, hdeps⟩ => ?_
    refine (downloadDependencies_leads hdownload).weaken fun _ st₂ h₂ hasked => ?_
    have hpath₂ := h₂.disk path archive hpath
    refine ⟨AList.lookup_isSome.mp (Option.isSome_of_eq_some hpath₂), fun hsound hall => ?_⟩
    refine .of_forall_exists hpath₂ hdeps fun dep hdep => ?_
    obtain ⟨c, hc, hpackage, hdemanded, hos', harch'⟩ := hasked dep hdep
    have hinstallable := (hall c hc).mono (hsound.kept c hc)
    rw [Call.InstallableIn, hdemanded] at hinstallable
    obtain ⟨q, hq, hcomplete⟩ := hinstallable
    refine ⟨q, ⟨?_, ?_, ?_⟩, hcomplete⟩
    · rw [hq.osVersion, hos', hos]
    · rw [hq.arch, harch', harch]
    · rw [← hpackage]
      exact hq.matched
  · exact Leads.pure rfl

/-- **Every call** keeps a run sound, and is among the calls that have returned. -/
theorem recursiveDownload_leads (py : Python) (mirror : Mirror) (idx : Index) (depth : ℕ)
    (st : Download) (package : Str) (demanded : Option Str) :
    Leads (Goes py) st (recursiveDownload py mirror idx depth package demanded)
      fun version st' => ∃ c, Returned py idx package demanded st version st' c := by
  induction depth generalizing st package demanded with
  | zero => exact Leads.throw
  | succ depth ih =>
      rw [recursiveDownload]
      refine Leads.bind Leads.ofExcept fun selected st₁ _ h₁ => ?_
      obtain ⟨hselected, rfl⟩ := h₁
      obtain ⟨path, version⟩ := selected
      obtain ⟨hos, harch, hfound, hversion⟩ := selectFile_eq_ok hselected
      have hmatched := matched_of_getPkgDownloadPath hfound
      dsimp only
      refine Leads.bind Leads.get fun before st₂ _ h₂ => ?_
      obtain ⟨rfl, rfl⟩ := h₂
      refine Leads.bind existingVersion_leads fun old st₃ _ ⟨hold, h₃⟩ => ?_
      subst h₃
      refine Leads.bind (downloadNewer_leads hos harch ih) fun _ st₄ h₄ hnewer => ?_
      set c : Call := ⟨package, demanded, path, version, old, st₃.disk, st₄.disk⟩ with hc
      have hidle : c.Skipped → c.after = c.before := by
        intro hskipped
        rw [if_neg ((Bool.not_eq_true _).mpr (Call.skipped_iff.mp hskipped))] at hnewer
        rw [hc, hnewer]
      have hpresent : ¬c.Skipped → path ∈ st₄.disk ∧ (Sound py st₄ →
          (∀ c ∈ st₄.calls, c.InstallableIn py c.after) → Complete py st₄.disk path) := by
        intro hskipped
        rwa [if_pos ((Bool.not_eq_false _).mp (mt Call.skipped_iff.mpr hskipped))] at hnewer
      have hgoes : Goes py st₄ { st₄ with calls := st₄.calls ++ [c] } := by
        refine ⟨Extends.refl _, List.subset_append_left _ _, rfl, fun h => ?_⟩
        exact h.returned (Extends.refl _) hidle fun hskipped hall =>
          Call.installableIn_of_complete hmatched ((hpresent hskipped).2 h hall)
      refine Leads.bind (Q := fun _ st' => st' = { st₄ with calls := st₄.calls ++ [c] })
        (Leads.modify hgoes rfl) fun _ st₅ _ h₅ => Leads.pure ⟨c, ?_, rfl, rfl, rfl, hselected,
          hold, rfl, ?_, hidle, fun hskipped => (hpresent hskipped).1⟩
      · rw [h₅]
        exact List.mem_append_right _ List.mem_cons_self
      · rw [h₅]

/-- **What the calls of a run leave**: every call that returns leaves what it is for, exactly if
every call that does nothing finds it. The outer call is one of them if it returns. -/
theorem recursiveDownload_installable_iff (py : Python) (mirror : Mirror) (idx : Index) (depth : ℕ)
    (package : Str) (demanded : Option Str) (config : Config) (disk : Disk) :
    let start := Download.start config disk
    let call := recursiveDownload py mirror idx depth package demanded
    let run := final call start
    ((∀ c ∈ run.calls, c.InstallableIn py c.after) ↔
        ∀ c ∈ run.calls, c.Skipped → c.InstallableIn py c.before) ∧
      ∀ version, result call start = some version →
        ∃ c, Returned py idx package demanded start version run c := by
  intro start call run
  have hleads := recursiveDownload_leads py mirror idx depth start package demanded
  have hsound : Sound py run := hleads.final.sound (sound_start py config disk)
  exact ⟨hsound.iff, fun version hresult => hleads.result hresult⟩

end Recursion

/-! ### Two versions of one package -/

/-- What `a` demands: `x` in the version 2.0, and `b`. -/
def contentsOfA : Str := "@depend devel/x:x-*:x-2.0\n@depend devel/b:b-*:b-1.0\n".toList

/-- What `b` demands: `x` in the version 1.0. -/
def contentsOfB : Str := "@depend devel/x:x-*:x-1.0\n".toList

/-- A mirror with `a`, which demands `x-2.0` and `b`, which demands `x-1.0`. -/
def twoVersionsMirror : Mirror where
  fetch path := .fetched <| some <|
    if path.file = "a-1.0.tgz".toList then contentsOfA
    else if path.file = "b-1.0.tgz".toList then contentsOfB
    else []
  page _ _ _ := .error .other

/-- An index with both versions of `x`. -/
def twoVersionsIndex : Index where
  osVersion := "7.5".toList
  arch := "amd64".toList
  avlPkgs := ["a-1.0.tgz".toList, "b-1.0.tgz".toList, "x-1.0.tgz".toList, "x-2.0.tgz".toList]
  avlPkgsStbl := []

/-- Where a file of that mirror goes. -/
def twoVersionsPath (file : Str) : PkgPath := ⟨"7.5".toList, "amd64".toList, false, file⟩

/-- A configuration that records nothing. -/
def emptyConfig : Config where
  defaults := []
  sections := [("amd64".toList, []), ("amd64/dependencies".toList, [])]

/-- A run for `a`. -/
def twoVersionsRun : DownloadM Str :=
  recursiveDownload plainPython twoVersionsMirror twoVersionsIndex 3 ['a'] none

/-- The files that the run leaves. -/
def twoVersionsDisk : Disk := (final twoVersionsRun (Download.start emptyConfig ∅)).disk

/-- One file answers the demand for `b`. -/
theorem answer_b : ∀ q ∈ twoVersionsDisk.keys,
    plainPython.reMatch (downloadPattern plainPython ['b'] (some "1.0".toList))
      (plainPython.lower q.file) = some true → q = twoVersionsPath "b-1.0.tgz".toList := by
  decide +kernel

/-- No file answers the demand for `x` in the version 1.0. -/
theorem no_answer_x : ∀ q ∈ twoVersionsDisk.keys,
    plainPython.reMatch (downloadPattern plainPython ['x'] (some "1.0".toList))
      (plainPython.lower q.file) ≠ some true := by
  decide +kernel

/-- **Two packages demand different versions of a third**, and the older one is not downloaded. -/
theorem not_installable_olderVersion :
    (∀ package, getExistingVersion plainPython emptyConfig "amd64".toList package = .ok none) ∧
      result twoVersionsRun (Download.start emptyConfig ∅) = some "1.0".toList ∧
      ¬Complete plainPython twoVersionsDisk (twoVersionsPath "a-1.0.tgz".toList) := by
  refine ⟨fun package => rfl, by decide +kernel, fun ha => ?_⟩
  have hfileA : twoVersionsDisk.lookup (twoVersionsPath "a-1.0.tgz".toList) =
      some (some contentsOfA) := by
    decide +kernel
  have hfileB : twoVersionsDisk.lookup (twoVersionsPath "b-1.0.tgz".toList) =
      some (some contentsOfB) := by
    decide +kernel
  have hdepsA : getPkgDependencies (some contentsOfA) =
      .ok [(['x'], "2.0".toList), (['b'], "1.0".toList)] := by
    decide
  have hdepsB : getPkgDependencies (some contentsOfB) = .ok [(['x'], "1.0".toList)] := by
    decide
  obtain ⟨q, hq, hb⟩ := ha.exists_answer hfileA hdepsA
    (List.mem_cons_of_mem _ List.mem_cons_self)
  obtain rfl := answer_b q (AList.mem_keys.mp hb.mem) hq.matched
  obtain ⟨q, hq, hx⟩ := hb.exists_answer hfileB hdepsB List.mem_cons_self
  exact no_answer_x q (AList.mem_keys.mp hx.mem) hq.matched

end DataDiode
