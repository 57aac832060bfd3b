import DataDiode.Dependencies

/-!
# Recorded Versions

`main` records a version for every configured package, and the next run goes by it. What it records
is the version of the file that the index offers, whether or not the file was downloaded, and it is
not where the version recorded before is not less, as a string: after 9.0 comes 10.0.

## Main results

* `downloadMain_leads`: what holds throughout a whole run.
* `downloadMain_held_iff`: when a recorded version is that of a file on disk.
* `downloadMain_installable_iff`: what the calls of a whole run leave.
* `not_held_tenth`: a version that is recorded and not there.
-/

namespace DataDiode

open ConfigParser Script

namespace Pin

variable (py : Python) (pin : Pin)

/-- **The recorded version is there**: it is that of a file of the package. -/
def HeldIn (disk : Disk) : Prop :=
  ∃ q ∈ disk, q.osVersion = pin.osVersion ∧ q.arch = pin.arch ∧
    py.reMatch (downloadPattern py pin.package none) (py.lower q.file) = some true ∧
    getPkgVersion py pin.package q.file = .ok pin.version

/-- Nothing was recorded before, or a version that is less. -/
def Newer : Prop :=
  ∃ old, getExistingVersion py pin.config pin.arch pin.package = .ok old ∧
    old.all (PyString.lt · pin.version) = true

variable {py pin}

/-- A pin that is held is held with more files. -/
theorem HeldIn.mono {disk disk' : Disk} (h : pin.HeldIn py disk) (hext : Extends disk disk') :
    pin.HeldIn py disk' := by
  obtain ⟨q, hq, hrest⟩ := h
  obtain ⟨archive, hpath⟩ := Option.isSome_iff_exists.mp (AList.lookup_isSome.mpr hq)
  exact ⟨q, AList.lookup_isSome.mp (Option.isSome_of_eq_some (hext q archive hpath)), hrest⟩

end Pin

/-- What holds of the recorded versions throughout a run: their files stay, and each of them was
there exactly if it was newer or had been there. -/
def PinsSound (py : Python) (st : Download) : Prop :=
  ∀ pin ∈ st.pins, Extends pin.after st.disk ∧
    (pin.HeldIn py pin.after ↔ pin.Newer py ∨ pin.HeldIn py pin.before)

/-- A stretch of a whole run. -/
structure Proceeds (py : Python) (st st' : Download) : Prop where
  disk : Extends st.disk st'.disk
  sound : Sound py st → Sound py st'
  pins : PinsSound py st → PinsSound py st'

/-- What proceeds may be put one behind the other. -/
instance (py : Python) : IsPreorder Download (Proceeds py) where
  refl _ := ⟨Extends.refl _, id, id⟩
  trans _ _ _ h h' := ⟨h.disk.trans h'.disk, h'.sound ∘ h.sound, h'.pins ∘ h.pins⟩

/-- The steps of a selection proceed. -/
theorem Goes.proceeds {py : Python} {st st' : Download} (h : Goes py st st') :
    Proceeds py st st' := by
  refine ⟨h.disk, h.sound, fun hpins => ?_⟩
  rw [PinsSound, h.pins]
  exact fun pin hpin => ⟨(hpins pin hpin).1.trans h.disk, (hpins pin hpin).2⟩

section Main

variable {py : Python} {mirror : Mirror} {idx : Index} {depth : ℕ} {st : Download}

/-- **A configured package**: what is known when its version is recorded. -/
theorem held_iff_of_returned {package version : Str} {st' : Download} {c : Call} {pin : Pin}
    (hpin : pin = ⟨idx.arch, idx.osVersion, package, version, st.config, st.disk, st'.disk⟩)
    (hc : Returned py idx package none st version st' c) :
    pin.HeldIn py pin.after ↔ pin.Newer py ∨ pin.HeldIn py pin.before := by
  subst hpin
  obtain ⟨hos, harch, hfound, hversion⟩ := selectFile_eq_ok hc.selected
  have hmatched := matched_of_getPkgDownloadPath hfound
  by_cases hskipped : c.Skipped
  · have hsame : st'.disk = st.disk := by
      rw [← hc.after, hc.idle hskipped, hc.before]
    dsimp only
    rw [hsame, or_iff_right]
    rintro ⟨old, hold, hnewer⟩
    obtain rfl := Except.ok.inj (hc.old.symm.trans hold)
    rw [Call.skipped_iff, hc.version] at hskipped
    rw [hskipped] at hnewer
    exact absurd hnewer (by simp)
  · refine iff_of_true ⟨c.path, ?_, hos, harch, hmatched, hversion⟩
      (Or.inl ⟨c.old, hc.old, ?_⟩)
    · have hpresent := hc.present hskipped
      rwa [hc.after] at hpresent
    · rw [Call.skipped_iff, hc.version] at hskipped
      exact (Bool.not_eq_false _).mp hskipped

/-- An update of a package proceeds. -/
theorem updatePackage_leads {package : Str} :
    Leads (Proceeds py) st (updatePackage py mirror idx depth package) fun _ _ => True := by
  refine Leads.bind Leads.get fun before st' _ h => ?_
  obtain ⟨rfl, rfl⟩ := h
  refine Leads.bind ((recursiveDownload_leads py mirror idx depth _ package none).mono
    fun _ => Goes.proceeds) fun version st₁ h₁ ⟨c, hc⟩ => ?_
  refine Leads.bind (setVersion_leads.mono fun _ => Goes.proceeds) fun _ st₂ h₂ hdisk => ?_
  refine Leads.bind (Leads.get) fun after st₃ _ h₃ => ?_
  obtain ⟨rfl, rfl⟩ := h₃
  refine Leads.modify ⟨Extends.refl _, fun h => ⟨h.kept, h.idle, h.installable⟩, fun h => ?_⟩
    trivial
  refine List.forall_mem_append.mpr ⟨h, List.forall_mem_singleton.mpr ⟨Extends.refl _, ?_⟩⟩
  exact held_iff_of_returned (by rw [hdisk]) hc

/-- An update of a dependency proceeds. -/
theorem updateDependency_leads {package : Str} :
    Leads (Proceeds py) st (updateDependency py mirror idx depth package) fun _ _ => True := by
  refine Leads.bind Leads.get fun before st' _ _ => ?_
  split
  · exact Leads.throw
  · exact Leads.throw
  · rename_i version _
    refine Leads.bind ((recursiveDownload_leads py mirror idx depth _ package (some version)).mono
      fun _ => Goes.proceeds) fun _ st₁ _ _ => ?_
    exact (setVersion_leads.mono fun _ => Goes.proceeds).weaken fun _ _ _ _ => trivial

/-- An update of an architecture proceeds. -/
theorem updateArch_leads {osVersion arch : Str} :
    Leads (Proceeds py) st (updateArch py mirror osVersion depth arch) fun _ _ => True := by
  have hadd : ∀ sec, Goes py st { st with config := st.config.addSection sec } :=
    fun sec => goes_of_extends (Extends.refl _) rfl rfl
  refine Leads.bind (Q := fun _ _ => True) (Leads.modify ?_ trivial) fun _ _ _ _ => ?_
  · split
    · exact refl (r := Proceeds py) st
    · exact (hadd _).proceeds
  refine Leads.bind Leads.ofExcept fun idx _ _ _ => ?_
  refine Leads.bind Leads.get fun _ _ _ _ => ?_
  refine Leads.bind (Leads.forM_true fun _ _ => updatePackage_leads) fun _ _ _ _ => ?_
  refine Leads.bind Leads.get fun _ _ _ _ => ?_
  exact Leads.forM_true fun _ _ => updateDependency_leads

/-- **A whole run** stays sound, whether it ends normally or not. -/
theorem downloadMain_leads (py : Python) (mirror : Mirror) (depth : ℕ) (st : Download) :
    Leads (Proceeds py) st (downloadMain py mirror depth) fun _ _ => True := by
  refine Leads.bind Leads.get fun _ _ _ _ => ?_
  split
  · exact Leads.throw
  · exact Leads.throw
  · exact Leads.forM_true fun _ _ => updateArch_leads

/-- **Recorded versions are those of files on disk** exactly if each of them was newer, as a string,
than the one recorded before, or its file was there already. The files stay. -/
theorem downloadMain_held_iff (py : Python) (mirror : Mirror) (depth : ℕ) (config : Config)
    (disk : Disk) :
    let run := final (downloadMain py mirror depth) (Download.start config disk)
    ((∀ pin ∈ run.pins, pin.HeldIn py pin.after) ↔
        ∀ pin ∈ run.pins, pin.Newer py ∨ pin.HeldIn py pin.before) ∧
      ∀ pin ∈ run.pins, pin.HeldIn py pin.after → pin.HeldIn py run.disk := by
  intro run
  have hpins : PinsSound py run := (downloadMain_leads py mirror depth _).final.pins
    fun _ h => absurd h List.not_mem_nil
  exact ⟨forall₂_congr fun pin hpin => (hpins pin hpin).2,
    fun pin hpin h => h.mono (hpins pin hpin).1⟩

/-- What the calls of a whole run leave. -/
theorem downloadMain_installable_iff (py : Python) (mirror : Mirror) (depth : ℕ) (config : Config)
    (disk : Disk) :
    let run := final (downloadMain py mirror depth) (Download.start config disk)
    (∀ c ∈ run.calls, c.InstallableIn py c.after) ↔
      ∀ c ∈ run.calls, c.Skipped → c.InstallableIn py c.before := by
  intro run
  exact ((downloadMain_leads py mirror depth _).final.sound (sound_start py config disk)).iff

end Main

/-! ### The tenth version -/

/-- A mirror with a page that links to `x-10.0.tgz`. -/
def tenthMirror : Mirror where
  fetch _ := .fetched (some [])
  page _ _ stable :=
    if stable then .error .http
    else .ok (Utf8.encode "<a href=\"x-10.0.tgz\">x-10.0.tgz</a>\n".toList)

/-- Where `x-9.0.tgz` is. -/
def ninthPath : PkgPath := ⟨"7.5".toList, "amd64".toList, false, "x-9.0.tgz".toList⟩

/-- A configuration of one package, in the version 9.0. -/
def ninthConfig : Config where
  defaults := []
  sections := [("OpenBSD".toList, [("version".toList, "7.5".toList)]),
    ("amd64".toList, [(['x'], "9.0".toList)])]

/-- The version 9.0 is recorded, and there. -/
def ninthStart : Download := Download.start ninthConfig (AList.singleton ninthPath (some []))

/-- A run of the script. -/
def tenthRun : DownloadM Unit := downloadMain plainPython tenthMirror 3

/-- What the run leaves. -/
def tenthEnd : Download := final tenthRun ninthStart

/-- The only file at the end is the old one. -/
theorem keys_tenthEnd : tenthEnd.disk.keys = [ninthPath] := by decide +kernel

/-- What is recorded at the end is the new version. -/
theorem pins_tenthEnd : tenthEnd.pins.map (fun pin => (pin.package, pin.version)) =
    [(['x'], "10.0".toList)] := by
  decide +kernel

/-- The version of the old file. -/
theorem getPkgVersion_ninthPath :
    getPkgVersion plainPython ['x'] ninthPath.file = .ok "9.0".toList := by
  decide

/-- **After 9.0 comes 10.0**, which is recorded, and not downloaded. -/
theorem not_held_tenth :
    getExistingVersion plainPython ninthConfig "amd64".toList ['x'] = .ok (some "9.0".toList) ∧
      getPkgVersion plainPython ['x'] ninthPath.file = .ok "9.0".toList ∧
      ninthPath ∈ ninthStart.disk ∧ result tenthRun ninthStart = some () ∧
      tenthEnd.pins.map (fun pin => (pin.package, pin.version)) = [(['x'], "10.0".toList)] ∧
      ∀ pin ∈ tenthEnd.pins, ¬pin.HeldIn plainPython tenthEnd.disk := by
  refine ⟨by decide, getPkgVersion_ninthPath, ?_, by decide +kernel, pins_tenthEnd,
    fun pin hpin => ?_⟩
  · rw [ninthStart, Download.start, AList.mem_keys, AList.keys_singleton]
    exact List.mem_cons_self
  · have hpinned := List.mem_map_of_mem (f := fun pin : Pin => (pin.package, pin.version)) hpin
    rw [pins_tenthEnd, List.mem_singleton] at hpinned
    obtain ⟨hpackage, hversion⟩ := Prod.mk.inj hpinned
    rintro ⟨q, hq, -, -, -, hheld⟩
    rw [AList.mem_keys, keys_tenthEnd, List.mem_singleton] at hq
    rw [hq, hpackage, hversion, getPkgVersion_ninthPath] at hheld
    exact absurd (Except.ok.inj hheld) (by decide)

end DataDiode
