import DataDiode.Holdings
import DataDiode.Selection

/-!
# Nothing to Do

A run of `download_packages` that ends normally has recorded, for every configured package, the
version that the index offers, and has gone through all dependencies that were recorded before. A
version that is recorded is not downloaded again. So while the mirror stays as it is, another run by
what was recorded leaves everything as it is.

Every run is a process of its own, with an order of its own for the sets of package files, and may
select another file than the run before it. The files that it may select for a configured package
must therefore be of one version; for a dependency it asks for the recorded version anyway.

## Main results

* `downloadMain_upToDate`: what is recorded behind a run that ends normally.
* `downloadMain_still`: a run by such a configuration, in another process.
* `offered_unique`, `oneVersion_of_determined`: when processes agree about a version.
* `reruns_idle`: a run and any number of runs after it.
-/

namespace PyString

/-- No version is greater than itself. -/
theorem lt_self (s : List Char) : lt s s = false := by
  induction s with
  | nil => rfl
  | cons c s ih => simp [lt, ih]

end PyString

namespace ConfigParser

variable {α : Type}

/-! ### Dictionaries -/

/-- The first entry of a dictionary, and the others. -/
theorem lookup_cons (k : List Char) (v : α) (d : Dict α) (k' : List Char) :
    List.lookup k' ((k, v) :: d) = if k' = k then some v else d.lookup k' := by
  by_cases h : k' = k
  · rw [if_pos h, h, List.lookup_cons_self]
  · rw [if_neg h, List.lookup_cons, beq_false_of_ne h]

/-- What is stored under a key, and nothing else, is found there. -/
theorem lookup_insert (d : Dict α) (k : List Char) (v : α) (k' : List Char) :
    (insert d k v).lookup k' = if k' = k then some v else d.lookup k' := by
  induction d with
  | nil => exact lookup_cons k v [] k'
  | cons o d ih =>
      obtain ⟨k₀, v₀⟩ := o
      rw [insert]
      split
      · rename_i h
        subst h
        rw [lookup_cons, lookup_cons]
        split <;> rfl
      · rename_i h
        rw [lookup_cons, lookup_cons, ih]
        split
        · rename_i hk₀
          rw [hk₀, if_neg h]
        · rfl

/-- Storing what is there changes nothing. -/
theorem insert_of_lookup {d : Dict α} {k : List Char} {v : α} (h : d.lookup k = some v) :
    insert d k v = d := by
  induction d with
  | nil => exact absurd h (by simp)
  | cons o d ih =>
      obtain ⟨k₀, v₀⟩ := o
      rw [insert]
      split
      · rename_i hk
        subst hk
        rw [lookup_cons, if_pos rfl] at h
        rw [Option.some.inj h]
      · rename_i hk
        rw [lookup_cons, if_neg (Ne.symm hk)] at h
        rw [ih h]

/-! ### Values without references -/

/-- A value without `%` consists of characters. -/
theorem tokens_of_notMem {v : List Char} (h : '%' ∉ v) : tokens 0 v = some (v.map .char) := by
  induction v with
  | nil => rfl
  | cons c v ih =>
      rw [List.mem_cons, not_or] at h
      rw [tokens, ih h.2]
      · rfl
      · rintro s rfl
        exact absurd rfl h.1
      · rintro rfl
        exact absurd rfl h.1

/-- A value without `%` has no references to take out. -/
theorem dropReferences_of_notMem {v : List Char} (h : '%' ∉ v) : dropReferences 0 v = v := by
  induction v with
  | nil => rfl
  | cons c v ih =>
      rw [List.mem_cons, not_or] at h
      rw [dropReferences, if_neg (Ne.symm h.1)]
      exact congrArg _ (ih h.2)

/-- A value without `%` may be set. -/
theorem isValue_of_notMem {v : List Char} (h : '%' ∉ v) : isValue v = true := by
  rw [isValue, PyString.replace_of_notMem h, dropReferences_of_notMem h]
  exact decide_eq_true h

/-- Interpolation leaves it as it is. -/
theorem interpolate_of_notMem {lower : List Char → List Char}
    {map : List Char → Option (List Char)} {depth : ℕ} {v : List Char} (h : '%' ∉ v) :
    interpolate lower map (depth + 1) v = some v := by
  have hparts : ∀ (f : Token → Option (List Char)), (∀ c, f (.char c) = some [c]) →
      ∀ v : List Char, (v.map Token.char).mapM f = some (v.map fun c => [c]) := by
    intro f hf v
    induction v with
    | nil => rfl
    | cons c v ih => simp [hf, ih]
  rw [interpolate, tokens_of_notMem h, Option.bind_eq_bind, Option.bind_some,
    hparts _ (fun c => rfl)]
  change some (v.map fun c => [c]).flatten = some v
  rw [← List.flatMap_def, List.flatMap_singleton']

namespace Config

variable {lower : List Char → List Char} {config config' : Config}
  {sec option value name : List Char}

/-! ### Options -/

/-- The value of an option that a section has itself. -/
def own (config : Config) (sec name : List Char) : Option (List Char) :=
  (config.sections.lookup sec).bind (·.lookup name)

/-- An option is looked up in its section, and then among the defaults. -/
theorem lookup_eq : config.lookup sec name =
    (config.own sec name).or (config.defaults.lookup name) := by
  rw [lookup, own]
  cases config.sections.lookup sec <;> rfl

/-- The options of a section are its own and the defaults. -/
theorem mem_options_iff : name ∈ config.options sec ↔
    (config.own sec name).isSome ∨ (config.defaults.lookup name).isSome := by
  have hmem : ∀ d : Dict (List Char), name ∈ d.map Prod.fst ↔ (d.lookup name).isSome := by
    intro d
    simp [List.lookup_isSome_iff]
  have hown : (config.own sec name).isSome ↔
      name ∈ ((config.sections.lookup sec).getD []).map Prod.fst := by
    rw [hmem, own]
    cases config.sections.lookup sec <;> rfl
  rw [options, hown, ← hmem config.defaults]
  simp only [List.mem_append, List.mem_filter, decide_eq_true_eq]
  tauto

/-- The sections that there are. -/
theorem mem_sectionNames_iff : sec ∈ config.sectionNames ↔ (config.sections.lookup sec).isSome := by
  simp [sectionNames, List.lookup_isSome_iff]

/-- What `get` depends on. -/
theorem get_congr
    (hsec : (config'.sections.lookup sec).isSome = (config.sections.lookup sec).isSome)
    (hlookup : config'.lookup sec = config.lookup sec) :
    config'.get lower sec option = config.get lower sec option := by
  rw [get, get, hlookup]
  cases hnew : config'.sections.lookup sec <;> cases hold : config.sections.lookup sec
  · rfl
  · simp [hnew, hold] at hsec
  · simp [hnew, hold] at hsec
  · cases config.lookup sec (lower option) <;> rfl

/-- What `set` does. -/
theorem set_eq_ok (h : config.set lower sec option value = .ok config') :
    ∃ options, config.sections.lookup sec = some options ∧ config' = { config with
      sections := insert config.sections sec (insert options (lower option) value) } := by
  rw [set] at h
  split at h
  · exact absurd h (by simp)
  split at h
  · exact absurd h (by simp)
  · rename_i options hoptions
    exact ⟨options, hoptions, (Except.ok.inj h).symm⟩

/-- What `set` stores, and nothing else. -/
theorem own_set (h : config.set lower sec option value = .ok config') (s k : List Char) :
    config'.own s k = if s = sec ∧ k = lower option then some value else config.own s k := by
  obtain ⟨options, hoptions, rfl⟩ := set_eq_ok h
  rw [own, lookup_insert]
  by_cases hs : s = sec
  · rw [if_pos hs, Option.bind_some, lookup_insert, own, hs, hoptions, Option.bind_some]
    simp
  · rw [if_neg hs, if_neg fun h => hs h.1, own]

/-- `set` adds no section. -/
theorem isSome_sections_set (h : config.set lower sec option value = .ok config')
    (s : List Char) :
    (config'.sections.lookup s).isSome = (config.sections.lookup s).isSome := by
  obtain ⟨options, hoptions, rfl⟩ := set_eq_ok h
  rw [lookup_insert]
  by_cases hs : s = sec
  · rw [if_pos hs, hs, hoptions]
    rfl
  · rw [if_neg hs]

/-- Setting a value that is there changes nothing. -/
theorem set_of_own (h : config.own sec (lower option) = some value) (hvalue : '%' ∉ value) :
    config.set lower sec option value = .ok config := by
  rw [own] at h
  obtain ⟨options, hoptions, hoption⟩ := Option.bind_eq_some_iff.mp h
  rw [set, isValue_of_notMem hvalue, if_neg (by simp), hoptions]
  dsimp only
  rw [insert_of_lookup hoption, insert_of_lookup hoptions]

/-- A section that is added has no options. -/
theorem own_addSection (sec s k : List Char) :
    (config.addSection sec).own s k = config.own s k := by
  rw [own, own, addSection, List.lookup_append]
  cases config.sections.lookup s with
  | some options => rfl
  | none =>
      rw [Option.none_or, lookup_cons]
      split <;> rfl

/-- Two configurations with the same defaults and sections. -/
theorem eq_of_fields (hdefaults : config.defaults = config'.defaults)
    (hsections : config.sections = config'.sections) : config = config' := by
  cases config
  cases config'
  exact congrArg₂ Config.mk hdefaults hsections

/-- Nothing in a configuration refers to something else. -/
def NoReferences (config : Config) : Prop :=
  ∀ options ∈ config.defaults :: config.sections.map Prod.snd, ∀ o ∈ options, '%' ∉ o.2

/-- What is found in a dictionary is in it. -/
theorem mem_of_lookup {d : Dict α} {k : List Char} {v : α} (h : d.lookup k = some v) :
    (k, v) ∈ d := by
  obtain ⟨front, rest, rfl, -⟩ := List.lookup_eq_some_iff.mp h
  simp

/-- An option of a section is no reference. -/
theorem NoReferences.own (h : config.NoReferences) (hvalue : config.own sec name = some value) :
    '%' ∉ value := by
  obtain ⟨options, hoptions, hoption⟩ := Option.bind_eq_some_iff.mp hvalue
  exact h options (List.mem_cons_of_mem _ (List.mem_map_of_mem (f := Prod.snd)
    (mem_of_lookup hoptions))) _ (mem_of_lookup hoption)

/-- What is looked up is no reference. -/
theorem NoReferences.lookup (h : config.NoReferences)
    (hvalue : config.lookup sec name = some value) : '%' ∉ value := by
  rw [lookup_eq, Option.or_eq_some_iff] at hvalue
  rcases hvalue with hvalue | ⟨-, hvalue⟩
  · exact h.own hvalue
  · exact h config.defaults List.mem_cons_self _ (mem_of_lookup hvalue)

/-- What `get` gets then. -/
theorem NoReferences.get (h : config.NoReferences) :
    config.get lower sec option =
      .ok ((config.sections.lookup sec).bind fun _ => config.lookup sec (lower option)) := by
  rw [Config.get]
  cases hsec : config.sections.lookup sec with
  | none => rfl
  | some options =>
      cases hvalue : config.lookup sec (lower option) with
      | none => rfl
      | some value =>
          dsimp only
          rw [maxDepth, interpolate_of_notMem (h.lookup hvalue)]
          rfl

end Config

end ConfigParser

namespace DataDiode

open ConfigParser Script

/-! ### What a run leaves -/

/-- A section of dependencies. -/
def IsDependencies (sec : Str) : Prop := "/dependencies".toList <:+: sec

/-- The section of the dependencies of an architecture. -/
theorem isDependencies_append (arch : Str) : IsDependencies (arch ++ "/dependencies".toList) :=
  (List.suffix_append _ _).isInfix

/-- Options are in lower case. -/
def Lowered (py : Python) (config : Config) : Prop :=
  ∀ sec, ∀ k ∈ config.options sec, py.lower k = k

/-- The version of a package that the index offers, as this process walks over it. -/
def Offered (py : Python) (mirror : Mirror) (osVersion arch package version : Str) : Prop :=
  ∃ idx path, getIndex py mirror osVersion arch = .ok idx ∧
    selectFile py idx package none = .ok (path, version)

/-- **An architecture is up to date**: what is recorded for its packages is what the index offers,
and all its dependencies are recorded. -/
structure UpToDate (py : Python) (mirror : Mirror) (osVersion : Str) (config : Config)
    (arch : Str) : Prop where
  package : ∀ p ∈ config.options arch, ∃ v, config.own arch p = some v ∧
    Offered py mirror osVersion arch p v
  recorded : (config.sections.lookup (arch ++ "/dependencies".toList)).isSome
  dependency : ∀ k ∈ config.options (arch ++ "/dependencies".toList),
    (config.own (arch ++ "/dependencies".toList) k).isSome

/-- A stretch of a run, as far as the configuration goes. -/
structure Moves (py : Python) (mirror : Mirror) (osVersion : Str) (st st' : Download) : Prop where
  defaults : st'.config.defaults = st.config.defaults
  sections : ∀ sec, (st.config.sections.lookup sec).isSome →
    (st'.config.sections.lookup sec).isSome
  old : ∀ sec, ¬IsDependencies sec → (st'.config.sections.lookup sec).isSome →
    (st.config.sections.lookup sec).isSome
  kept : ∀ sec k, (st.config.own sec k).isSome → (st'.config.own sec k).isSome
  offered : ∀ sec k v, ¬IsDependencies sec → st'.config.own sec k = some v →
    st.config.own sec k = some v ∨ Offered py mirror osVersion sec k v
  openBsd : ∀ k, st'.config.own "OpenBSD".toList k = st.config.own "OpenBSD".toList k
  lowered : Lowered py st.config → Lowered py st'.config

variable {py : Python} {mirror : Mirror} {osVersion : Str}

/-- Moves may be put one behind the other. -/
instance : IsPreorder Download (Moves py mirror osVersion) where
  refl _ := ⟨rfl, fun _ => id, fun _ _ => id, fun _ _ => id, fun _ _ _ _ => Or.inl, fun _ => rfl,
    id⟩
  trans _ _ _ h h' := {
    defaults := h'.defaults.trans h.defaults
    sections := fun sec => h'.sections sec ∘ h.sections sec
    old := fun sec hsec => h.old sec hsec ∘ h'.old sec hsec
    kept := fun sec k => h'.kept sec k ∘ h.kept sec k
    offered := fun sec k v hsec hv =>
      (h'.offered sec k v hsec hv).elim (h.offered sec k v hsec) Or.inr
    openBsd := fun k => (h'.openBsd k).trans (h.openBsd k)
    lowered := h'.lowered ∘ h.lowered }

section Moves

variable {st st' : Download}

/-- A step that leaves the configuration alone. -/
theorem Moves.of_config_eq (h : st'.config = st.config) : Moves py mirror osVersion st st' := by
  have hsame := refl (r := Moves py mirror osVersion) st
  exact ⟨h ▸ rfl, h ▸ hsame.sections, h ▸ hsame.old, h ▸ hsame.kept, h ▸ hsame.offered,
    h ▸ hsame.openBsd, h ▸ hsame.lowered⟩

/-- An option behind a stretch was one before, or is one of the section now. -/
theorem Moves.option (h : Moves py mirror osVersion st st') {sec k : Str}
    (hk : k ∈ st'.config.options sec) :
    (st'.config.own sec k).isSome ∨ k ∈ st.config.options sec := by
  rw [Config.mem_options_iff] at hk ⊢
  exact hk.imp_right fun hk => Or.inr (h.defaults ▸ hk)

/-- What the index offers stays recorded. -/
theorem Moves.offer (h : Moves py mirror osVersion st st') {arch p : Str}
    (harch : ¬IsDependencies arch)
    (hp : ∃ v, st.config.own arch p = some v ∧ Offered py mirror osVersion arch p v) :
    ∃ v, st'.config.own arch p = some v ∧ Offered py mirror osVersion arch p v := by
  obtain ⟨v, hv, hoffered⟩ := hp
  obtain ⟨v', hv'⟩ := Option.isSome_iff_exists.mp (h.kept arch p (by simp [hv]))
  refine ⟨v', hv', (h.offered arch p v' harch hv').elim (fun hold => ?_) id⟩
  obtain rfl := Option.some.inj (hold.symm.trans hv)
  exact hoffered

/-- All packages are recorded if those are that were options before. -/
theorem Moves.packages (h : Moves py mirror osVersion st st') {arch : Str}
    (harch : ¬IsDependencies arch) (hpackages : ∀ p ∈ st.config.options arch,
      ∃ v, st'.config.own arch p = some v ∧ Offered py mirror osVersion arch p v) :
    ∀ p ∈ st'.config.options arch,
      ∃ v, st'.config.own arch p = some v ∧ Offered py mirror osVersion arch p v := by
  intro p hp
  rcases h.option hp with hown | hp
  · obtain ⟨v, hv⟩ := Option.isSome_iff_exists.mp hown
    rcases h.offered arch p v harch hv with hold | hoffered
    · exact hpackages p (Config.mem_options_iff.mpr (Or.inl (by simp [hold])))
    · exact ⟨v, hv, hoffered⟩
  · exact hpackages p hp

/-- An architecture that is up to date stays so. -/
theorem Moves.upToDate (h : Moves py mirror osVersion st st') {arch : Str}
    (harch : ¬IsDependencies arch) (hs : UpToDate py mirror osVersion st.config arch) :
    UpToDate py mirror osVersion st'.config arch :=
  ⟨h.packages harch fun p hp => h.offer harch (hs.package p hp), h.sections _ hs.recorded,
    fun _ hk => (h.option hk).elim id fun hk => h.kept _ _ (hs.dependency _ hk)⟩

/-- A version is recorded: for a dependency, or the one that the index offers. -/
theorem setVersion_moves (hlower : ∀ s, py.lower (py.lower s) = py.lower s)
    {sec package version : Str} (hsec : IsDependencies sec ∨
      sec ≠ "OpenBSD".toList ∧ Offered py mirror osVersion sec (py.lower package) version) :
    Leads (Moves py mirror osVersion) st (setVersion py sec package version) fun _ st' =>
      st'.config.own sec (py.lower package) = some version := by
  rw [setVersion]
  refine Leads.bind Leads.get fun _ st₁ _ h => ?_
  obtain ⟨rfl, rfl⟩ := h
  split
  · exact Leads.throw
  rename_i config hset
  have hown := Config.own_set hset
  have hsections := Config.isSome_sections_set hset
  have hdefaults : config.defaults = st₁.config.defaults := by
    obtain ⟨options, -, rfl⟩ := Config.set_eq_ok hset
    rfl
  refine Leads.modify ⟨hdefaults, fun s h => ?_, fun s _ h => ?_, fun s k h => ?_,
    fun s k v hs h => ?_, fun k => ?_, fun h s k hk => ?_⟩ ?_
  · rwa [hsections]
  · rwa [hsections] at h
  · rw [hown]
    split
    · rfl
    · exact h
  · rw [hown] at h
    split at h
    · rename_i hthere
      obtain ⟨rfl, rfl⟩ := hthere
      obtain rfl := Option.some.inj h
      exact Or.inr (hsec.resolve_left hs).2
    · exact Or.inl h
  · refine (hown _ k).trans (if_neg fun hthere => ?_)
    rcases hsec with hsec | hsec
    · rw [← hthere.1] at hsec
      exact absurd hsec (by rw [IsDependencies]; decide)
    · exact hsec.1 hthere.1.symm
  · rw [Config.mem_options_iff, hown, hdefaults] at hk
    by_cases hthere : s = sec ∧ k = py.lower package
    · rw [hthere.2, hlower]
    · rw [if_neg hthere] at hk
      exact h s k (Config.mem_options_iff.mpr hk)
  · rw [hown, if_pos ⟨rfl, rfl⟩]

end Moves

section Runs

variable {depth : ℕ} {st : Download}

/-- A download leaves the configuration alone. -/
theorem downloadPackage_moves {path : PkgPath} :
    Leads (Moves py mirror osVersion) st (downloadPackage mirror path) fun _ _ => True := by
  rw [downloadPackage]
  refine Leads.bind Leads.get fun _ st' _ _ => ?_
  split
  · exact Leads.ofExcept.weaken fun _ _ _ _ => trivial
  split
  · exact Leads.bind (Q := fun _ _ => True) (Leads.modify (.of_config_eq rfl) trivial)
      fun _ _ _ _ => Leads.throw
  · exact Leads.bind (Q := fun _ _ => True) (Leads.modify (.of_config_eq rfl) trivial)
      fun _ _ _ _ => Leads.ofExcept.weaken fun _ _ _ _ => trivial

/-- **A recursive download** only makes moves; its result is the version of the selected file. -/
theorem recursiveDownload_moves (hlower : ∀ s, py.lower (py.lower s) = py.lower s) (idx : Index)
    (depth : ℕ) (st : Download) (package : Str) (demanded : Option Str) :
    Leads (Moves py mirror osVersion) st
      (recursiveDownload py mirror idx depth package demanded) fun version _ =>
        ∃ path, selectFile py idx package demanded = .ok (path, version) :=
  recursiveDownload_along (fun _ => downloadPackage_moves)
    ((setVersion_moves hlower (Or.inl (isDependencies_append _))).weaken fun _ _ _ _ => trivial)
    (.of_config_eq rfl) depth st package demanded

/-- The index of an architecture is under its name. -/
theorem arch_of_getIndex {arch : Str} {idx : Index}
    (h : getIndex py mirror osVersion arch = .ok idx) : idx.arch = arch := by
  rw [getIndex] at h
  split at h
  · exact absurd h (by simp)
  · exact absurd h (by simp)
  · rw [← Except.ok.inj h]
  · rw [← Except.ok.inj h]

/-- A configured package. -/
theorem updatePackage_moves (hlower : ∀ s, py.lower (py.lower s) = py.lower s) {arch : Str}
    {idx : Index} (hidx : getIndex py mirror osVersion arch = .ok idx)
    (harch : arch ≠ "OpenBSD".toList)
    {package : Str} (hpackage : py.lower package = package) :
    Leads (Moves py mirror osVersion) st (updatePackage py mirror idx depth package) fun _ st' =>
      ∃ v, st'.config.own arch package = some v ∧ Offered py mirror osVersion arch package v := by
  obtain rfl := arch_of_getIndex hidx
  rw [updatePackage]
  refine Leads.bind Leads.get fun before _ _ _ => ?_
  refine Leads.bind (recursiveDownload_moves hlower idx depth _ package none)
    fun version _ _ hselected => ?_
  obtain ⟨path, hselected⟩ := hselected
  have hoffered : Offered py mirror osVersion idx.arch package version :=
    ⟨idx, path, hidx, hselected⟩
  refine Leads.bind (setVersion_moves hlower (Or.inr ⟨harch, by rwa [hpackage]⟩))
    fun _ st₂ _ hown => ?_
  rw [hpackage] at hown
  refine Leads.bind Leads.get fun _ st₃ _ h => ?_
  obtain ⟨-, rfl⟩ := h
  exact Leads.modify (.of_config_eq rfl) ⟨version, hown, hoffered⟩

/-- A recorded dependency. -/
theorem updateDependency_moves (hlower : ∀ s, py.lower (py.lower s) = py.lower s) {idx : Index}
    {package : Str} :
    Leads (Moves py mirror osVersion) st (updateDependency py mirror idx depth package)
      fun _ st' => (st'.config.own idx.depSection (py.lower package)).isSome := by
  rw [updateDependency]
  refine Leads.bind Leads.get fun before _ _ _ => ?_
  split
  · exact Leads.throw
  · exact Leads.throw
  · refine Leads.bind (recursiveDownload_moves hlower idx depth _ package _) fun _ _ _ _ => ?_
    refine (setVersion_moves hlower (Or.inl (isDependencies_append _))).weaken
      fun _ _ _ hown => ?_
    rw [Index.depSection, hown]
    rfl

/-- **An architecture** is up to date behind its turn. -/
theorem updateArch_moves (hlower : ∀ s, py.lower (py.lower s) = py.lower s)
    (hlowered : Lowered py st.config) {arch : Str} (hdep : ¬IsDependencies arch)
    (harch : arch ≠ "OpenBSD".toList) :
    Leads (Moves py mirror osVersion) st (updateArch py mirror osVersion depth arch)
      fun _ st' => UpToDate py mirror osVersion st'.config arch := by
  rw [updateArch]
  refine Leads.bind (Q := fun _ st' =>
    (st'.config.sections.lookup (arch ++ "/dependencies".toList)).isSome)
    (Leads.modify ?_ ?_) fun _ st₁ h₁ hsec => ?_
  · split
    · exact refl (r := Moves py mirror osVersion) st
    · refine ⟨rfl, fun s h => ?_, fun s hs h => ?_, fun s k h => ?_, fun s k v _ h => ?_,
        fun k => ?_, fun h s k hk => ?_⟩
      · rw [Config.addSection, List.lookup_append, Option.isSome_or, h, Bool.true_or]
      · rw [Config.addSection, List.lookup_append, Option.isSome_or, Bool.or_eq_true] at h
        refine h.resolve_right fun h => hs ?_
        obtain ⟨o, ho, hso⟩ := List.lookup_isSome_iff.mp h
        obtain rfl := List.mem_singleton.mp ho
        rw [eq_of_beq hso]
        exact isDependencies_append arch
      · rwa [Config.own_addSection]
      · rw [Config.own_addSection] at h
        exact Or.inl h
      · exact Config.own_addSection _ _ k
      · rw [Config.mem_options_iff, Config.own_addSection] at hk
        exact h s k (Config.mem_options_iff.mpr hk)
  · split
    · rename_i hcontains
      rw [List.contains_iff_mem, Config.sectionNames, List.mem_map] at hcontains
      obtain ⟨o, ho, hname⟩ := hcontains
      exact List.lookup_isSome_iff.mpr ⟨o, ho, by simp [hname]⟩
    · rw [Config.addSection, List.lookup_append, List.lookup_cons_self]
      simp
  have hlowered₁ := h₁.lowered hlowered
  refine Leads.bind Leads.ofExcept fun idx st₂ _ hofExcept => ?_
  obtain ⟨hidx, rfl⟩ := hofExcept
  have hdepSection : idx.depSection = arch ++ "/dependencies".toList := by
    rw [Index.depSection, arch_of_getIndex hidx]
  refine Leads.bind Leads.get fun s st₃ _ h => ?_
  obtain ⟨rfl, rfl⟩ := h
  -- the configured packages
  refine Leads.bind (Leads.forM (P := fun p st' => ∃ v, st'.config.own arch p = some v ∧
    Offered py mirror osVersion arch p v) (fun p _ _ h hp => h.offer hdep hp)
    fun p hp st' _ => ?_) fun _ st₄ h₄ hpackages => ?_
  · exact updatePackage_moves hlower hidx harch (hlowered₁ arch p hp)
  refine Leads.bind Leads.get fun s st₅ _ h => ?_
  obtain ⟨rfl, rfl⟩ := h
  have hlowered₅ := h₄.lowered hlowered₁
  -- the dependencies
  refine (Leads.forM (P := fun k st' => (st'.config.own idx.depSection (py.lower k)).isSome)
    (fun k _ _ h => h.kept _ _) fun k _ st' _ => updateDependency_moves hlower).weaken
    fun _ st₆ h₆ hdependencies => ?_
  rw [hdepSection] at hdependencies
  refine ⟨h₆.packages hdep fun p hp => h₆.offer hdep (h₄.packages hdep hpackages p hp),
    h₆.sections _ (h₄.sections _ hsec), fun k hk => (h₆.option hk).elim id fun hk => ?_⟩
  have hown := hdependencies k hk
  rwa [hlowered₅ _ k hk] at hown

/-- **A whole run** that ends normally leaves every architecture up to date. -/
theorem downloadMain_upToDate (mirror : Mirror) (depth : ℕ)
    (hlower : ∀ s, py.lower (py.lower s) = py.lower s)
    (hlowered : Lowered py st.config)
    (hversion : st.config.get py.lower "OpenBSD".toList "version".toList = .ok (some osVersion)) :
    Leads (Moves py mirror osVersion) st (downloadMain py mirror depth) fun _ st' =>
      ∀ arch ∈ st'.config.sectionNames, arch ≠ "OpenBSD".toList → ¬IsDependencies arch →
        UpToDate py mirror osVersion st'.config arch := by
  rw [downloadMain]
  refine Leads.bind Leads.get fun _ st₁ _ h => ?_
  obtain ⟨rfl, rfl⟩ := h
  rw [hversion]
  dsimp only
  refine (Leads.forM (P := fun arch st' => ¬IsDependencies arch →
    UpToDate py mirror osVersion st'.config arch)
    (fun arch _ _ h hs hdep => h.upToDate hdep (hs hdep))
    fun arch harch st' h => ?_).weaken fun _ st₂ h₂ hall arch harch hne hdep => ?_
  · obtain ⟨hne, hdep⟩ := of_decide_eq_true (List.mem_filter.mp harch).2
    exact (updateArch_moves hlower (h.lowered hlowered) hdep hne).weaken fun _ _ _ hs _ => hs
  · refine hall arch (List.mem_filter.mpr ⟨?_, decide_eq_true ⟨hne, hdep⟩⟩) hdep
    rw [Config.mem_sectionNames_iff] at harch ⊢
    exact h₂.old arch hdep harch

end Runs

/-! ### A run by what is up to date -/

/-- Nothing happens. -/
def Still (st st' : Download) : Prop := st'.config = st.config ∧ st'.disk = st.disk

/-- Steps that change nothing may be put one behind the other. -/
instance : IsPreorder Download Still where
  refl _ := ⟨rfl, rfl⟩
  trans _ _ _ h h' := ⟨h'.1.trans h.1, h'.2.trans h.2⟩

/-- No configured package is recorded as a dependency in a greater version. -/
def NoneOutrun (config : Config) : Prop :=
  ∀ sec ∈ config.sections, ∀ o ∈ sec.2,
    (config.own (sec.1 ++ "/dependencies".toList) o.1).all (fun w => !PyString.lt o.2 w)

/-- What is recorded for a package is not smaller than what is recorded for it as a dependency. -/
theorem NoneOutrun.lt_eq_false {config : Config} (h : NoneOutrun config) {arch k v w : Str}
    (hv : config.own arch k = some v)
    (hw : config.own (arch ++ "/dependencies".toList) k = some w) : PyString.lt v w = false := by
  obtain ⟨options, hoptions, hoption⟩ := Option.bind_eq_some_iff.mp hv
  have hall := h _ (Config.mem_of_lookup hoptions) _ (Config.mem_of_lookup hoption)
  rw [hw] at hall
  simpa using hall

section Idle

variable {py₀ : Python} {depth : ℕ} {st : Download}

/-- A version that is recorded is not downloaded. -/
theorem recursiveDownload_still {idx : Index} {package : Str} {demanded : Option Str}
    (hrecorded : ∀ path version, selectFile py idx package demanded = .ok (path, version) →
      ∃ old, getExistingVersion py st.config idx.arch package = .ok (some old) ∧
        PyString.lt old version = false) :
    Leads Still st (recursiveDownload py mirror idx depth package demanded) fun version _ =>
      ∃ path, selectFile py idx package demanded = .ok (path, version) := by
  cases depth with
  | zero => exact Leads.throw
  | succ depth =>
      rw [recursiveDownload]
      refine Leads.bind Leads.ofExcept fun selected st₁ _ hofExcept => ?_
      obtain ⟨path, version⟩ := selected
      obtain ⟨hselected, rfl⟩ := hofExcept
      obtain ⟨old, hold, hless⟩ := hrecorded path version hselected
      dsimp only
      refine Leads.bind Leads.get fun before st₂ _ h => ?_
      obtain ⟨rfl, rfl⟩ := h
      refine Leads.bind (Q := fun found st' => found = some old ∧ st' = st₂) ?_
        fun found st₃ _ h => ?_
      · refine Leads.bind Leads.get fun _ st₃ _ h => ?_
        obtain ⟨rfl, rfl⟩ := h
        rw [hold]
        exact Leads.pure ⟨rfl, rfl⟩
      obtain ⟨rfl, rfl⟩ := h
      refine Leads.bind (Q := fun _ _ => True) ?_ fun _ _ _ _ => ?_
      · rw [downloadNewer, if_neg (by simp [hless])]
        exact Leads.pure trivial
      · exact Leads.bind (Q := fun _ _ => True) (Leads.modify ⟨rfl, rfl⟩ trivial)
          fun _ _ _ _ => Leads.pure ⟨path, hselected⟩

/-- Setting the version that is recorded. -/
theorem setVersion_still {sec package version : Str}
    (h : st.config.own sec (py.lower package) = some version) (hplain : '%' ∉ version) :
    Leads Still st (setVersion py sec package version) fun _ _ => True := by
  rw [setVersion]
  refine Leads.bind Leads.get fun _ st₁ _ h' => ?_
  obtain ⟨rfl, rfl⟩ := h'
  rw [Config.set_of_own h hplain]
  exact Leads.modify ⟨rfl, rfl⟩ trivial

/-- What is recorded of a package. -/
theorem getExistingVersion_eq {config : Config} (hrefs : config.NoReferences) {arch package : Str} :
    getExistingVersion py config arch package =
      .ok (((config.sections.lookup arch).bind fun _ =>
        config.lookup arch (py.lower package)).or
          ((config.sections.lookup (arch ++ "/dependencies".toList)).bind fun _ =>
            config.lookup (arch ++ "/dependencies".toList) (py.lower package))) := by
  rw [getExistingVersion, hrefs.get, hrefs.get]
  rfl

variable {idx : Index} {arch package : Str}

/-- A configured package, if the processes agree about its version. -/
theorem updatePackage_still (hrefs : st.config.NoReferences) (hlowered : Lowered py st.config)
    (hs : UpToDate py₀ mirror osVersion st.config arch)
    (hone : ∀ v v', Offered py₀ mirror osVersion arch package v →
      Offered py mirror osVersion arch package v' → v = v')
    (hidx : getIndex py mirror osVersion arch = .ok idx) (hp : package ∈ st.config.options arch) :
    Leads Still st (updatePackage py mirror idx depth package) fun _ _ => True := by
  obtain ⟨v, hv, hoffered⟩ := hs.package package hp
  have hsame : ∀ path version, selectFile py idx package none = .ok (path, version) →
      v = version :=
    fun path version hselected => hone v version hoffered ⟨idx, path, hidx, hselected⟩
  obtain rfl := arch_of_getIndex hidx
  have hlower := hlowered _ package hp
  rw [updatePackage]
  refine Leads.bind Leads.get fun _ st₁ _ h => ?_
  obtain ⟨rfl, rfl⟩ := h
  refine Leads.bind (recursiveDownload_still fun path' version hselected' => ?_)
    fun version st₂ h₂ hselected' => ?_
  · obtain rfl := hsame path' version hselected'
    refine ⟨v, ?_, PyString.lt_self v⟩
    obtain ⟨options, hoptions, -⟩ := Option.bind_eq_some_iff.mp hv
    rw [getExistingVersion_eq hrefs, hlower, hoptions, Option.bind_some, Config.lookup_eq, hv]
    rfl
  obtain ⟨path', hselected'⟩ := hselected'
  obtain rfl := hsame path' version hselected'
  refine Leads.bind (setVersion_still ?_ (hrefs.own hv)) fun _ _ _ _ => ?_
  · rwa [hlower, h₂.1]
  refine Leads.bind Leads.get fun _ _ _ _ => ?_
  exact Leads.modify ⟨rfl, rfl⟩ trivial

/-- A recorded dependency. -/
theorem updateDependency_still (hrefs : st.config.NoReferences) (hlowered : Lowered py st.config)
    (hnone : NoneOutrun st.config) (hs : UpToDate py₀ mirror osVersion st.config idx.arch)
    (hp : package ∈ st.config.options idx.depSection) :
    Leads Still st (updateDependency py mirror idx depth package) fun _ _ => True := by
  obtain ⟨w, hw⟩ := Option.isSome_iff_exists.mp (hs.dependency package hp)
  obtain ⟨options, hoptions, -⟩ := Option.bind_eq_some_iff.mp hw
  have hlower := hlowered _ package hp
  have hfound : st.config.get py.lower idx.depSection package = .ok (some w) := by
    rw [hrefs.get, Index.depSection, hoptions, Option.bind_some, hlower, Config.lookup_eq, hw]
    rfl
  rw [updateDependency]
  refine Leads.bind Leads.get fun _ st₁ _ h => ?_
  obtain ⟨rfl, rfl⟩ := h
  rw [hfound]
  dsimp only
  refine Leads.bind (recursiveDownload_still fun path version hselected => ?_)
    fun version st₂ h₂ hselected => ?_
  · obtain rfl : w = version := Except.ok.inj (selectFile_eq_ok hselected).2.2.2
    rw [getExistingVersion_eq hrefs, hlower, hoptions, Option.bind_some]
    cases hfirst : (st₁.config.sections.lookup idx.arch).bind
        fun _ => st₁.config.lookup idx.arch package with
    | none => exact ⟨w, by rw [Option.none_or, Config.lookup_eq, hw]; rfl, PyString.lt_self w⟩
    | some v =>
        obtain ⟨_, -, hv⟩ := Option.bind_eq_some_iff.mp hfirst
        have hoption : package ∈ st₁.config.options idx.arch := by
          rw [Config.lookup_eq, Option.or_eq_some_iff] at hv
          exact Config.mem_options_iff.mpr (hv.imp (fun h => by simp [h]) fun h => by simp [h.2])
        obtain ⟨v', hv', -⟩ := hs.package package hoption
        rw [Config.lookup_eq, hv', Option.some_or] at hv
        obtain rfl := Option.some.inj hv
        exact ⟨v', rfl, hnone.lt_eq_false hv' hw⟩
  obtain ⟨path, hselected⟩ := hselected
  obtain rfl : w = version := Except.ok.inj (selectFile_eq_ok hselected).2.2.2
  refine setVersion_still ?_ (hrefs.own hw)
  rwa [hlower, h₂.1]

/-- An architecture. -/
theorem updateArch_still (hrefs : st.config.NoReferences) (hlowered : Lowered py st.config)
    (hnone : NoneOutrun st.config) (hs : UpToDate py₀ mirror osVersion st.config arch)
    (hone : ∀ p ∈ st.config.options arch, ∀ v v', Offered py₀ mirror osVersion arch p v →
      Offered py mirror osVersion arch p v' → v = v') :
    Leads Still st (updateArch py mirror osVersion depth arch) fun _ _ => True := by
  rw [updateArch]
  refine Leads.bind (Q := fun _ _ => True) (Leads.modify ?_ trivial) fun _ st₁ h₁ _ => ?_
  · rw [if_pos (List.contains_iff_mem.mpr (Config.mem_sectionNames_iff.mpr hs.recorded))]
    exact refl (r := Still) st
  refine Leads.bind Leads.ofExcept fun idx st₂ _ hofExcept => ?_
  obtain ⟨hidx, rfl⟩ := hofExcept
  obtain rfl := arch_of_getIndex hidx
  refine Leads.bind Leads.get fun s st₃ _ h => ?_
  obtain ⟨rfl, rfl⟩ := h
  refine Leads.bind ((Leads.forM (P := fun _ _ => True) (fun _ _ _ _ => id)
    fun p hp st' h => ?_)) fun _ st₄ h₄ _ => ?_
  · have hsame : st'.config = st.config := h.1.trans h₁.1
    rw [h₁.1] at hp
    refine updatePackage_still ?_ ?_ ?_ (hone p hp) hidx ?_
    all_goals rwa [hsame]
  refine Leads.bind Leads.get fun s st₅ _ h => ?_
  obtain ⟨rfl, rfl⟩ := h
  refine (Leads.forM (P := fun _ _ => True) (fun _ _ _ _ => id) fun k hk st' h => ?_).weaken
    fun _ _ _ _ => trivial
  have hsame : st'.config = st.config := h.1.trans (h₄.1.trans h₁.1)
  rw [h₄.1, h₁.1] at hk
  exact updateDependency_still (hsame ▸ hrefs) (hsame ▸ hlowered) (hsame ▸ hnone) (hsame ▸ hs)
    (hsame ▸ hk)

/-- **A run by what is up to date** does nothing, if the processes agree about the versions. -/
theorem downloadMain_still (py : Python) (mirror : Mirror) (depth : ℕ) (st : Download)
    (hrefs : st.config.NoReferences) (hlowered : Lowered py st.config)
    (hnone : NoneOutrun st.config)
    (hversion : st.config.get py.lower "OpenBSD".toList "version".toList = .ok (some osVersion))
    (hs : ∀ arch ∈ st.config.sectionNames, arch ≠ "OpenBSD".toList → ¬IsDependencies arch →
      UpToDate py₀ mirror osVersion st.config arch)
    (hone : ∀ arch ∈ st.config.sectionNames, arch ≠ "OpenBSD".toList → ¬IsDependencies arch →
      ∀ p ∈ st.config.options arch, ∀ v v', Offered py₀ mirror osVersion arch p v →
        Offered py mirror osVersion arch p v' → v = v') :
    Leads Still st (downloadMain py mirror depth) fun _ _ => True := by
  rw [downloadMain]
  refine Leads.bind Leads.get fun _ st₁ _ h => ?_
  obtain ⟨rfl, rfl⟩ := h
  rw [hversion]
  dsimp only
  refine (Leads.forM (P := fun _ _ => True) (fun _ _ _ _ => id) fun arch harch st' h => ?_).weaken
    fun _ _ _ _ => trivial
  obtain ⟨hmem, hfilter⟩ := List.mem_filter.mp harch
  obtain ⟨hne, hdep⟩ := of_decide_eq_true hfilter
  have hcurrent : UpToDate py₀ mirror osVersion st'.config arch :=
    h.1 ▸ hs arch hmem hne hdep
  refine updateArch_still ?_ ?_ ?_ hcurrent (h.1 ▸ hone arch hmem hne hdep)
  all_goals rwa [h.1]

end Idle

/-! ### One run after the other -/

/-- A run that ends normally has found the version of OpenBSD. -/
theorem version_of_result {depth : ℕ} {st : Download}
    (h : result (downloadMain py mirror depth) st = some ()) :
    ∃ v, st.config.get py.lower "OpenBSD".toList "version".toList = .ok (some v) := by
  have hleads : Leads (Proceeds py) st (downloadMain py mirror depth) fun _ _ =>
      ∃ v, st.config.get py.lower "OpenBSD".toList "version".toList = .ok (some v) := by
    rw [downloadMain]
    refine Leads.bind Leads.get fun _ st₁ _ h => ?_
    obtain ⟨rfl, rfl⟩ := h
    split
    · exact Leads.throw
    · exact Leads.throw
    · rename_i v hv
      exact (Leads.forM_true fun _ _ => updateArch_leads).weaken fun _ _ _ _ => ⟨v, hv⟩
  exact hleads.result h

/-- What the pages of a mirror link to for a branch: nothing if there is no page. -/
def Mirror.listed (mirror : Mirror) (arch version : Str) (stable : Bool) : Finset Str :=
  match mirror.pkgsAdded arch version stable with
  | .error _ => ∅
  | .ok added => added.toFinset

/-- Some process may select this file for a configured package. -/
structure Selectable (py : Python) (mirror : Mirror) (osVersion arch package file : Str) :
    Prop where
  deciding : file ∈ deciding py (downloadPattern py package none)
    (mirror.listed arch osVersion false) (mirror.listed arch osVersion true)
  matched : Matched py (downloadPattern py package none) file

/-- **All files that may be selected for a package** are of one version. -/
def OneVersion (py : Python) (mirror : Mirror) (osVersion arch package : Str) : Prop :=
  ∀ file file' v v', Selectable py mirror osVersion arch package file →
    Selectable py mirror osVersion arch package file' →
    getPkgVersion py package file = .ok v → getPkgVersion py package file' = .ok v' → v = v'

/-- If one file decides, only its version counts. -/
theorem oneVersion_of_deciding_eq {arch package file : Str}
    (h : deciding py (downloadPattern py package none) (mirror.listed arch osVersion false)
      (mirror.listed arch osVersion true) = {file}) :
    OneVersion py mirror osVersion arch package := by
  intro file₁ file₂ v₁ v₂ hfile₁ hfile₂ hv₁ hv₂
  have honly₁ := hfile₁.deciding
  have honly₂ := hfile₂.deciding
  rw [h, Finset.mem_singleton] at honly₁ honly₂
  rw [honly₂, ← honly₁, hv₁] at hv₂
  exact Except.ok.inj hv₂

/-- **Where the selection is determined**, it is of one version. -/
theorem oneVersion_of_determined {arch package : Str}
    (h : Determined py (mirror.listed arch osVersion false) (mirror.listed arch osVersion true)
      package none) :
    OneVersion py mirror osVersion arch package := by
  intro file file' v v' hfile
  obtain ⟨honly, -⟩ := (determined_iff _ _ _ _ _).mp h file hfile.deciding hfile.matched
  exact oneVersion_of_deciding_eq honly file file' v v' hfile

/-- A process walks over what the pages link to. -/
theorem enumerates_of_getIndex {arch : Str} {idx : Index}
    (h : getIndex py mirror osVersion arch = .ok idx) :
    Enumerates idx.avlPkgs (mirror.listed arch osVersion false) ∧
      Enumerates idx.avlPkgsStbl (mirror.listed arch osVersion true) := by
  have hlisted : ∀ stable files, getPkgList py mirror arch osVersion stable = .ok files →
      Enumerates files (mirror.listed arch osVersion stable) := by
    intro stable files hfiles
    rw [getPkgList] at hfiles
    rw [Mirror.listed]
    cases hadded : mirror.pkgsAdded arch osVersion stable with
    | error e =>
        rw [hadded] at hfiles
        exact absurd hfiles (by simp [Except.map])
    | ok added =>
        rw [hadded] at hfiles
        obtain rfl := Except.ok.inj hfiles
        exact py.order.enumerates added
  rw [getIndex] at h
  split at h
  · exact absurd h (by simp)
  · exact absurd h (by simp)
  · rename_i avl havl hstbl
    obtain rfl := (Except.ok.inj h).symm
    refine ⟨hlisted false avl havl, ?_⟩
    rw [getPkgList] at hstbl
    rw [Mirror.listed]
    cases hadded : mirror.pkgsAdded arch osVersion true with
    | error e => exact ⟨List.nodup_nil, rfl⟩
    | ok added =>
        rw [hadded] at hstbl
        exact absurd hstbl (by simp [Except.map])
  · rename_i avl stbl havl hstbl
    obtain rfl := (Except.ok.inj h).symm
    exact ⟨hlisted false avl havl, hlisted true stbl hstbl⟩

/-- **What is offered** is the version of a file that may be selected. -/
theorem exists_selectable_of_offered {arch package v : Str}
    (h : Offered py mirror osVersion arch package v) :
    ∃ file, Selectable py mirror osVersion arch package file ∧
      getPkgVersion py package file = .ok v := by
  obtain ⟨idx, path, hidx, hselected⟩ := h
  obtain ⟨havl, hstbl⟩ := enumerates_of_getIndex hidx
  obtain ⟨-, -, hfound, hversion⟩ := selectFile_eq_ok hselected
  refine ⟨path.file, ⟨?_, matched_of_getPkgDownloadPath hfound⟩, hversion⟩
  rcases Finset.eq_empty_or_nonempty (deciding py (downloadPattern py package none)
    (mirror.listed arch osVersion false) (mirror.listed arch osVersion true)) with hempty | hne
  · rw [getPkgDownloadPath_of_empty havl hstbl hempty] at hfound
    exact absurd hfound (by simp)
  · obtain ⟨file, hfile, hverdict⟩ := exists_verdict havl hstbl hne
    rw [hfound, verdict] at hverdict
    split_ifs at hverdict
    obtain ⟨-, rfl⟩ : _ ∧ path.file = file := by simpa using hverdict
    exact hfile

/-- Two processes are offered the same version if all files are of one. -/
theorem offered_unique {order order' : SetOrder Str} {arch package v v' : Str}
    (hone : OneVersion py mirror osVersion arch package)
    (h : Offered (py.withOrder order) mirror osVersion arch package v)
    (h' : Offered (py.withOrder order') mirror osVersion arch package v') : v = v' := by
  obtain ⟨file, hfile, hv⟩ := exists_selectable_of_offered h
  obtain ⟨file', hfile', hv'⟩ := exists_selectable_of_offered h'
  exact hone file file' v v' ⟨hfile.deciding, hfile.matched⟩ ⟨hfile'.deciding, hfile'.matched⟩ hv
    hv'

/-- A run: how its process has sets in order, and how deep it may recurse. -/
structure Rerun where
  order : SetOrder Str
  depth : ℕ

/-- The script in a process of its own. -/
def Rerun.main (run : Rerun) (py : Python) (mirror : Mirror) : DownloadM Unit :=
  downloadMain (py.withOrder run.order) mirror run.depth

/-- The configuration and the files after a run. -/
def heldAfter (py : Python) (mirror : Mirror) (held : Config × Disk) (run : Rerun) :
    Config × Disk :=
  let st := final (run.main py mirror) (Download.start held.1 held.2)
  (st.config, st.disk)

/-- **Nothing to do.** Let a run end normally, nothing recorded be a reference, no configured
package be recorded as a dependency in a greater version, and all files that may be selected for a
configured package be of one version. Then any number of further runs by what was recorded, each in
a process with an order of sets of its own, while the mirror stays as it is, change neither the
configuration nor the files, whether they end normally or not. -/
theorem reruns_idle (hlower : ∀ s, py.lower (py.lower s) = py.lower s) {config : Config}
    (hlowered : Lowered py config) {disk : Disk} {first : Rerun}
    (hnormal : result (first.main py mirror) (Download.start config disk) = some ())
    {held : Config × Disk} (hheld : heldAfter py mirror (config, disk) first = held)
    (hrefs : held.1.NoReferences) (hnone : NoneOutrun held.1)
    (hone : ∀ osVersion, held.1.get py.lower "OpenBSD".toList "version".toList =
        .ok (some osVersion) →
      ∀ arch ∈ held.1.sectionNames, arch ≠ "OpenBSD".toList → ¬IsDependencies arch →
        ∀ package ∈ held.1.options arch, OneVersion py mirror osVersion arch package)
    (runs : List Rerun) :
    runs.foldl (heldAfter py mirror) held = held := by
  obtain ⟨osVersion, hversion⟩ := version_of_result hnormal
  have hleads : Leads (Moves (py.withOrder first.order) mirror osVersion)
      (Download.start config disk) (first.main py mirror) _ :=
    downloadMain_upToDate mirror first.depth hlower hlowered hversion
  have hmoves := hleads.final
  have hcurrent := hleads.result hnormal
  generalize hst : final (first.main py mirror) (Download.start config disk) = st
    at hmoves hcurrent
  obtain rfl : (st.config, st.disk) = held := by rw [← hheld, heldAfter, ← hst]
  have hopenBsd : ¬IsDependencies "OpenBSD".toList := by rw [IsDependencies]; decide
  have hagain : st.config.get py.lower "OpenBSD".toList "version".toList =
      .ok (some osVersion) := by
    refine Eq.trans ?_ hversion
    refine Config.get_congr (Bool.eq_iff_iff.mpr ⟨hmoves.old _ hopenBsd, hmoves.sections _⟩) ?_
    funext k
    rw [Config.lookup_eq, Config.lookup_eq, hmoves.openBsd, hmoves.defaults]
  induction runs with
  | nil => rfl
  | cons run runs ih =>
      rw [List.foldl_cons]
      have hstill : Still (Download.start st.config st.disk)
          (final (run.main py mirror) (Download.start st.config st.disk)) :=
        (downloadMain_still (py.withOrder run.order) mirror run.depth (.start st.config st.disk)
          hrefs (hmoves.lowered hlowered) hnone hagain hcurrent
          fun arch harch hne hdep p hp _ _ =>
            offered_unique (hone osVersion hagain arch harch hne hdep p hp)).final
      rwa [show heldAfter py mirror (st.config, st.disk) run = (st.config, st.disk) from
        Prod.ext hstill.1 hstill.2]

/-! ### Two packages -/

/-- The page of a mirror, with two files for `b`. -/
def pairPage : Str :=
  "<a href=\"../\">../</a>\n<a href=\"a-1.0.tgz\">a-1.0.tgz</a>\n".toList ++
    "<a href=\"b-2.0.tgz\">b-2.0.tgz</a>\n<a href=\"b-2.0p1.tgz\">b-2.0p1.tgz</a>\n".toList

/-- A mirror with `a-1.0.tgz`, which depends on `b-2.0`, of which there are two files. -/
def pairMirror : Mirror where
  fetch path := .fetched (some
    (if path.file = "a-1.0.tgz".toList then "@depend x:b-*:b-2.0".toList else []))
  page _ _ stable := if stable then .error .http else .ok (Utf8.encode pairPage)

/-- The configuration of one package. -/
def pairConfig : Config where
  defaults := []
  sections := [("OpenBSD".toList, [("version".toList, "7.5".toList)]),
    ("amd64".toList, [(['a'], "0".toList)])]

/-- The first run. -/
def pairFirst : Rerun := ⟨.insertion, 3⟩

/-- What a run leaves: two files, and both versions. -/
def pairHeld : Config × Disk := heldAfter plainPython pairMirror (pairConfig, ∅) pairFirst

/-- What the run records. -/
def pairRecorded : Config where
  defaults := []
  sections := [("OpenBSD".toList, [("version".toList, "7.5".toList)]),
    ("amd64".toList, [(['a'], "1.0".toList)]),
    ("amd64/dependencies".toList, [(['b'], "2.0".toList)])]

/-- The version that the first run records. -/
theorem config_pairHeld : pairHeld.1 = pairRecorded := by
  have hfields : (pairHeld.1.defaults, pairHeld.1.sections) =
      (pairRecorded.defaults, pairRecorded.sections) := by
    decide +kernel
  obtain ⟨hdefaults, hsections⟩ := Prod.mk.inj hfields
  exact Config.eq_of_fields hdefaults hsections

/-- The options of the pair are in lower case. -/
theorem lowered_pairConfig : Lowered plainPython pairConfig := by
  have hall : ∀ options ∈ pairConfig.sections, ∀ o ∈ options.2,
      plainPython.lower o.1 = o.1 := by decide
  intro sec k hk
  rcases Config.mem_options_iff.mp hk with hk | hk
  · obtain ⟨v, hv⟩ := Option.isSome_iff_exists.mp hk
    obtain ⟨options, hoptions, hoption⟩ := Option.bind_eq_some_iff.mp hv
    exact hall _ (Config.mem_of_lookup hoptions) _ (Config.mem_of_lookup hoption)
  · exact absurd hk (by simp [pairConfig])

/-- Characters in lower case stay as they are. -/
theorem toLower_toLower (c : Char) : c.toLower.toLower = c.toLower := by
  delta Char.toLower
  split <;> grind [UInt32.toNat_add]

/-- A text in lower case stays as it is. -/
theorem lower_lower (s : Str) :
    plainPython.lower (plainPython.lower s) = plainPython.lower s := by
  change (s.map Char.toLower).map Char.toLower = s.map Char.toLower
  rw [List.map_map]
  exact List.map_congr_left fun c _ => toLower_toLower c

/-- Only one file decides for `a`. -/
theorem deciding_pair : deciding plainPython (downloadPattern plainPython ['a'] none)
    (pairMirror.listed "amd64".toList "7.5".toList false)
    (pairMirror.listed "amd64".toList "7.5".toList true) = {"a-1.0.tgz".toList} := by
  decide +kernel

/-- Further runs do nothing, however they order the files of `b` and however deep they recurse. -/
theorem reruns_idle_pair :
    [⟨.backward, 3⟩, ⟨.insertion, 1⟩, ⟨.backward, 5⟩].foldl (heldAfter plainPython pairMirror)
      pairHeld = pairHeld := by
  have hnormal : result (pairFirst.main plainPython pairMirror) (Download.start pairConfig ∅) =
      some () := by
    decide +kernel
  have hrefs : pairHeld.1.NoReferences := by
    rw [config_pairHeld, Config.NoReferences]
    decide
  have hnone : NoneOutrun pairHeld.1 := by
    rw [config_pairHeld, NoneOutrun]
    decide
  refine reruns_idle lower_lower lowered_pairConfig hnormal (rfl : _ = pairHeld) hrefs hnone ?_ _
  intro osVersion hversion arch harch hne hdep package hpackage
  change pairHeld.1.get _ _ _ = _ at hversion
  change arch ∈ pairHeld.1.sectionNames at harch
  change package ∈ pairHeld.1.options arch at hpackage
  rw [config_pairHeld] at hversion harch hpackage
  have hos : pairRecorded.get plainPython.lower "OpenBSD".toList "version".toList =
      .ok (some "7.5".toList) := by
    decide
  obtain rfl := Option.some.inj (Except.ok.inj (hos.symm.trans hversion))
  have hnames : ∀ arch ∈ pairRecorded.sectionNames, arch ≠ "OpenBSD".toList →
      ¬"/dependencies".toList <:+: arch → arch = "amd64".toList := by
    decide
  obtain rfl := hnames arch harch hne hdep
  obtain rfl : package = ['a'] := List.mem_singleton.mp hpackage
  exact oneVersion_of_deciding_eq deciding_pair

end DataDiode
