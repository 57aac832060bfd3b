import DataDiode.ConfigParser
import DataDiode.Enumeration
import DataDiode.Proto
import DataDiode.Scripts
import Mathlib.Data.List.AList

/-!
# Downloading Packages

`download_packages` mirrors packages with what they depend on. For each package it finds a file in
the index by a regular expression, compares its version, as a string, with the one recorded in the
configuration, downloads the file and what it depends on if the version is greater, and records the
version.

What Python does with regular expressions, with lower case and with sets is a parameter, and so is
the mirror: the pages of its branches, and what comes of a download. A run also keeps the calls of
`recursive_download` that have returned, and the versions that `main` has recorded; only statements
look at these.

## Main results

* `links_of_pkgOfLine`: what is taken from a line of a page is a link to a package file.
* `isSome_pkgOfLine_iff`: one is taken from every line that has such a link.
-/

namespace DataDiode

open ConfigParser Script

/-! ### Parameters -/

/-- What the script uses of Python's library. A pattern may be no regular expression. -/
structure Python where
  lower : Str → Str
  /-- `re.match(pattern, s)`: whether there is a match. -/
  reMatch : Str → Str → Option Bool
  /-- `re.search(pattern, s)`: the groups of a match. -/
  reSearch : Str → Str → Option (Option (List (Option Str)))
  /-- How this process walks over a `set` of strings: another one may do so in another order. -/
  order : SetOrder Str

/-- The same library in another process. -/
def Python.withOrder (py : Python) (order : SetOrder Str) : Python := { py with order }

/-- Where a package file is: on the mirror, and below the download directory. -/
structure PkgPath where
  osVersion : Str
  arch : Str
  stable : Bool
  file : Str
  deriving DecidableEq, Repr

/-- The text of `+CONTENTS`, unless the archive cannot be read. -/
abbrev Archive := Option Str

/-- What comes of a download: a failure may leave part of the file. -/
inductive Fetched where
  | failed (left : Option Archive)
  | fetched (archive : Archive)

/-- What `get_pkg_list` raises: an HTTP error, or something else. -/
inductive UrlError where
  | http
  | other
  deriving DecidableEq

/-- What the mirror answers: to a download, and to a request for a page of a branch. -/
structure Mirror where
  fetch : PkgPath → Fetched
  /-- `urlopen(url).read()` for the page of a branch, by its architecture, the version of OpenBSD,
  and whether it is the stable one. -/
  page : Str → Str → Bool → Except UrlError Bytes

/-- The files in the download directory. -/
abbrev Disk := AList fun _ : PkgPath => Archive

/-- What ends a run. -/
inductive Failure where
  | valueError (message : Str)
  | regex
  | noMatch
  | url (e : UrlError)
  | archive
  | index
  | config (e : ConfigParser.Error)
  | key
  | recursion
  deriving DecidableEq

/-- A call of `recursive_download` that has returned: its arguments, the file it selected, the
version it returned, the version it found recorded, and the files before and after it. -/
structure Call where
  package : Str
  demanded : Option Str
  path : PkgPath
  version : Str
  old : Option Str
  before : Disk
  after : Disk

/-- A version that `main` has recorded for a configured package: the configuration and the files
before its turn, and the files when it is recorded. -/
structure Pin where
  arch : Str
  osVersion : Str
  package : Str
  version : Str
  config : Config
  before : Disk
  after : Disk

/-- The state of a run. -/
structure Download where
  config : Config
  disk : Disk
  calls : List Call
  pins : List Pin

/-- The script: it changes the state, and may fail. -/
abbrev DownloadM (α : Type) := EStateM Failure Download α

/-! ### The packages of a branch -/

/-- The text behind the first place where `start` stands. -/
def behindFirst (start : Str) : Str → Option Str
  | [] => none
  | c :: s =>
      if start.isPrefixOf (c :: s) then some ((c :: s).drop start.length) else behindFirst start s

/-- The text before the last place where `stop` stands. -/
def beforeLast (stop : Str) : Str → Option Str
  | [] => none
  | c :: s =>
      match beforeLast stop s with
      | some text => some (c :: text)
      | none => if stop.isPrefixOf (c :: s) then some [] else none

/-- The group of `<a href=\"(.*\.tgz)\".*` in a line. The search takes the first link of the line,
behind which the group is as long as it can be, whatever links it runs over. -/
def pkgOfLine (line : Str) : Option Str :=
  (behindFirst "<a href=\"".toList line).bind fun rest =>
    (beforeLast ".tgz\"".toList rest).map (· ++ ".tgz".toList)

/-- A line links to a package file. -/
def Links (line file : Str) : Prop :=
  ∃ front rest, line = front ++ ("<a href=\"".toList ++ (file ++ '"' :: rest)) ∧
    ".tgz".toList <:+ file

/-- What is found behind a text comes from there. -/
theorem exists_of_behindFirst {start s rest : Str} (h : behindFirst start s = some rest) :
    ∃ front, s = front ++ (start ++ rest) := by
  induction s with
  | nil => exact absurd h (by simp [behindFirst])
  | cons c s ih =>
      rw [behindFirst] at h
      split at h
      · rename_i hstart
        obtain ⟨tail, htail⟩ := List.isPrefixOf_iff_prefix.mp hstart
        rw [← htail, List.drop_left] at h
        exact ⟨[], by rw [← Option.some.inj h, htail, List.nil_append]⟩
      · obtain ⟨front, rfl⟩ := ih h
        exact ⟨c :: front, rfl⟩

/-- The first place is found, so nothing behind a later one is lost. -/
theorem exists_behindFirst {start : Str} (hstart : start ≠ []) (front rest : Str) :
    ∃ more, behindFirst start (front ++ (start ++ rest)) = some (more ++ rest) := by
  obtain ⟨d, start', rfl⟩ := List.exists_cons_of_ne_nil hstart
  induction front with
  | nil =>
      rw [List.nil_append, List.cons_append, behindFirst, ← List.cons_append,
        if_pos (List.isPrefixOf_iff_prefix.mpr (List.prefix_append _ _)), List.drop_left]
      exact ⟨[], rfl⟩
  | cons c front ih =>
      rw [List.cons_append, behindFirst]
      split
      · have hlength : (d :: start').length ≤ (c :: (front ++ (d :: start'))).length := by
          simp only [List.length_cons, List.length_append]
          omega
        refine ⟨(c :: (front ++ (d :: start'))).drop (d :: start').length, ?_⟩
        rw [← List.append_assoc front, ← List.cons_append,
          List.drop_append_of_le_length hlength]
      · exact ih

/-- What is found before a text is followed by it. -/
theorem exists_of_beforeLast {stop s text : Str} (h : beforeLast stop s = some text) :
    ∃ rest, s = text ++ (stop ++ rest) := by
  induction s generalizing text with
  | nil => exact absurd h (by simp [beforeLast])
  | cons c s ih =>
      rw [beforeLast] at h
      split at h
      · rename_i later hlater
        obtain ⟨rest, rfl⟩ := ih hlater
        exact ⟨rest, by rw [← Option.some.inj h, List.cons_append]⟩
      · split at h
        · rename_i hstop
          obtain ⟨rest, hrest⟩ := List.isPrefixOf_iff_prefix.mp hstop
          exact ⟨rest, by rw [← Option.some.inj h, hrest, List.nil_append]⟩
        · exact absurd h (by simp)

/-- A text that is followed by another is found before it. -/
theorem isSome_beforeLast {stop : Str} (hstop : stop ≠ []) (text rest : Str) :
    (beforeLast stop (text ++ (stop ++ rest))).isSome := by
  obtain ⟨d, stop', rfl⟩ := List.exists_cons_of_ne_nil hstop
  induction text with
  | nil =>
      rw [List.nil_append, List.cons_append, beforeLast]
      split
      · rfl
      · rw [← List.cons_append, if_pos (List.isPrefixOf_iff_prefix.mpr (List.prefix_append _ _))]
        rfl
  | cons c text ih =>
      obtain ⟨later, hlater⟩ := Option.isSome_iff_exists.mp ih
      rw [List.cons_append, beforeLast, hlater]
      rfl

/-- **What is taken from a line** is a link of it. -/
theorem links_of_pkgOfLine {line file : Str} (h : pkgOfLine line = some file) :
    Links line file := by
  obtain ⟨rest, hrest, hfile⟩ := Option.bind_eq_some_iff.mp h
  obtain ⟨text, htext, rfl⟩ := Option.map_eq_some_iff.mp hfile
  obtain ⟨front, rfl⟩ := exists_of_behindFirst hrest
  obtain ⟨behind, rfl⟩ := exists_of_beforeLast htext
  refine ⟨front, behind, ?_, List.suffix_append _ _⟩
  rw [List.append_assoc text]
  rfl

/-- **Every line with a link** has one that is taken. -/
theorem isSome_pkgOfLine_iff {line : Str} :
    (pkgOfLine line).isSome ↔ ∃ file, Links line file := by
  constructor
  · intro h
    obtain ⟨file, hfile⟩ := Option.isSome_iff_exists.mp h
    exact ⟨file, links_of_pkgOfLine hfile⟩
  · rintro ⟨_, front, rest, rfl, text, rfl⟩
    obtain ⟨more, hmore⟩ := exists_behindFirst (by decide : "<a href=\"".toList ≠ []) front
      (text ++ ".tgz".toList ++ '"' :: rest)
    have hstop : more ++ (text ++ ".tgz".toList ++ '"' :: rest) =
        more ++ text ++ (".tgz\"".toList ++ rest) := by
      rw [List.append_assoc text, List.append_assoc more]
      rfl
    rw [pkgOfLine, hmore, Option.bind_some, Option.isSome_map, hstop]
    exact isSome_beforeLast (by decide) _ _

/-- The names that a page links to, line by line. -/
def pkgsOfPage (text : Str) : List Str := (text.splitOn '\n').filterMap pkgOfLine

/-- What is taken from a page is linked in one of its lines. -/
theorem exists_links_of_mem_pkgsOfPage {text file : Str} (h : file ∈ pkgsOfPage text) :
    ∃ line ∈ text.splitOn '\n', Links line file := by
  obtain ⟨line, hline, hfile⟩ := List.mem_filterMap.mp h
  exact ⟨line, hline, links_of_pkgOfLine hfile⟩

/-- What `get_pkg_list` adds to its set: a page that is no UTF-8 raises an error of its own. -/
def Mirror.pkgsAdded (mirror : Mirror) (arch version : Str) (stable : Bool) :
    Except UrlError (List Str) :=
  match mirror.page arch version stable with
  | .error e => .error e
  | .ok bytes =>
      match Utf8.fromUtf8 bytes with
      | none => .error .other
      | some text => .ok (pkgsOfPage text)

/-- `get_pkg_list`: the set, in the order in which the process walks over it. -/
def getPkgList (py : Python) (mirror : Mirror) (arch version : Str) (stable : Bool) :
    Except UrlError (List Str) :=
  (mirror.pkgsAdded arch version stable).map py.order.iterate

/-! ### Versions and names -/

/-- `[0-9\.plv\-]*(rc[0-9])?` -/
def versionPattern : Str := "[0-9\\.plv\\-]*(rc[0-9])?".toList

/-- The pattern of `get_pkg_download_path`. -/
def downloadPattern (py : Python) (package : Str) (version : Option Str) : Str :=
  let package := version.elim package fun v => package ++ ['-'] ++ v
  let package := PyString.replace ['+'] ['\\', '+'] package
  let package := PyString.replace ".tgz".toList [] (PyString.rstrip '-' package)
  py.lower package ++ versionPattern ++ "\\.tgz$".toList

/-- The first of some files that matches. -/
def firstMatch (py : Python) (pattern : Str) : List Str → Except Failure (Option Str)
  | [] => .ok none
  | file :: files =>
      match py.reMatch pattern (py.lower file) with
      | none => .error .regex
      | some true => .ok (some file)
      | some false => firstMatch py pattern files

/-- `get_pkg_download_path`: files of the stable branch go first. -/
def getPkgDownloadPath (py : Python) (avlPkgs avlPkgsStbl : List Str) (package : Str)
    (version : Option Str) : Except Failure (Option (Bool × Str)) :=
  let pattern := downloadPattern py package version
  match firstMatch py pattern avlPkgsStbl with
  | .error e => .error e
  | .ok (some file) => .ok (some (true, file))
  | .ok none =>
      match firstMatch py pattern avlPkgs with
      | .error e => .error e
      | .ok (some file) => .ok (some (false, file))
      | .ok none => .ok none

/-- `get_pkg_version` -/
def getPkgVersion (py : Python) (package file : Str) : Except Failure Str :=
  let pattern := ['('] ++ package ++ "-)(".toList ++ versionPattern ++ ")(\\.tgz)$".toList
  match py.reSearch pattern file with
  | none => .error .regex
  | some none => .error .noMatch
  | some (some groups) =>
      -- A group that takes no part in the match is `None`, which no caller can use.
      match groups[1]? with
      | some (some version) => .ok version
      | _ => .error .noMatch

/-- `get_existing_version` -/
def getExistingVersion (py : Python) (config : Config) (arch package : Str) :
    Except ConfigParser.Error (Option Str) := do
  let fallback ← config.get py.lower (arch ++ "/dependencies".toList) package
  let version ← config.get py.lower arch package
  return version.or fallback

/-! ### Dependencies -/

/-- `(.*)-([0-9\.]*)`: the text before the last hyphen, and the digits and dots after it. -/
def splitVersion (s : Str) : Option (Str × Str) :=
  let rest := s.rtakeWhile (· ≠ '-')
  if rest = s then none
  else some (s.take (s.length - rest.length - 1), rest.takeWhile fun c => c.isDigit || c = '.')

/-- What one line demands. -/
def dependency (line : Str) : Except Failure (Str × Str) :=
  match (line.splitOn ':')[2]? with
  | none => .error .index
  | some field =>
      match splitVersion field with
      | none => .error .noMatch
      | some dep => .ok dep

/-- `get_pkg_dependencies` -/
def getPkgDependencies (archive : Archive) : Except Failure (List (Str × Str)) :=
  match archive with
  | none => .error .archive
  | some text => ((text.splitOn '\n').filter fun line => "@depend".toList <:+: line).mapM dependency

/-! ### Downloads -/

/-- `download_package` -/
def downloadPackage (mirror : Mirror) (path : PkgPath) : DownloadM (List (Str × Str)) := do
  let st ← get
  match st.disk.lookup path with
  | some archive => ofExcept (getPkgDependencies archive)
  | none =>
      match mirror.fetch path with
      | .failed left =>
          modify fun st => { st with disk := left.elim st.disk fun a => st.disk.insert path a }
          throw (.url .other)
      | .fetched archive =>
          modify fun st => { st with disk := st.disk.insert path archive }
          ofExcept (getPkgDependencies archive)

/-- `CONFIG.set(section, package, version)` -/
def setVersion (py : Python) (sec package version : Str) : DownloadM Unit := do
  let st ← get
  match st.config.set py.lower sec package version with
  | .error e => throw (.config e)
  | .ok config => modify fun st => { st with config }

/-- What `recursive_download` is told of the mirror. -/
structure Index where
  osVersion : Str
  arch : Str
  avlPkgs : List Str
  avlPkgsStbl : List Str

/-- `f"{arch}/dependencies"` -/
def Index.depSection (idx : Index) : Str := idx.arch ++ "/dependencies".toList

/-- The loop over the dependencies of a package. -/
def downloadDependencies (py : Python) (idx : Index)
    (download : Str → Option Str → DownloadM Str) (dependencies : List (Str × Str)) :
    DownloadM Unit :=
  dependencies.forM fun dep => do
    let version ← download dep.1 (some dep.2)
    setVersion py idx.depSection dep.1 version

/-- The file that is selected, and its version. -/
def selectFile (py : Python) (idx : Index) (package : Str) (demanded : Option Str) :
    Except Failure (PkgPath × Str) := do
  let some (stable, file) ← getPkgDownloadPath py idx.avlPkgs idx.avlPkgsStbl package demanded
    | throw (.valueError ("Could not find file for package ".toList ++ package))
  let version ← demanded.elim (getPkgVersion py package file) .ok
  return (⟨idx.osVersion, idx.arch, stable, file⟩, version)

/-- The version that is recorded. -/
def existingVersion (py : Python) (idx : Index) (package : Str) : DownloadM (Option Str) := do
  let st ← get
  match getExistingVersion py st.config idx.arch package with
  | .error e => throw (.config e)
  | .ok old => return old

/-- The part of `recursive_download` that depends on the recorded version. -/
def downloadNewer (py : Python) (mirror : Mirror) (idx : Index)
    (download : Str → Option Str → DownloadM Str) (path : PkgPath) (version : Str)
    (old : Option Str) : DownloadM Unit :=
  if old.all (PyString.lt · version) then do
    let dependencies ← downloadPackage mirror path
    downloadDependencies py idx download dependencies
  else return

/-- `recursive_download`, to a depth. -/
def recursiveDownload (py : Python) (mirror : Mirror) (idx : Index) :
    ℕ → Str → Option Str → DownloadM Str
  | 0, _, _ => throw .recursion
  | depth + 1, package, demanded => do
      let (path, version) ← ofExcept (selectFile py idx package demanded)
      let before ← get
      let old ← existingVersion py idx package
      downloadNewer py mirror idx (recursiveDownload py mirror idx depth) path version old
      modify fun st => { st with
        calls := st.calls ++ [⟨package, demanded, path, version, old, before.disk, st.disk⟩] }
      return version

/-! ### The whole script -/

/-- A turn of the first loop of `main`: a configured package. -/
def updatePackage (py : Python) (mirror : Mirror) (idx : Index) (depth : ℕ) (package : Str) :
    DownloadM Unit := do
  let before ← get
  let version ← recursiveDownload py mirror idx depth package none
  setVersion py idx.arch package version
  modify fun st => { st with
    pins := st.pins ++
      [⟨idx.arch, idx.osVersion, package, version, before.config, before.disk, st.disk⟩] }

/-- A turn of the second loop: a recorded dependency. -/
def updateDependency (py : Python) (mirror : Mirror) (idx : Index) (depth : ℕ) (package : Str) :
    DownloadM Unit := do
  let st ← get
  match st.config.get py.lower idx.depSection package with
  | .error e => throw (.config e)
  | .ok none => throw .key
  | .ok (some version) =>
      let version ← recursiveDownload py mirror idx depth package (some version)
      setVersion py idx.depSection package version

/-- The index of one architecture; a stable branch that is not there is empty. -/
def getIndex (py : Python) (mirror : Mirror) (osVersion arch : Str) : Except Failure Index :=
  match getPkgList py mirror arch osVersion false, getPkgList py mirror arch osVersion true with
  | .error e, _ => .error (.url e)
  | _, .error .other => .error (.url .other)
  | .ok avl, .error .http => .ok ⟨osVersion, arch, avl, []⟩
  | .ok avl, .ok avlStbl => .ok ⟨osVersion, arch, avl, avlStbl⟩

/-- A turn of the outer loop of `main`: an architecture. -/
def updateArch (py : Python) (mirror : Mirror) (osVersion : Str) (depth : ℕ) (arch : Str) :
    DownloadM Unit := do
  let depSec := arch ++ "/dependencies".toList
  modify fun st => if st.config.sectionNames.contains depSec then st
    else { st with config := st.config.addSection depSec }
  let idx ← ofExcept (getIndex py mirror osVersion arch)
  let st ← get
  (st.config.options arch).forM (updatePackage py mirror idx depth)
  let st ← get
  (st.config.options depSec).forM (updateDependency py mirror idx depth)

/-- `main`, up to writing the configuration. -/
def downloadMain (py : Python) (mirror : Mirror) (depth : ℕ) : DownloadM Unit := do
  let st ← get
  match st.config.get py.lower "OpenBSD".toList "version".toList with
  | .error e => throw (.config e)
  | .ok none => throw .key
  | .ok (some osVersion) =>
      let archs := st.config.sectionNames.filter fun s =>
        s ≠ "OpenBSD".toList ∧ ¬"/dependencies".toList <:+: s
      archs.forM (updateArch py mirror osVersion depth)

/-- A run begins. -/
def Download.start (config : Config) (disk : Disk) : Download := ⟨config, disk, [], []⟩

/-! ### Plain names -/

/-- The characters of a name as a pattern: escaped, a dot for any character, or plain. -/
def nameTokens : Str → Option (List (Option Char))
  | [] => some []
  | '\\' :: c :: s => if c.isAlphanum then none else (some c :: ·) <$> nameTokens s
  | c :: s =>
      if c = '.' then (none :: ·) <$> nameTokens s
      else if c.isAlphanum ∨ c = '-' ∨ c = '_' then (some c :: ·) <$> nameTokens s
      else none

/-- The text after a name. -/
def afterName : List (Option Char) → Str → Option Str
  | [], s => some s
  | _ :: _, [] => none
  | token :: tokens, c :: s => if token.all (· = c) ∧ c ≠ '\n' then afterName tokens s else none

/-- What `[0-9\.plv\-]*(rc[0-9])?` matches before `.tgz`. -/
def versionOf (s : Str) : Option Str :=
  let version := s.take (s.length - 4)
  let candidate := version.dropWhile fun c => c.isDigit || c ∈ ['.', 'p', 'l', 'v', '-']
  let valid : Bool := match candidate with
    | [] => true
    | ['r', 'c', d] => d.isDigit
    | _ => false
  if (".tgz".toList.isSuffixOf s && valid) = true then some version else none

/-- **Python's library for plain names**: other patterns are taken for invalid. -/
def plainPython : Python where
  lower := List.map Char.toLower
  reMatch pattern s :=
    let tail := versionPattern ++ "\\.tgz$".toList
    if tail.isSuffixOf pattern then
      (nameTokens (pattern.take (pattern.length - tail.length))).map fun tokens =>
        ((afterName tokens s).bind versionOf).isSome
    else none
  reSearch pattern s :=
    let tail := ")(".toList ++ versionPattern ++ ")(\\.tgz)$".toList
    if ['('].isPrefixOf pattern ∧ tail.isSuffixOf pattern then
      (nameTokens ((pattern.take (pattern.length - tail.length)).drop 1)).map fun tokens =>
        s.tails.findSome? fun rest =>
          ((afterName tokens rest).bind versionOf).map fun version =>
            -- The groups after the second are not looked at.
            [some (rest.take tokens.length), some version]
    else none
  order := .insertion

end DataDiode
