import DataDiode.Enumeration
import DataDiode.Packages

/-!
# Selecting a Package File

`get_pkg_download_path` takes the first file of a set whose name the pattern matches. Python has the
elements of a set in an order of its own, another one in every process, so the selection is
determined only if no more than one file matches; and the pattern asks for no hyphen between the
name and the version, so the one that matches may be another package's.

## Main results

* `firstMatch_eq`: the loop is a search for a decisive file.
* `determined_iff`: exactly when the selection is determined and belongs to the package.
* `plainPython_matches_iff`: what the pattern of a plain name matches.
* `not_determined_python`: two versions of one package, and a package that is not asked for.
-/

namespace DataDiode

/-! ### What is asked for -/

/-- `[0-9\.plv\-]*(rc[0-9])?`, from beginning to end. -/
def isVersionText (s : Str) : Bool :=
  match s.dropWhile fun c => c.isDigit || c ∈ ['.', 'p', 'l', 'v', '-'] with
  | [] => true
  | ['r', 'c', d] => d.isDigit
  | _ => false

/-- A version: such a text that starts with a digit. -/
def isVersion (s : Str) : Bool := (s.head?.any Char.isDigit) && isVersionText s

/-- A file belongs to a package: its name is the package's, a hyphen and a version. -/
def Belongs (py : Python) (package file : Str) : Prop :=
  ∃ v, isVersion v = true ∧ py.lower file = py.lower package ++ '-' :: v ++ ".tgz".toList

/-- **The selection is determined**: it is the same for every order of the two sets, and a file
that is selected belongs to the package. -/
def Determined (py : Python) (avlPkgs avlPkgsStbl : Finset Str) (package : Str)
    (version : Option Str) : Prop :=
  ∃ selected, (∀ avl stbl, Enumerates avl avlPkgs → Enumerates stbl avlPkgsStbl →
      getPkgDownloadPath py avl stbl package version = selected) ∧
    ∀ stable file, selected = .ok (some (stable, file)) → Belongs py package file

/-! ### Decisive files -/

/-- The loop ends at this file: the pattern matches, or is found to be none. -/
def decisive (py : Python) (pattern file : Str) : Bool :=
  py.reMatch pattern (py.lower file) ≠ some false

/-- The pattern matches this file. -/
def Matched (py : Python) (pattern file : Str) : Prop :=
  py.reMatch pattern (py.lower file) = some true

/-- How the loop ends at a decisive file. -/
def ending (py : Python) (pattern file : Str) : Except Failure (Option Str) :=
  if py.reMatch pattern (py.lower file) = some true then .ok (some file) else .error .regex

/-- How the selection ends at a decisive file. -/
def verdict (py : Python) (pattern : Str) (stable : Bool) (file : Str) :
    Except Failure (Option (Bool × Str)) :=
  if py.reMatch pattern (py.lower file) = some true then .ok (some (stable, file))
  else .error .regex

/-- A file that matches is selected. -/
theorem verdict_of_matched {py : Python} {pattern file : Str} (h : Matched py pattern file)
    (stable : Bool) : verdict py pattern stable file = .ok (some (stable, file)) := if_pos h

/-- One that does not lets the pattern fail. -/
theorem verdict_of_not_matched {py : Python} {pattern file : Str} (h : ¬Matched py pattern file)
    (stable : Bool) : verdict py pattern stable file = .error .regex := if_neg h

/-- **The loop is a search** for a decisive file. -/
theorem firstMatch_eq (py : Python) (pattern : Str) (files : List Str) :
    firstMatch py pattern files =
      (files.find? (decisive py pattern)).elim (.ok none) (ending py pattern) := by
  induction files with
  | nil => rfl
  | cons file files ih =>
      rw [firstMatch, List.find?_cons]
      split
      · rename_i hmatch
        simp [decisive, ending, hmatch]
      · rename_i hmatch
        simp [decisive, ending, hmatch]
      · rename_i hmatch
        simpa [decisive, hmatch] using ih

/-- The selection is two searches, the second if the first finds nothing. -/
theorem getPkgDownloadPath_eq (py : Python) (avl stbl : List Str) (package : Str)
    (version : Option Str) :
    getPkgDownloadPath py avl stbl package version =
      (stbl.find? (decisive py (downloadPattern py package version))).elim
        ((avl.find? (decisive py (downloadPattern py package version))).elim (.ok none)
          (verdict py (downloadPattern py package version) false))
        (verdict py (downloadPattern py package version) true) := by
  rw [getPkgDownloadPath]
  simp only [firstMatch_eq]
  cases stbl.find? (decisive py (downloadPattern py package version)) with
  | some file =>
      simp only [Option.elim_some, ending, verdict]
      split_ifs <;> rfl
  | none =>
      cases avl.find? (decisive py (downloadPattern py package version)) with
      | some file =>
          simp only [Option.elim_some, Option.elim_none, ending, verdict]
          split_ifs <;> rfl
      | none => rfl

/-- Whether the stable branch decides. -/
def stableDecides (py : Python) (pattern : Str) (avlPkgsStbl : Finset Str) : Bool :=
  (avlPkgsStbl.filter (decisive py pattern ·)).Nonempty

/-- The files that decide: the decisive ones of the stable branch, if there are any. -/
def deciding (py : Python) (pattern : Str) (avlPkgs avlPkgsStbl : Finset Str) : Finset Str :=
  if stableDecides py pattern avlPkgsStbl then avlPkgsStbl.filter (decisive py pattern ·)
  else avlPkgs.filter (decisive py pattern ·)

section Orders

variable {py : Python} {avlPkgs avlPkgsStbl : Finset Str} {package : Str} {version : Option Str}

/-- Where no file decides, none is selected. -/
theorem getPkgDownloadPath_of_empty {avl stbl : List Str} (havl : Enumerates avl avlPkgs)
    (hstbl : Enumerates stbl avlPkgsStbl)
    (h : deciding py (downloadPattern py package version) avlPkgs avlPkgsStbl = ∅) :
    getPkgDownloadPath py avl stbl package version = .ok none := by
  rw [deciding] at h
  split at h
  · rename_i hstable
    exact absurd h (of_decide_eq_true hstable).ne_empty
  · rename_i hstable
    rw [stableDecides, decide_eq_true_eq, Finset.not_nonempty_iff_eq_empty] at hstable
    rw [getPkgDownloadPath_eq, hstbl.find?_eq_none hstable, havl.find?_eq_none h]
    rfl

/-- **In every order** one of the deciding files decides. -/
theorem exists_verdict {avl stbl : List Str} (havl : Enumerates avl avlPkgs)
    (hstbl : Enumerates stbl avlPkgsStbl)
    (h : (deciding py (downloadPattern py package version) avlPkgs avlPkgsStbl).Nonempty) :
    ∃ file ∈ deciding py (downloadPattern py package version) avlPkgs avlPkgsStbl,
      getPkgDownloadPath py avl stbl package version =
        verdict py (downloadPattern py package version)
          (stableDecides py (downloadPattern py package version) avlPkgsStbl) file := by
  rw [getPkgDownloadPath_eq]
  rw [deciding] at h ⊢
  split_ifs at h ⊢ with hstable
  · obtain ⟨file, hfile, hfind⟩ := hstbl.exists_find? h
    exact ⟨file, hfile, by rw [hfind, hstable, Option.elim_some]⟩
  · obtain ⟨file, hfile, hfind⟩ := havl.exists_find? h
    have hnone := hstable
    rw [stableDecides, decide_eq_true_eq, Finset.not_nonempty_iff_eq_empty] at hnone
    rw [Bool.not_eq_true] at hstable
    exact ⟨file, hfile, by
      rw [hstbl.find?_eq_none hnone, hfind, hstable, Option.elim_none, Option.elim_some]⟩

/-- **Every deciding file** decides in some order. -/
theorem exists_order {file : Str}
    (h : file ∈ deciding py (downloadPattern py package version) avlPkgs avlPkgsStbl) :
    ∃ avl stbl, Enumerates avl avlPkgs ∧ Enumerates stbl avlPkgsStbl ∧
      getPkgDownloadPath py avl stbl package version =
        verdict py (downloadPattern py package version)
          (stableDecides py (downloadPattern py package version) avlPkgsStbl) file := by
  simp only [getPkgDownloadPath_eq]
  rw [deciding] at h
  split_ifs at h with hstable
  · obtain ⟨stbl, hstbl, hfind⟩ := exists_enumerates_find? h
    obtain ⟨avl, havl⟩ := exists_enumerates avlPkgs
    exact ⟨avl, stbl, havl, hstbl, by rw [hfind, hstable, Option.elim_some]⟩
  · obtain ⟨avl, havl, hfind⟩ := exists_enumerates_find? h
    obtain ⟨stbl, hstbl⟩ := exists_enumerates avlPkgsStbl
    have hnone := hstable
    rw [stableDecides, decide_eq_true_eq, Finset.not_nonempty_iff_eq_empty] at hnone
    rw [Bool.not_eq_true] at hstable
    exact ⟨avl, stbl, havl, hstbl, by
      rw [hstbl.find?_eq_none hnone, hfind, hstable, Option.elim_none, Option.elim_some]⟩

/-- **Exactly when the selection is determined** and belongs to the package: a deciding file that
matches is the only one, and belongs to the package. -/
theorem determined_iff (py : Python) (avlPkgs avlPkgsStbl : Finset Str) (package : Str)
    (version : Option Str) :
    Determined py avlPkgs avlPkgsStbl package version ↔
      ∀ file ∈ deciding py (downloadPattern py package version) avlPkgs avlPkgsStbl,
        Matched py (downloadPattern py package version) file →
          deciding py (downloadPattern py package version) avlPkgs avlPkgsStbl = {file} ∧
            Belongs py package file := by
  constructor
  · rintro ⟨selected, hselected, hbelongs⟩ file hfile hmatched
    obtain ⟨avl, stbl, havl, hstbl, hfirst⟩ := exists_order hfile
    rw [hselected avl stbl havl hstbl, verdict_of_matched hmatched] at hfirst
    refine ⟨Finset.eq_singleton_iff_unique_mem.mpr ⟨hfile, fun other hother => ?_⟩,
      hbelongs _ _ hfirst⟩
    obtain ⟨avl, stbl, havl, hstbl, hsecond⟩ := exists_order hother
    rw [hselected avl stbl havl hstbl, hfirst, verdict] at hsecond
    split_ifs at hsecond
    simpa using (Except.ok.inj hsecond).symm
  · intro h
    rcases Finset.eq_empty_or_nonempty
      (deciding py (downloadPattern py package version) avlPkgs avlPkgsStbl) with hempty | hne
    · exact ⟨.ok none, fun avl stbl havl hstbl => getPkgDownloadPath_of_empty havl hstbl hempty,
        by simp⟩
    · by_cases hmatched : ∃ file ∈ deciding py (downloadPattern py package version) avlPkgs
          avlPkgsStbl, Matched py (downloadPattern py package version) file
      · obtain ⟨file, hfile, hmatched⟩ := hmatched
        obtain ⟨hsingle, hbelongs⟩ := h file hfile hmatched
        refine ⟨verdict py (downloadPattern py package version)
          (stableDecides py (downloadPattern py package version) avlPkgsStbl) file,
          fun avl stbl havl hstbl => ?_, fun stable found hfound => ?_⟩
        · obtain ⟨other, hother, hresult⟩ := exists_verdict havl hstbl hne
          rw [hsingle] at hother
          rwa [Finset.mem_singleton.mp hother] at hresult
        · rw [verdict_of_matched hmatched, Except.ok.injEq, Option.some.injEq,
            Prod.mk.injEq] at hfound
          exact hfound.2 ▸ hbelongs
      · refine ⟨.error .regex, fun avl stbl havl hstbl => ?_, fun stable found hfound => by
          exact absurd hfound (by simp)⟩
        obtain ⟨file, hfile, hresult⟩ := exists_verdict havl hstbl hne
        exact hresult.trans (verdict_of_not_matched (fun hm => hmatched ⟨file, hfile, hm⟩) _)

end Orders

/-! ### What a plain name matches -/

/-- A character of the name as the pattern has it. -/
def Token (token : Option Char) (c : Char) : Prop := token.all (· = c) = true ∧ c ≠ '\n'

/-- What comes behind the name of a package. -/
theorem afterName_eq_some_iff {tokens : List (Option Char)} {s rest : Str} :
    afterName tokens s = some rest ↔ ∃ head, List.Forall₂ Token tokens head ∧ s = head ++ rest := by
  induction tokens generalizing s with
  | nil =>
      constructor
      · intro h
        exact ⟨[], .nil, Option.some.inj h⟩
      · rintro ⟨head, hhead, rfl⟩
        rw [List.forall₂_nil_left_iff.mp hhead]
        rfl
  | cons token tokens ih =>
      cases s with
      | nil =>
          refine ⟨fun h => absurd h (by simp [afterName]), ?_⟩
          rintro ⟨head, hhead, hs⟩
          obtain ⟨c, head', -, -, rfl⟩ := List.forall₂_cons_left_iff.mp hhead
          exact absurd hs (by simp)
      | cons c s =>
          rw [afterName]
          constructor
          · intro h
            split at h
            · rename_i htoken
              obtain ⟨head, hhead, rfl⟩ := ih.mp h
              exact ⟨c :: head, .cons htoken hhead, rfl⟩
            · exact absurd h (by simp)
          · rintro ⟨head, hhead, hs⟩
            obtain ⟨c', head', htoken, hhead', rfl⟩ := List.forall₂_cons_left_iff.mp hhead
            rw [List.cons_append, List.cons.injEq] at hs
            obtain ⟨rfl, rfl⟩ := hs
            refine (if_pos htoken).trans ?_
            exact ih.mpr ⟨head', hhead', rfl⟩

/-- The version of a file. -/
theorem versionOf_eq (s : Str) :
    versionOf s =
      if (".tgz".toList.isSuffixOf s && isVersionText (s.take (s.length - 4))) = true then
        some (s.take (s.length - 4)) else none := rfl

/-- The version of a file is in front of `.tgz`. -/
theorem versionOf_eq_some_iff {s v : Str} :
    versionOf s = some v ↔ isVersionText v = true ∧ s = v ++ ".tgz".toList := by
  have hcut : ∀ u : Str, (u ++ ".tgz".toList).take ((u ++ ".tgz".toList).length - 4) = u :=
    fun u => List.take_left' (by simp)
  rw [versionOf_eq]
  simp only [Bool.and_eq_true, List.isSuffixOf_iff_suffix]
  constructor
  · intro h
    split at h
    · rename_i hvalid
      obtain ⟨⟨u, rfl⟩, htext⟩ := hvalid
      rw [hcut] at h htext
      obtain rfl := Option.some.inj h
      exact ⟨htext, rfl⟩
    · exact absurd h (by simp)
  · rintro ⟨htext, rfl⟩
    rw [hcut, if_pos ⟨⟨v, rfl⟩, htext⟩]

/-- **What the pattern matches**: the name, anything of the characters of versions, with or without
a hyphen in between, and the ending. -/
theorem plainPython_reMatch_iff {name : Str} {tokens : List (Option Char)}
    (h : nameTokens name = some tokens) (s : Str) :
    plainPython.reMatch (name ++ versionPattern ++ "\\.tgz$".toList) s = some true ↔
      ∃ head v, List.Forall₂ Token tokens head ∧ isVersionText v = true ∧
        s = head ++ v ++ ".tgz".toList := by
  have hsuffix : (versionPattern ++ "\\.tgz$".toList).isSuffixOf
      (name ++ versionPattern ++ "\\.tgz$".toList) = true :=
    List.isSuffixOf_iff_suffix.mpr ⟨name, (List.append_assoc _ _ _).symm⟩
  have hname : (name ++ versionPattern ++ "\\.tgz$".toList).take
      ((name ++ versionPattern ++ "\\.tgz$".toList).length -
        (versionPattern ++ "\\.tgz$".toList).length) = name := by
    rw [List.append_assoc, List.length_append, Nat.add_sub_cancel]
    exact List.take_left' rfl
  simp only [plainPython, hsuffix, if_true, hname, h, Option.map_some, Option.some.injEq]
  rw [Option.isSome_iff_exists]
  constructor
  · rintro ⟨v, hv⟩
    obtain ⟨rest, hrest, hversion⟩ := Option.bind_eq_some_iff.mp hv
    obtain ⟨head, hhead, rfl⟩ := afterName_eq_some_iff.mp hrest
    obtain ⟨htext, rfl⟩ := versionOf_eq_some_iff.mp hversion
    exact ⟨head, v, hhead, htext, (List.append_assoc _ _ _).symm⟩
  · rintro ⟨head, v, hhead, htext, rfl⟩
    refine ⟨v, Option.bind_eq_some_iff.mpr ⟨v ++ ".tgz".toList, ?_, ?_⟩⟩
    · exact afterName_eq_some_iff.mpr ⟨head, hhead, List.append_assoc _ _ _⟩
    · exact versionOf_eq_some_iff.mpr ⟨htext, rfl⟩

/-- A character that stands for itself in a pattern and is the same in lower case. -/
def PlainChar (c : Char) : Prop := (c.isAlphanum = true ∨ c = '-' ∨ c = '_') ∧ c.toLower = c

/-- A plain character is none of the special ones. -/
theorem PlainChar.ne {c : Char} (h : PlainChar c) : c ≠ '+' ∧ c ≠ '.' ∧ c ≠ '\\' ∧ c ≠ '\n' := by
  refine ⟨?_, ?_, ?_, ?_⟩ <;>
  · rintro rfl
    exact absurd h.1 (by decide)

/-- A plain name stands for itself in the pattern. -/
theorem nameTokens_of_plain {name : Str} (h : ∀ c ∈ name, PlainChar c) :
    nameTokens name = some (name.map some) := by
  induction name with
  | nil => rfl
  | cons c name ih =>
      have hc := h c List.mem_cons_self
      have hne := hc.ne
      rw [nameTokens, if_neg hne.2.1, if_pos hc.1, ih fun d hd => h d (List.mem_cons_of_mem c hd)]
      · rfl
      · rintro d s rfl -
        exact hne.2.2.1 rfl

/-- Characters that stand for themselves match only themselves. -/
theorem forall₂_token_iff {name head : Str} (h : ∀ c ∈ name, PlainChar c) :
    List.Forall₂ Token (name.map some) head ↔ head = name := by
  induction name generalizing head with
  | nil => simp
  | cons c name ih =>
      have hc := h c List.mem_cons_self
      have hrest : ∀ d ∈ name, PlainChar d := fun d hd => h d (List.mem_cons_of_mem c hd)
      rw [List.map_cons, List.forall₂_cons_left_iff]
      constructor
      · rintro ⟨c', head', htoken, hhead', rfl⟩
        have hcc : c = c' := by simpa using htoken.1
        rw [hcc, (ih hrest).mp hhead']
      · rintro rfl
        exact ⟨c, name, ⟨by simp, hc.ne.2.2.2⟩, (ih hrest).mpr rfl, rfl⟩

/-- The pattern of a plain name is the name. -/
theorem downloadPattern_of_plain {package : Str} (h : ∀ c ∈ package, PlainChar c)
    (hend : package.getLast? ≠ some '-') :
    downloadPattern plainPython package none =
      package ++ versionPattern ++ "\\.tgz$".toList := by
  have hplus : '+' ∉ package := fun hmem => (h _ hmem).ne.1 rfl
  have hdot : '.' ∉ package := fun hmem => (h _ hmem).ne.2.1 rfl
  have hrstrip : PyString.rstrip '-' package = package := by
    rw [PyString.rstrip, List.rdropWhile_eq_self_iff]
    intro hne hlast
    rw [List.getLast?_eq_getLast_of_ne_nil hne] at hend
    exact hend (congrArg some (of_decide_eq_true hlast))
  have hlower : plainPython.lower package = package :=
    (List.map_congr_left fun c hc => (h c hc).2).trans (List.map_id package)
  have hreplace : PyString.replace ".tgz".toList [] package = package :=
    PyString.replace_of_notMem hdot _ _
  rw [downloadPattern, Option.elim_none, PyString.replace_of_notMem hplus, hrstrip, hreplace,
    hlower]

/-- **What a plain name selects**: a file whose name continues with anything of the characters of
versions. -/
theorem matched_plain_iff {package file : Str} (h : ∀ c ∈ package, PlainChar c)
    (hend : package.getLast? ≠ some '-') :
    Matched plainPython (downloadPattern plainPython package none) file ↔
      ∃ v, isVersionText v = true ∧ plainPython.lower file = package ++ v ++ ".tgz".toList := by
  rw [Matched, downloadPattern_of_plain h hend, plainPython_reMatch_iff (nameTokens_of_plain h)]
  simp only [forall₂_token_iff h]
  constructor
  · rintro ⟨_, v, rfl, htext, hfile⟩
    exact ⟨v, htext, hfile⟩
  · rintro ⟨v, htext, hfile⟩
    exact ⟨package, v, rfl, htext, hfile⟩

/-! ### Python has an order of its own -/

/-- The files of two versions of Python. -/
def pythonFiles : List Str := ["python-2.7.18p11.tgz".toList, "python-3.11.5.tgz".toList]

/-- **Two versions of one package**, and the only file that matches is another package's. -/
theorem not_determined_python :
    ¬Determined plainPython pythonFiles.toFinset ∅ "python".toList none ∧
      ¬Determined plainPython {"python3-3.11.5.tgz".toList} ∅ "python".toList none := by
  have hstbl : Enumerates [] (∅ : Finset Str) := ⟨List.nodup_nil, rfl⟩
  have hnodup : pythonFiles.Nodup := by decide
  constructor
  · rintro ⟨selected, hselected, -⟩
    have hfirst := hselected pythonFiles [] ⟨hnodup, rfl⟩ hstbl
    have hsecond := hselected pythonFiles.reverse []
      ⟨List.nodup_reverse.mpr hnodup, List.toFinset_reverse⟩ hstbl
    have hne : getPkgDownloadPath plainPython pythonFiles [] "python".toList none ≠
        getPkgDownloadPath plainPython pythonFiles.reverse [] "python".toList none := by
      decide
    exact hne (hfirst.trans hsecond.symm)
  · rintro ⟨selected, hselected, hbelongs⟩
    have hone := hselected ["python3-3.11.5.tgz".toList] [] ⟨List.nodup_singleton _, rfl⟩ hstbl
    have hfile : getPkgDownloadPath plainPython ["python3-3.11.5.tgz".toList] []
        "python".toList none = .ok (some (false, "python3-3.11.5.tgz".toList)) := by
      decide
    obtain ⟨v, -, hv⟩ := hbelongs false _ (hone.symm.trans hfile)
    have hthree : (plainPython.lower "python3-3.11.5.tgz".toList)[6]? = some '3' := rfl
    have hhyphen :
        (plainPython.lower "python".toList ++ '-' :: v ++ ".tgz".toList)[6]? = some '-' := rfl
    rw [hv, hhyphen] at hthree
    exact absurd hthree (by decide)

end DataDiode
