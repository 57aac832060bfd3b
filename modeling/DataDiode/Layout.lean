import DataDiode.Receiver

/-!
# Where the Receiver Puts Its Files

For an accepted path the receiver uses three files below the output directory: the file
itself, the file under reception and the failure marker. This module reads the three paths
lexically and as locations, and keeps them apart.

## Main results

* `Accepted.inside_finalPath`, `Accepted.inside_partialPath`, `Accepted.inside_failedPath`:
  each path extends the output directory by ordinary names.
* `Inside.parent`: and so does its parent directory, or it is the output directory itself.
* `Accepted.locate_ne`: the three files are different.
-/

namespace DataDiode

open UnixPath

/-- A path the receiver accepts in a START packet. -/
structure Accepted (relPath : Str) : Prop where
  safe : isSafeRelPath relPath = true
  no_nul : '\x00' ∉ relPath

/-- An accepted path is plain. -/
theorem Accepted.plain {p : Str} (h : Accepted p) : Plain p := plain_of_isSafeRelPath h.safe

/-- A path that extends the output directory by ordinary names. -/
def Inside (env : Env) (p : Path) (ns : List Name) : Prop :=
  components p = components env.outputDir ++ ns.map Component.normal

/-- The location of a path inside the output directory. -/
theorem Inside.locate {env : Env} {p : Path} {ns : List Name} (h : Inside env p ns) :
    env.locate p = env.locate env.outputDir ++ ns :=
  resolve_of_components h

/-- **The parent of a path inside** lies inside, or is the output directory itself. -/
theorem Inside.parent {env : Env} {p q : Path} {ns : List Name} {n : Name}
    (h : Inside env p (ns ++ [n])) (hq : UnixPath.parent p = some q) : Inside env q ns := by
  rw [Inside, components_parent hq, h, List.map_append, List.map_singleton, ← List.append_assoc,
    List.dropLast_concat]

/-- Below the output directory every file has a directory. -/
theorem Inside.exists_parent {env : Env} {p : Path} {ns : List Name} {n : Name}
    (h : Inside env p (ns ++ [n])) : ∃ q, UnixPath.parent p = some q := by
  have hlast : components p = components env.outputDir ++ ns.map .normal ++ [.normal n] := by
    rw [h, List.map_append, List.map_singleton, List.append_assoc]
  exact UnixPath.exists_parent hlast

/-! ### The suffixes -/

/-- The suffix of partial files goes to the name of the file. -/
theorem partialSuffix_plain : '/' ∉ partialSuffix ∧ 2 < partialSuffix.length := by decide

/-- The suffix of markers goes to the name of the file. -/
theorem failedSuffix_plain : '/' ∉ failedSuffix ∧ 2 < failedSuffix.length := by decide

/-- The names of the file under reception. -/
def partialNames (p : Str) : List Name := dirNames p ++ [lastPart p ++ partialSuffix]

/-- The names of the failure marker. -/
def failedNames (p : Str) : List Name := dirNames p ++ [lastPart p ++ failedSuffix]

namespace Accepted

variable {p : Str} (h : Accepted p) (env : Env)

include h

/-- The file itself is below the output directory. -/
theorem inside_finalPath : Inside env (env.finalPath p) (names p) := h.plain.components_join

/-- The partial file is below the output directory. -/
theorem inside_partialPath : Inside env (env.partialPath p) (partialNames p) := by
  obtain ⟨hsep, hlen⟩ := partialSuffix_plain
  rw [partialNames, ← names_append_suffix hsep hlen]
  exact (h.plain.append_suffix hsep hlen).components_join

/-- The marker is below the output directory. -/
theorem inside_failedPath : Inside env (env.failedPath p) (failedNames p) := by
  obtain ⟨hsep, hlen⟩ := failedSuffix_plain
  rw [failedNames, ← names_append_suffix hsep hlen]
  exact (h.plain.append_suffix hsep hlen).components_join

/-- Where the file itself is. -/
theorem locate_finalPath :
    env.locate (env.finalPath p) = env.locate env.outputDir ++ names p :=
  (h.inside_finalPath env).locate

/-- Where the partial file is. -/
theorem locate_partialPath :
    env.locate (env.partialPath p) = env.locate env.outputDir ++ partialNames p :=
  (h.inside_partialPath env).locate

/-- Where the marker is. -/
theorem locate_failedPath :
    env.locate (env.failedPath p) = env.locate env.outputDir ++ failedNames p :=
  (h.inside_failedPath env).locate

/-- **The three files of a path are different.** -/
theorem locate_ne :
    env.locate (env.partialPath p) ≠ env.locate (env.finalPath p) ∧
      env.locate (env.failedPath p) ≠ env.locate (env.finalPath p) ∧
      env.locate (env.partialPath p) ≠ env.locate (env.failedPath p) := by
  obtain ⟨hsep, hlen⟩ := partialSuffix_plain
  obtain ⟨hsep', hlen'⟩ := failedSuffix_plain
  rw [h.locate_finalPath, h.locate_partialPath, h.locate_failedPath, partialNames, failedNames,
    ← names_append_suffix hsep hlen, ← names_append_suffix hsep' hlen']
  refine ⟨fun e => ?_, fun e => ?_, fun e => ?_⟩
  · exact names_ne_names_append_suffix hsep hlen (List.append_cancel_left e).symm
  · exact names_ne_names_append_suffix hsep' hlen' (List.append_cancel_left e).symm
  · exact names_append_suffix_ne hsep hsep' hlen hlen' (by decide) (List.append_cancel_left e)

end Accepted

/-! ### Paths that can name a file -/

/-- What comes behind a base keeps its last part. -/
theorem getLast?_parts_join (base p : Path) :
    (parts (join base p)).getLast? = (parts p).getLast? := by
  have happ : ∀ b : Path, (parts (b ++ '/' :: p)).getLast? = (parts p).getLast? := by
    intro b
    rw [parts_append_sep, List.getLast?_append_of_ne_nil _ (parts_ne_nil p)]
  rw [join]
  split
  · rfl
  · split
    · rename_i hb
      rcases hb with rfl | hb
      · rfl
      · obtain ⟨b, rfl⟩ := List.getLast?_eq_some_iff.mp hb
        rw [List.append_assoc, List.singleton_append, happ]
    · exact happ base

/-- Whether a joined path demands a directory is up to its right operand. -/
theorem demandsDir_join (base p : Path) : demandsDir (join base p) = demandsDir p := by
  rw [demandsDir, demandsDir, getLast?_parts_join]

/-- The last of the parts. -/
theorem getLast?_parts (p : Path) : (parts p).getLast? = some (lastPart p) :=
  List.getLast?_eq_some_getLast (parts_ne_nil p)

/-- A path with a suffix of at least three characters can name a file. -/
theorem demandsDir_append_suffix {ext : Name} (hext : '/' ∉ ext) (hlen : 2 < ext.length)
    (p : Path) : demandsDir (p ++ ext) = false := by
  rw [demandsDir, parts_append_suffix_eq hext, List.getLast?_concat]
  obtain ⟨-, hnil, hdot, hdots⟩ :=
    partComponent_eq_normal_iff.mp (partComponent_append (lastPart p) hlen)
  simp [hnil, hdot, hdots]

/-- A partial file is no directory by its path. -/
theorem demandsDir_partialPath (env : Env) (p : Str) : demandsDir (env.partialPath p) = false := by
  rw [Env.partialPath, demandsDir_join,
    demandsDir_append_suffix partialSuffix_plain.1 partialSuffix_plain.2]

/-- A marker is no directory by its path. -/
theorem demandsDir_failedPath (env : Env) (p : Str) : demandsDir (env.failedPath p) = false := by
  rw [Env.failedPath, demandsDir_join,
    demandsDir_append_suffix failedSuffix_plain.1 failedSuffix_plain.2]

/-- The last part of a path that can name a file is its last name. -/
theorem names_eq_of_demandsDir {p : Path} (h : demandsDir p = false) :
    names p = dirNames p ++ [lastPart p] := by
  rw [demandsDir, getLast?_parts] at h
  simp only [Bool.or_eq_false_iff, decide_eq_false_iff_not] at h
  rw [names_eq, List.filter_cons_of_pos (by simpa using h.1), List.filter_nil]

/-- A plain path that demands a directory is the directory of its own suffixed paths. -/
theorem names_eq_dirNames {p : Path} (hp : Plain p) (h : demandsDir p = true) :
    names p = dirNames p := by
  have hdots : lastPart p ≠ ['.', '.'] :=
    hp.parts_ne_dots _ (List.getLast_mem (parts_ne_nil p))
  rw [demandsDir, getLast?_parts] at h
  simp only [Bool.or_eq_true, decide_eq_true_eq] at h
  rw [names_eq, List.filter_cons_of_neg (by simp only [decide_eq_true_eq]; tauto),
    List.filter_nil, List.append_nil]

end DataDiode
