import DataDiode.Proto

/-!
# The Path Check and Its Documented Language

`isSafeRelPath` is a textual test of the first character followed by a walk over the lexical
components of the path. Its documentation speaks about the text: no empty or absolute path,
no Windows drive or UNC root, no NUL byte, and no `.` or `..` between the separators, "to
avoid `a/` vs `a/.` confusion". The walk never sees what the component iterator drops or
does not know: a dot behind the first separator, a drive, a NUL byte.

## Main results

* `isSafeRelPath_iff_plain`: the check accepts the plain paths that do not start with a
  backslash.
* `isSafeRelPath_iff_documented_iff`: on which strings the verdict is the documented one.
* `isSafeRelPath_undocumented`: `a/.` is accepted.
-/

namespace DataDiode

open UnixPath (parts)

/-! ### What the check accepts -/

/-- **The check accepts** the plain paths that do not start with a backslash. -/
theorem isSafeRelPath_iff_plain {p : Str} :
    isSafeRelPath p = true ↔ UnixPath.Plain p ∧ p.head? ≠ some '\\' := by
  constructor
  · intro h
    refine ⟨plain_of_isSafeRelPath h, ?_⟩
    intro hback
    rw [isSafeRelPath, if_pos hback] at h
    simp at h
  · rintro ⟨hplain, hback⟩
    have hroot : p.head? ≠ some '/' := by
      have := hplain.relative
      simpa [UnixPath.isAbsolute] using this
    rw [isSafeRelPath, if_neg hplain.ne_nil, if_neg hroot, if_neg hback, List.all_eq_true]
    intro c hc
    obtain ⟨name, rfl⟩ := hplain.normal c hc
    rfl

/-- The check in terms of the text: its first character, its first part, and whether a part
goes up. -/
theorem isSafeRelPath_iff {p : Str} :
    isSafeRelPath p = true ↔ p ≠ [] ∧ p.head? ≠ some '/' ∧ p.head? ≠ some '\\' ∧
      (parts p).head? ≠ some ['.'] ∧ ['.', '.'] ∉ parts p := by
  have habs : UnixPath.isAbsolute p = false ↔ p.head? ≠ some '/' := by
    simp [UnixPath.isAbsolute]
  rw [isSafeRelPath_iff_plain, UnixPath.plain_iff, habs]
  tauto

/-! ### The documented language -/

/-- A drive at the front of a path: an ASCII letter and a colon. -/
def hasDrive : Str → Bool
  | letter :: colon :: _ => letter.isAlpha && colon = ':'
  | _ => false

/-- A UNC root at the front of a path: two backslashes. -/
def hasUncRoot : Str → Bool
  | first :: second :: _ => first = '\\' && second = '\\'
  | _ => false

/-- A UNC root starts with a backslash. -/
theorem head?_of_hasUncRoot {p : Str} (h : hasUncRoot p = true) : p.head? = some '\\' := by
  unfold hasUncRoot at h
  split at h
  · rename_i first second rest
    rw [Bool.and_eq_true, decide_eq_true_eq] at h
    rw [List.head?_cons, h.1]
  · exact absurd h Bool.false_ne_true

/-- What the documentation says a safe path is. -/
structure DocumentedSafe (p : Str) : Prop where
  ne_nil : p ≠ []
  noRoot : p.head? ≠ some '/'
  noBackslash : p.head? ≠ some '\\'
  noDrive : hasDrive p = false
  noUncRoot : hasUncRoot p = false
  noNul : '\x00' ∉ p
  noCurDir : ['.'] ∉ parts p
  noParentDir : ['.', '.'] ∉ parts p

/-- The check gives the reason for a refusal itself: the path is empty, starts with a
separator of either kind, starts with a dot component, or goes up somewhere. -/
def CheckRefuses (p : Str) : Prop :=
  p = [] ∨ p.head? = some '/' ∨ p.head? = some '\\' ∨ (parts p).head? = some ['.'] ∨
    ['.', '.'] ∈ parts p

/-- What the check refuses. -/
theorem isSafeRelPath_eq_false_iff {p : Str} : isSafeRelPath p = false ↔ CheckRefuses p := by
  rw [← Bool.not_eq_true, isSafeRelPath_iff, CheckRefuses]
  tauto

/-- What the check does not look at: a drive, a NUL byte, a dot component anywhere. -/
structure NothingUnseen (p : Str) : Prop where
  noDrive : hasDrive p = false
  noNul : '\x00' ∉ p
  noCurDir : ['.'] ∉ parts p

/-- Whatever is documented as safe is accepted. -/
theorem DocumentedSafe.isSafeRelPath {p : Str} (h : DocumentedSafe p) :
    isSafeRelPath p = true := by
  refine isSafeRelPath_iff.mpr ⟨h.ne_nil, h.noRoot, h.noBackslash, ?_, h.noParentDir⟩
  intro hdot
  exact h.noCurDir (List.mem_of_mem_head? hdot)

/-- An accepted path is documented as safe if it holds nothing the check does not look
at. -/
theorem documentedSafe_iff_of_isSafeRelPath {p : Str} (h : isSafeRelPath p = true) :
    DocumentedSafe p ↔ NothingUnseen p := by
  obtain ⟨hne, hroot, hback, -, hup⟩ := isSafeRelPath_iff.mp h
  constructor
  · intro hdoc
    exact ⟨hdoc.noDrive, hdoc.noNul, hdoc.noCurDir⟩
  · intro hunseen
    have hunc : hasUncRoot p = false := by
      by_contra hunc
      exact hback (head?_of_hasUncRoot (by simpa using hunc))
    exact ⟨hne, hroot, hback, hunseen.noDrive, hunc, hunseen.noNul, hunseen.noCurDir, hup⟩

/-- **The verdict is the documented one** exactly on the paths the check refuses and on
those that hold no drive, no NUL byte and no dot component. -/
theorem isSafeRelPath_iff_documented_iff (p : Str) :
    (isSafeRelPath p = true ↔ DocumentedSafe p) ↔ CheckRefuses p ∨ NothingUnseen p := by
  rw [← isSafeRelPath_eq_false_iff]
  cases h : isSafeRelPath p with
  | false =>
      have hdoc : ¬ DocumentedSafe p := by
        intro hdoc
        rw [hdoc.isSafeRelPath] at h
        exact Bool.true_eq_false_eq_False h
      simp [hdoc]
  | true => simp [documentedSafe_iff_of_isSafeRelPath h]

/-- The path `a/.`, the confusion the documentation wants to avoid, is accepted. -/
theorem isSafeRelPath_undocumented : ¬ ∀ p : Str, isSafeRelPath p = true ↔ DocumentedSafe p := by
  intro h
  have hsafe : isSafeRelPath ['a', '/', '.'] = true := by decide
  have hdoc := (h ['a', '/', '.']).mp hsafe
  exact hdoc.noCurDir (by decide)

/-- A NUL byte and a drive are accepted too. -/
example : isSafeRelPath ['a', '\x00'] = true ∧ isSafeRelPath ['C', ':', 'x'] = true := by decide

end DataDiode
