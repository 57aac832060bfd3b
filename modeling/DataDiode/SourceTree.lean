import DataDiode.Layout
import DataDiode.WalkFiles

/-!
# The Files of a Source Directory

The files that a walk collects, by the names of the entries on the way to them. In a directory no
two entries have the same name; so no collected file lies on the way to another, and every file is
collected once. The names of the relative path of a file are these names, as text.

## Main results

* `walkFiles_eq`: the walk, by names.
* `walkNames_pairwise`: no file of a walk is on the way to another.
* `names_prefix_of_text`: neither is the relative path of one on the way to that of another.
-/

namespace DataDiode

open UnixPath (Path join parts lastPart)

/-! ### The walk by names -/

/-- The name of an entry. -/
def Entry.name : Entry → FileName
  | .mk name _ _ _ _ => name

mutual

/-- The names on the way to the files below a directory. -/
def walkNames : Option (List Entry) → List (List FileName)
  | none => []
  | some entries => entriesNames entries

/-- The names on the way to the files of the entries. -/
def entriesNames : List Entry → List (List FileName)
  | [] => []
  | entry :: entries => entryNames entry ++ entriesNames entries

/-- The names on the way to the files of an entry. -/
def entryNames : Entry → List (List FileName)
  | .mk name isSymlink isDir isFile listing =>
      if isSymlink = some true then []
      else if isDir then (walkNames listing).map (name :: ·)
      else if isFile then [[name]]
      else []

end

mutual

/-- **The walk** joins the directory with names. -/
theorem walkFiles_eq (dir : Path) :
    ∀ listing : Option (List Entry), walkFiles dir listing = (walkNames listing).map (fullPath dir)
  | none => by rw [walkFiles, walkNames, List.map_nil]
  | some entries => by rw [walkFiles, walkNames, walkEntries_eq]

/-- The walk of the entries of a directory, by the names on the way. -/
theorem walkEntries_eq (dir : Path) :
    ∀ entries : List Entry, walkEntries dir entries = (entriesNames entries).map (fullPath dir)
  | [] => by rw [walkEntries, entriesNames, List.map_nil]
  | entry :: entries => by
      rw [walkEntries, entriesNames, List.map_append, walkEntry_eq, walkEntries_eq dir entries]

/-- The walk of one entry, by the names on the way. -/
theorem walkEntry_eq (dir : Path) :
    ∀ entry : Entry, walkEntry dir entry = (entryNames entry).map (fullPath dir)
  | .mk name isSymlink isDir isFile listing => by
      rw [walkEntry, entryNames]
      split
      · rfl
      split
      · rw [walkFiles_eq (join dir name.name) listing, List.map_map]
        rfl
      split <;> rfl

end

mutual

/-- In every directory that is walked, the entries have different names. -/
def DistinctNames : Option (List Entry) → Prop
  | none => True
  | some entries => (entries.map Entry.name).Nodup ∧ DistinctBelow entries

/-- No directory below the entries has two entries of one name. -/
def DistinctBelow : List Entry → Prop
  | [] => True
  | entry :: entries => DistinctIn entry ∧ DistinctBelow entries

/-- No directory below the entry has two entries of one name. -/
def DistinctIn : Entry → Prop
  | .mk _ _ _ _ listing => DistinctNames listing

end

/-- Neither of two lists of names is on the way to the other. -/
def Branches {Name : Type*} (ns ms : List Name) : Prop := ¬ns <+: ms ∧ ¬ms <+: ns

/-- The way to a file starts with an entry of the directory. -/
theorem exists_cons_of_mem_entryNames {entry : Entry} {ns : List FileName}
    (h : ns ∈ entryNames entry) : ∃ rest, ns = entry.name :: rest := by
  obtain ⟨name, isSymlink, isDir, isFile, listing⟩ := entry
  rw [entryNames] at h
  split at h
  · exact absurd h List.not_mem_nil
  split at h
  · obtain ⟨rest, -, rfl⟩ := List.mem_map.mp h
    exact ⟨rest, rfl⟩
  split at h
  · exact ⟨[], List.mem_singleton.mp h⟩
  · exact absurd h List.not_mem_nil

/-- A file that is found is found in an entry. -/
theorem exists_entry_of_mem_entriesNames {entries : List Entry} {ns : List FileName}
    (h : ns ∈ entriesNames entries) : ∃ entry ∈ entries, ns ∈ entryNames entry := by
  induction entries with
  | nil => exact absurd h (by simp [entriesNames])
  | cons entry entries ih =>
      rw [entriesNames, List.mem_append] at h
      rcases h with h | h
      · exact ⟨entry, List.mem_cons_self, h⟩
      · obtain ⟨entry', hentry', h⟩ := ih h
        exact ⟨entry', List.mem_cons_of_mem _ hentry', h⟩

mutual

/-- **No file of a walk is on the way to another.** -/
theorem walkNames_pairwise :
    ∀ listing : Option (List Entry), DistinctNames listing → (walkNames listing).Pairwise Branches
  | none, _ => by
      rw [walkNames]
      exact .nil
  | some entries, h => by
      rw [DistinctNames] at h
      rw [walkNames]
      exact entriesNames_pairwise entries h.1 h.2

/-- No file below entries with different names is on the way to another. -/
theorem entriesNames_pairwise : ∀ entries : List Entry, (entries.map Entry.name).Nodup →
    DistinctBelow entries → (entriesNames entries).Pairwise Branches
  | [], _, _ => by
      rw [entriesNames]
      exact .nil
  | entry :: entries, hnodup, h => by
      rw [DistinctBelow] at h
      obtain ⟨hentry, hnodup⟩ := List.nodup_cons.mp hnodup
      rw [entriesNames, List.pairwise_append]
      refine ⟨entryNames_pairwise entry h.1, entriesNames_pairwise entries hnodup h.2, ?_⟩
      -- different entries have different names
      intro ns hns ms hms
      obtain ⟨other, hother, hms⟩ := exists_entry_of_mem_entriesNames hms
      obtain ⟨ns, rfl⟩ := exists_cons_of_mem_entryNames hns
      obtain ⟨ms, rfl⟩ := exists_cons_of_mem_entryNames hms
      have hne : entry.name ≠ other.name :=
        fun heq => hentry (heq ▸ List.mem_map_of_mem hother)
      exact ⟨fun hway => hne (List.cons_prefix_cons.mp hway).1,
        fun hway => hne (List.cons_prefix_cons.mp hway).1.symm⟩

/-- No file below an entry is on the way to another. -/
theorem entryNames_pairwise :
    ∀ entry : Entry, DistinctIn entry → (entryNames entry).Pairwise Branches
  | .mk name isSymlink isDir isFile listing, h => by
      rw [DistinctIn] at h
      rw [entryNames]
      split
      · exact .nil
      split
      · rw [List.pairwise_map]
        refine (walkNames_pairwise listing h).imp fun hbranches => ⟨fun hway => ?_, fun hway => ?_⟩
        · exact hbranches.1 (List.cons_prefix_cons.mp hway).2
        · exact hbranches.2 (List.cons_prefix_cons.mp hway).2
      split
      · exact List.pairwise_singleton _ _
      · exact .nil

end

/-! ### Relative paths -/

/-- A name is its bytes. -/
theorem FileName.bytes_injective : Function.Injective FileName.bytes := by
  rintro ⟨bytes, _, _, _, _, _⟩ ⟨bytes', _, _, _, _, _⟩ rfl
  rfl

/-- The names on the way to a collected file. -/
theorem ne_nil_of_mem_walkNames {listing : Option (List Entry)} {ns : List FileName}
    (h : ns ∈ walkNames listing) : ns ≠ [] := by
  cases listing with
  | none => exact absurd h (by simp [walkNames])
  | some entries =>
      rw [walkNames] at h
      obtain ⟨entry, -, h⟩ := exists_entry_of_mem_entriesNames h
      obtain ⟨rest, rfl⟩ := exists_cons_of_mem_entryNames h
      exact List.cons_ne_nil _ _

/-- **The names of the relative path** are the names on the way to the file, as text. -/
theorem map_encode_names {ns : List FileName} (hne : ns ≠ []) {p : List Char}
    (h : Utf8.encode p = joined ns) :
    (UnixPath.names p).map Utf8.encode = ns.map FileName.bytes := by
  have hparts := map_encode_parts hne h
  have hkeep : ∀ part ∈ parts p, decide (part ≠ [] ∧ part ≠ ['.']) = true := by
    intro part hpart
    have hmem : Utf8.encode part ∈ ns.map FileName.bytes := by
      rw [← hparts]
      exact List.mem_map_of_mem hpart
    obtain ⟨n, -, hn⟩ := List.mem_map.mp hmem
    rw [decide_eq_true_eq]
    constructor
    · rintro rfl
      exact n.ne_nil hn
    · rintro rfl
      exact n.ne_curDir (hn.trans (by decide))
  rw [UnixPath.names, List.filter_eq_self.mpr hkeep, hparts]

/-- **A relative path on the way to another** comes of a file on the way to the other. -/
theorem names_prefix_of_text {ns ms : List FileName} (hns : ns ≠ []) (hms : ms ≠ [])
    {p q : List Char} (hp : Utf8.encode p = joined ns) (hq : Utf8.encode q = joined ms)
    (h : UnixPath.names p <+: UnixPath.names q) : ns <+: ms := by
  have hbytes : ns.map FileName.bytes <+: ms.map FileName.bytes := by
    rw [← map_encode_names hns hp, ← map_encode_names hms hq]
    exact h.map Utf8.encode
  exact (List.prefix_map_iff_of_injective FileName.bytes_injective).mp hbytes

end DataDiode
