import DataDiode.PathBelow
import DataDiode.Slices
import DataDiode.Utf8

/-!
# Walking the Source Directory

The files the sender finds below its source directory, and what it calls them. A directory entry
is described by what the calls on it return; the file system may change between these calls, so
the answers need not agree. File names are byte strings, as Unix has them, and a path is read with
one character for each byte until its text is asked for.

## Main results

* `exists_names_of_mem_walkFiles`: a collected path is the source directory joined with names.
* `relPathOf_fullPath`: the relative path is the text of these names, if they are UTF-8.
* `map_encode_parts`: its parts are the names.
-/

namespace DataDiode

open UnixPath (Path Name join stripPrefix parts)

/-! ### Strings of the operating system -/

/-- A string of the operating system, one character for each byte. -/
def osPath (bytes : List UInt8) : Path := bytes.map fun b => Char.ofNat b.toNat

/-- The bytes of such a string. -/
def osBytes (p : Path) : List UInt8 := p.map fun c => UInt8.ofNat c.toNat

/-- `Path::to_str`: the text, if the bytes are UTF-8. -/
def toStr (p : Path) : Option (List Char) := Utf8.fromUtf8 (osBytes p)

/-- A byte is read back from its character. -/
theorem toNat_ofNat_byte (b : UInt8) : (Char.ofNat b.toNat).toNat = b.toNat := by
  have hvalid : b.toNat.isValidChar := Or.inl (by have := b.toNat_lt; omega)
  rw [Char.ofNat, dif_pos hvalid]
  rfl

/-- The bytes of a name are read back from its text. -/
@[simp] theorem osBytes_osPath (bytes : List UInt8) : osBytes (osPath bytes) = bytes := by
  rw [osBytes, osPath, List.map_map]
  refine (List.map_congr_left fun b _ => ?_).trans (List.map_id bytes)
  rw [Function.comp_apply, toNat_ofNat_byte, UInt8.ofNat_toNat, id]

/-- The characters of a name are its bytes. -/
theorem mem_of_mem_osPath {bytes : List UInt8} {c : Char} (h : c ∈ osPath bytes) :
    UInt8.ofNat c.toNat ∈ bytes := by
  rw [← osBytes_osPath bytes]
  exact List.mem_map_of_mem h

/-- The name of a directory entry. -/
structure FileName where
  bytes : List UInt8
  ne_nil : bytes ≠ []
  noSlash : 47 ∉ bytes
  noNul : 0 ∉ bytes
  ne_curDir : bytes ≠ [46]
  ne_parentDir : bytes ≠ [46, 46]

/-- A file name as part of a path. -/
def FileName.name (n : FileName) : Name := osPath n.bytes

/-- A name of a file is a name in a path. -/
theorem FileName.isName (n : FileName) : UnixPath.IsName n.name := by
  have hbytes : ∀ p : Path, n.name = p → n.bytes = osBytes p := by
    rintro p rfl
    exact (osBytes_osPath n.bytes).symm
  exact
    { ne_nil := fun h => n.ne_nil (hbytes _ h)
      noSlash := fun h => n.noSlash (mem_of_mem_osPath h)
      ne_curDir := fun h => n.ne_curDir (hbytes _ h)
      ne_parentDir := fun h => n.ne_parentDir (hbytes _ h) }

/-! ### The walk -/

/-- An entry of a directory: its name, what `symlink_metadata` says about its being a link,
whether it passes for a directory and for a regular file, and what `read_dir` lists of it. An
entry that `read_dir` cannot return is left out of the listing. -/
inductive Entry
  | mk (name : FileName) (isSymlink : Option Bool) (isDir isFile : Bool)
      (listing : Option (List Entry))

mutual

/-- The files below a directory, in the order of the listings. Links are skipped, and a directory
that cannot be read counts as empty. -/
def walkFiles (dir : Path) : Option (List Entry) → List Path
  | none => []
  | some entries => walkEntries dir entries

/-- The files of the entries, one after the other. -/
def walkEntries (dir : Path) : List Entry → List Path
  | [] => []
  | entry :: entries => walkEntry dir entry ++ walkEntries dir entries

/-- The files of an entry: none of a link, those below a directory, or itself. -/
def walkEntry (dir : Path) : Entry → List Path
  | .mk name isSymlink isDir isFile listing =>
      if isSymlink = some true then []
      else if isDir then walkFiles (join dir name.name) listing
      else if isFile then [join dir name.name]
      else []

end

/-- The path of the file with the given names below a directory. -/
def fullPath (dir : Path) (names : List FileName) : Path :=
  (names.map FileName.name).foldl join dir

/-- A path of one name or more below a directory. -/
def IsBelow (dir full : Path) : Prop := ∃ names, names ≠ [] ∧ full = fullPath dir names

/-- What is below a directory is below its parent. -/
theorem IsBelow.of_join {dir full : Path} (name : FileName)
    (h : IsBelow (join dir name.name) full) : IsBelow dir full := by
  obtain ⟨names, -, rfl⟩ := h
  exact ⟨name :: names, List.cons_ne_nil _ _, rfl⟩

mutual

/-- **A collected path** is the directory joined with names. -/
theorem exists_names_of_mem_walkFiles {dir full : Path} :
    ∀ (listing : Option (List Entry)), full ∈ walkFiles dir listing → IsBelow dir full
  | none, h => absurd h (by simp [walkFiles])
  | some entries, h => isBelow_of_mem_walkEntries entries (by rwa [walkFiles] at h)

/-- What is found in the entries is below the directory. -/
theorem isBelow_of_mem_walkEntries {dir full : Path} :
    ∀ (entries : List Entry), full ∈ walkEntries dir entries → IsBelow dir full
  | [], h => absurd h (by simp [walkEntries])
  | entry :: entries, h => by
      rw [walkEntries, List.mem_append] at h
      rcases h with h | h
      · exact isBelow_of_mem_walkEntry entry h
      · exact isBelow_of_mem_walkEntries entries h

/-- What is found in one of them is. -/
theorem isBelow_of_mem_walkEntry {dir full : Path} :
    ∀ (entry : Entry), full ∈ walkEntry dir entry → IsBelow dir full
  | .mk name isSymlink isDir isFile listing, h => by
      rw [walkEntry] at h
      split at h
      · exact absurd h List.not_mem_nil
      · split at h
        · exact (exists_names_of_mem_walkFiles listing h).of_join name
        · split at h
          · exact ⟨[name], List.cons_ne_nil _ _, List.mem_singleton.mp h⟩
          · exact absurd h List.not_mem_nil

end

/-! ### Relative paths -/

/-- The name under which a file is sent: its path without the source directory, as text. -/
def relPathOf (sourceDir full : Path) : Option (List Char) :=
  (stripPrefix full sourceDir).bind toStr

/-- The names of a file with separators in between. -/
def joined (names : List FileName) : List UInt8 := [47].intercalate (names.map FileName.bytes)

/-- **The relative path** of a collected file is the text of its names. -/
theorem relPathOf_fullPath (dir : Path) {names : List FileName} (hne : names ≠ []) :
    relPathOf dir (fullPath dir names) = Utf8.fromUtf8 (joined names) := by
  have hnames : ∀ n ∈ names.map FileName.name, UnixPath.IsName n := by
    intro n hn
    obtain ⟨name, -, rfl⟩ := List.mem_map.mp hn
    exact name.isName
  have hbytes : osBytes (['/'].intercalate (names.map FileName.name)) = joined names := by
    rw [Slices.map_intercalate osBytes rfl (fun _ _ => List.map_append), List.map_map, joined]
    congr 1
    exact List.map_congr_left fun n _ => osBytes_osPath n.bytes
  rw [relPathOf, fullPath, UnixPath.stripPrefix_foldl_join dir (by simpa using hne) hnames,
    Option.bind_some, toStr, hbytes]

/-- **The parts of the text** are the names. -/
theorem map_encode_parts {names : List FileName} (hne : names ≠ []) {s : List Char}
    (h : Utf8.encode s = joined names) :
    (parts s).map Utf8.encode = names.map FileName.bytes := by
  have hparts : ∀ part ∈ (parts s).map Utf8.encode, (47 : UInt8) ∉ part := by
    intro part hpart hmem
    obtain ⟨p, hp, rfl⟩ := List.mem_map.mp hpart
    exact UnixPath.not_mem_of_mem_parts hp (Utf8.ofNat_mem_of_mem_encode (by decide) hmem)
  have hnames : ∀ name ∈ names.map FileName.bytes, (47 : UInt8) ∉ name := by
    intro name hname
    obtain ⟨n, -, rfl⟩ := List.mem_map.mp hname
    exact n.noSlash
  have hs : Utf8.encode s = [47].intercalate ((parts s).map Utf8.encode) := by
    have hjoin := Slices.map_intercalate Utf8.encode rfl Utf8.encode_append ['/'] (parts s)
    rw [parts, List.intercalate_splitOn] at hjoin
    exact hjoin
  have hsplit := List.splitOn_intercalate 47 hparts (by simp [UnixPath.parts_ne_nil])
  rw [← hs, h, joined, List.splitOn_intercalate 47 hnames (by simpa using hne)] at hsplit
  exact hsplit.symm

/-- A NUL character would be a NUL byte of a name. -/
theorem nul_not_mem_of_encode {names : List FileName} {s : List Char}
    (h : Utf8.encode s = joined names) : '\x00' ∉ s := by
  intro hnul
  have hmem : (0 : UInt8) ∈ joined names := by
    rw [← h]
    exact List.mem_flatMap.mpr ⟨'\x00', hnul, by decide⟩
  rcases Slices.mem_or_exists_of_mem_intercalate hmem with hsep | ⟨name, hname, hzero⟩
  · exact absurd hsep (by decide)
  · obtain ⟨n, -, rfl⟩ := List.mem_map.mp hname
    exact n.noNul hzero

end DataDiode
