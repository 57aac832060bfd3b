import DataDiode.MergeFiles

/-!
# The Manifest

A line of the manifest is a digest, two blanks and a path. `merge_files` reads it as text, takes it
apart at the blanks, and enters the digest under the path and under its last part. A path is found
again if a line can hold it: it is text, without line ends, and without blanks at its ends.

## Main results

* `lineEntries_plain`: what a line enters.
* `expectedDigest_manifest`: the digest that is found for a path.
-/

namespace DataDiode

open Files

/-- A line of the manifest: `<hex>  <path>`. -/
def manifestLine (sha256 : Bytes → Str) (t : Tree UInt8 UInt8) (l : Place UInt8) : Bytes :=
  Utf8.encode (sha256 ((t.lookup l).getD []) ++ [' ', ' ']) ++ pathOf l ++ [10]

/-- `! -name 'SHA256' ! -name 'SHA256.tmp.*'` -/
def isHashed (l : Place UInt8) : Bool :=
  l.base ≠ manifestName &&
    !(manifestName ++ Utf8.encode ['.', 't', 'm', 'p', '.']).isPrefixOf l.base

/-! ### Lines -/

/-- What digest commands print. -/
structure IsDigest (digest : Str) : Prop where
  ne : digest ≠ []
  noSpace : ∀ c ∈ digest, PyString.isSpace c = false

/-- A text without blanks, which is not empty. -/
theorem IsDigest.of_all {digest : Str} (hne : digest ≠ [])
    (hall : (digest.all fun c => !PyString.isSpace c) = true) : IsDigest digest := by
  refine ⟨hne, fun c hc => ?_⟩
  have hspace := List.all_eq_true.mp hall c hc
  rwa [Bool.not_eq_true'] at hspace

/-- A path that a line can hold. -/
structure IsPlain (path : Str) : Prop where
  ne : path ≠ []
  noReturn : '\r' ∉ path
  noNewline : '\n' ∉ path
  head : ∀ c ∈ path.head?, PyString.isSpace c = false
  last : ∀ c ∈ path.getLast?, PyString.isSpace c = false

/-- A path is plain that starts and ends with other characters than blanks. -/
theorem IsPlain.of_ends {path : Str} {x y : Char} (hhead : path.head? = some x)
    (hlast : path.getLast? = some y) (hx : PyString.isSpace x = false)
    (hy : PyString.isSpace y = false) (hreturn : '\r' ∉ path) (hnewline : '\n' ∉ path) :
    IsPlain path := by
  refine ⟨fun hnil => by simp [hnil] at hhead, hreturn, hnewline, fun c hc => ?_, fun c hc => ?_⟩
  · obtain rfl := Option.some.inj (hhead.symm.trans hc)
    exact hx
  · obtain rfl := Option.some.inj (hlast.symm.trans hc)
    exact hy

/-- What is between the digest and the path are blanks. -/
theorem isSpace_of_mem_blanks {c : Char} (h : c ∈ [' ', ' ']) : PyString.isSpace c = true := by
  obtain rfl : c = ' ' := by simpa using h
  decide

section Lines

variable {digest path : Str}

/-- **A line** enters the digest under the path and under its last part. -/
theorem lineEntries_plain (hdigest : IsDigest digest) (hpath : IsPlain path) :
    lineEntries (digest ++ [' ', ' '] ++ path) = [(path, digest), (basename path, digest)] := by
  have hstrip : PyString.strip (digest ++ [' ', ' '] ++ path) = digest ++ [' ', ' '] ++ path := by
    refine PyString.strip_eq_self (fun c hc => hdigest.noSpace c ?_) fun c hc => hpath.last c ?_
    · rw [List.append_assoc, List.head?_append_of_ne_nil _ hdigest.ne] at hc
      exact List.mem_of_head? hc
    · rwa [List.getLast?_append_of_ne_nil _ hpath.ne] at hc
  rw [lineEntries, hstrip,
    PyString.splitOnce_eq hdigest.ne hdigest.noSpace (by simp) (fun _ => isSpace_of_mem_blanks)
      hpath.ne hpath.head]
  simp only [PyString.strip_eq_self hpath.head hpath.last]

/-- A line ends where the next begins. -/
theorem lines_line {s : Str} (hdigest : IsDigest digest) (hpath : IsPlain path) :
    PyString.lines (digest ++ [' ', ' '] ++ path ++ '\n' :: s) =
      (digest ++ [' ', ' '] ++ path) :: PyString.lines s := by
  refine PyString.lines_append ?_ ?_
  · simp only [List.mem_append, not_or]
    refine ⟨⟨fun h => ?_, by decide⟩, hpath.noReturn⟩
    exact absurd (hdigest.noSpace _ h) (by decide)
  · simp only [List.mem_append, not_or]
    refine ⟨⟨fun h => ?_, by decide⟩, hpath.noNewline⟩
    exact absurd (hdigest.noSpace _ h) (by decide)

/-- **The entries of a manifest** are those of its lines. -/
theorem manifestEntries_lines {lines : List (Str × Str)}
    (h : ∀ line ∈ lines, IsDigest line.1 ∧ IsPlain line.2) :
    manifestEntries (Utf8.encode (lines.flatMap fun line =>
        line.1 ++ [' ', ' '] ++ line.2 ++ ['\n'])) =
      lines.flatMap fun line => [(line.2, line.1), (basename line.2, line.1)] := by
  rw [manifestEntries, Utf8.fromUtf8Lossy_encode]
  induction lines with
  | nil => decide
  | cons line lines ih =>
      obtain ⟨⟨hdigest, hpath⟩, hrest⟩ := List.forall_mem_cons.mp h
      rw [List.flatMap_cons, List.flatMap_cons, List.append_assoc _ ['\n'], List.singleton_append,
        lines_line hdigest hpath, List.flatMap_cons, ih hrest, lineEntries_plain hdigest hpath]

end Lines

/-! ### Paths -/

/-- Splitting takes the separator out. -/
theorem notMem_of_mem_splitOn {α : Type*} [DecidableEq α] {x : α} {s part : List α}
    (h : part ∈ s.splitOn x) : x ∉ part := by
  induction s generalizing part with
  | nil =>
      rw [List.splitOn_nil, List.mem_singleton] at h
      simp [h]
  | cons y s ih =>
      rw [List.splitOn_cons_eq_if_modifyHead] at h
      split at h
      · rcases List.mem_cons.mp h with rfl | h
        · exact List.not_mem_nil
        · exact ih h
      · rename_i hne
        cases hparts : s.splitOn x with
        | nil => exact absurd hparts (List.splitOn_ne_nil x s)
        | cons first parts =>
            rw [hparts, List.modifyHead_cons] at h
            rw [hparts] at ih
            rcases List.mem_cons.mp h with rfl | h
            · rw [List.mem_cons, not_or]
              exact ⟨fun heq => hne (beq_iff_eq.mpr heq.symm), ih List.mem_cons_self⟩
            · exact ih (List.mem_cons_of_mem _ h)

/-- The last part of a path has no slash in it. -/
theorem slash_notMem_basename (path : Str) : '/' ∉ basename path := by
  rw [basename]
  cases h : (path.splitOn '/').getLast? with
  | none => exact List.not_mem_nil
  | some part => exact notMem_of_mem_splitOn (List.mem_of_getLast? h)

/-- Names on the way to a file below a directory have no slash in them. -/
def IsNamed (dir : Bytes) (l : Place UInt8) : Prop :=
  ∃ names, l.dir = dir :: names ∧ ∀ n ∈ names ++ [l.base], (47 : UInt8) ∉ n

/-- The path of a place below a directory. -/
theorem pathOf_eq {dir : Bytes} {names : List Bytes} {l : Place UInt8} (h : l.dir = dir :: names) :
    pathOf l = dir ++ 47 :: List.intercalate [47] (names ++ [l.base]) := by
  rw [pathOf, h, List.cons_append]
  cases hmore : names ++ [l.base] with
  | nil => exact absurd hmore (by simp)
  | cons n more => simp [List.intercalate]

/-- **A path** tells the file. -/
theorem pathOf_inj {dir : Bytes} {l l' : Place UInt8} (hl : IsNamed dir l) (hl' : IsNamed dir l')
    (h : pathOf l = pathOf l') : l = l' := by
  obtain ⟨names, hdir, hnames⟩ := hl
  obtain ⟨names', hdir', hnames'⟩ := hl'
  rw [pathOf_eq hdir, pathOf_eq hdir', List.append_cancel_left_eq, List.cons_inj_right] at h
  have hsplit := congrArg (List.splitOn 47) h
  rw [List.splitOn_intercalate _ hnames (by simp), List.splitOn_intercalate _ hnames' (by simp)]
    at hsplit
  obtain ⟨rfl, hbase⟩ := List.append_inj' hsplit rfl
  cases l
  cases l'
  exact congrArg₂ Place.mk (hdir.trans hdir'.symm) (List.singleton_inj.mp hbase)

/-- A path as text. -/
def textOf (l : Place UInt8) : Str := Utf8.fromUtf8Lossy (pathOf l)

/-- A file that a line of the manifest can name. -/
structure HasLine (dir : Bytes) (l : Place UInt8) : Prop where
  named : IsNamed dir l
  text : Utf8.encode (textOf l) = pathOf l
  plain : IsPlain (textOf l)

/-- Paths are read as the text they are made of. -/
theorem HasLine.of_encode {dir : Bytes} {l : Place UInt8} {path : Str} (hnamed : IsNamed dir l)
    (hpath : pathOf l = Utf8.encode path) (hplain : IsPlain path) : HasLine dir l := by
  have htext : textOf l = path := by rw [textOf, hpath, Utf8.fromUtf8Lossy_encode]
  exact ⟨hnamed, by rw [htext, hpath], htext.symm ▸ hplain⟩

section Entries

variable {dir : Bytes} {l l' : Place UInt8}

/-- The last part of a path is no path below the directory. -/
theorem HasLine.basename_ne (hl : HasLine dir l) (path : Str) :
    Utf8.encode (basename path) ≠ pathOf l := by
  intro heq
  obtain ⟨names, hdir, -⟩ := hl.named
  have hslash : (47 : UInt8) ∈ Utf8.encode (basename path) := by
    rw [heq, pathOf_eq hdir]
    exact List.mem_append_right _ List.mem_cons_self
  exact slash_notMem_basename path (Utf8.ofNat_mem_of_mem_encode (by decide) hslash)

/-- What all entries for a key say. -/
theorem getEntry_eq {entries : List (Str × Str)} {key : Bytes} {digest : Str}
    (hall : ∀ e ∈ entries, Utf8.encode e.1 = key → e.2 = digest)
    (hsome : ∃ e ∈ entries, Utf8.encode e.1 = key) : getEntry entries key = some digest := by
  rw [getEntry]
  cases hfind : entries.reverse.find? fun e => Utf8.encode e.1 = key with
  | none =>
      obtain ⟨e, he, hkey⟩ := hsome
      exact absurd hkey (by simpa using List.find?_eq_none.mp hfind e (List.mem_reverse.mpr he))
  | some e =>
      have hkey : Utf8.encode e.1 = key := by simpa using List.find?_some hfind
      exact congrArg some (hall e (List.mem_reverse.mp (List.mem_of_find?_eq_some hfind)) hkey)

/-- The entries that the line of a file makes. -/
def fileEntries (sha256 : Bytes → Str) (t : Tree UInt8 UInt8) (l : Place UInt8) :
    List (Str × Str) :=
  [(textOf l, sha256 ((t.lookup l).getD [])), (basename (textOf l), sha256 ((t.lookup l).getD []))]

/-- The entries of the manifest of files that have lines. -/
theorem manifestEntries_manifest {sha256 : Bytes → Str} {t : Tree UInt8 UInt8}
    {order : List (Place UInt8)} (hdigest : ∀ c, IsDigest (sha256 c))
    (hlines : ∀ l ∈ order, HasLine dir l) :
    manifestEntries (order.flatMap (manifestLine sha256 t)) =
      order.flatMap (fileEntries sha256 t) := by
  have htext : order.flatMap (manifestLine sha256 t) =
      Utf8.encode ((order.map fun l => (sha256 ((t.lookup l).getD []), textOf l)).flatMap
        fun line => line.1 ++ [' ', ' '] ++ line.2 ++ ['\n']) := by
    rw [List.flatMap_map, Utf8.encode, List.flatMap_assoc]
    refine List.flatMap_congr fun l hl => ?_
    rw [manifestLine, ← (hlines l hl).text, ← Utf8.encode, Utf8.encode_append _ ['\n'],
      Utf8.encode_append _ (textOf l)]
    rfl
  rw [htext, manifestEntries_lines, List.flatMap_map]
  · rfl
  · intro line hline
    obtain ⟨l', hl', rfl⟩ := List.mem_map.mp hline
    exact ⟨hdigest _, (hlines l' hl').plain⟩

/-- **The manifest of files that have lines** gives the digest of each of them. -/
theorem expectedDigest_manifest {sha256 : Bytes → Str} {t : Tree UInt8 UInt8}
    {order : List (Place UInt8)} {c : Bytes} (hdigest : ∀ c, IsDigest (sha256 c))
    (hlines : ∀ l ∈ order, HasLine dir l) (hl : l ∈ order) (hc : t.lookup l = some c) :
    expectedDigest (manifestEntries (order.flatMap (manifestLine sha256 t))) l =
      some (sha256 c) := by
  rw [manifestEntries_manifest hdigest hlines, expectedDigest, getEntry_eq, Option.some_or]
  · intro e he hkey
    obtain ⟨l', hl', he⟩ := List.mem_flatMap.mp he
    rcases List.mem_cons.mp he with rfl | he
    · have hsame := pathOf_inj (hlines l' hl').named (hlines l hl).named
        ((hlines l' hl').text.symm.trans hkey)
      rw [hsame, hc]
      rfl
    · obtain rfl := List.mem_singleton.mp he
      exact absurd hkey ((hlines l hl).basename_ne _)
  · exact ⟨_, List.mem_flatMap.mpr ⟨l, hl, List.mem_cons_self⟩, (hlines l hl).text⟩

end Entries

end DataDiode
