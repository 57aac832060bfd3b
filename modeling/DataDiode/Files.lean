import Mathlib.Data.List.AList
import Mathlib.Data.List.Sort
import Mathlib.Data.List.Lex

/-!
# Files by Place

The regular files of a directory tree, as a finite map from places to contents. A place is the
directory a file is in, by the names on the way to it, and the name of the file. Programs that work
on such a tree list names, read files one after another, write files one after another, and run
`find` with a test and a command.

`findExec` is `find … -exec … {} +`: the places of a batch are tested before the command runs on
those that passed, one after another.

## Main results

* `namesIn_eq`: a listing is known by its members.
* `lookup_writeAll`, `lookup_writeAll_of_notMem`: what writes leave.
* `lookup_copyTo`: what a copy of a tree holds.
* `findExec_invariant`: an invariant that keeps the outcome of the tests runs through `find`.
-/

namespace Files

/-- Bytes are ordered by their values. -/
scoped instance instLinearOrderUInt8 : LinearOrder UInt8 where
  le_refl := UInt8.le_refl
  le_trans _ _ _ := UInt8.le_trans
  le_antisymm _ _ := UInt8.le_antisymm
  le_total := UInt8.le_total
  lt_iff_le_not_ge _ _ := by
    rw [UInt8.lt_iff_toNat_lt, UInt8.le_iff_toNat_le, UInt8.le_iff_toNat_le]
    omega
  toDecidableLE := inferInstance
  toDecidableLT := inferInstance
  toDecidableEq := inferInstance

/-- The place of a file: the names on the way to its directory, and its own. -/
structure Place (α : Type*) where
  dir : List (List α)
  base : List α
  deriving DecidableEq, Repr

variable {α β : Type*} [LinearOrder α]

/-- The regular files of a directory tree. -/
abbrev Tree (α β : Type*) := AList fun _ : Place α => List β

/-! ### Listings -/

/-- The names in a directory that satisfy `p`, in order. -/
def namesIn (t : Tree α β) (dir : List (List α)) (p : List α → Bool) : List (List α) :=
  ((t.keys.filter fun l => l.dir = dir ∧ p l.base).map Place.base).insertionSort (· ≤ ·)

/-- The names in a directory. -/
theorem mem_namesIn {t : Tree α β} {dir : List (List α)} {p : List α → Bool} {n : List α} :
    n ∈ namesIn t dir p ↔ (⟨dir, n⟩ : Place α) ∈ t ∧ p n = true := by
  rw [namesIn, List.mem_insertionSort, List.mem_map]
  constructor
  · rintro ⟨l, hl, rfl⟩
    obtain ⟨hmem, h⟩ := List.mem_filter.mp hl
    obtain ⟨rfl, hp⟩ := of_decide_eq_true h
    exact ⟨AList.mem_keys.mpr hmem, hp⟩
  · rintro ⟨hmem, hp⟩
    exact ⟨⟨dir, n⟩, List.mem_filter.mpr ⟨AList.mem_keys.mp hmem, decide_eq_true ⟨rfl, hp⟩⟩, rfl⟩

/-- A listing names nothing twice. -/
theorem pairwise_namesIn (t : Tree α β) (dir : List (List α)) (p : List α → Bool) :
    (namesIn t dir p).Pairwise (· < ·) := by
  have hsorted := List.pairwise_insertionSort (· ≤ ·)
    ((t.keys.filter fun l => l.dir = dir ∧ p l.base).map Place.base)
  have hnodup : (namesIn t dir p).Nodup := by
    refine (List.perm_insertionSort _ _).nodup_iff.mpr ?_
    refine List.Nodup.map_on ?_ (t.keys_nodup.filter _)
    intro l hl l' hl' hbase
    obtain ⟨hdir, -⟩ := of_decide_eq_true (List.mem_filter.mp hl).2
    obtain ⟨hdir', -⟩ := of_decide_eq_true (List.mem_filter.mp hl').2
    cases l
    cases l'
    simp_all
  exact hsorted.imp₂ (fun _ _ hle hne => lt_of_le_of_ne hle hne) hnodup

/-- **A listing is known by its members.** -/
theorem namesIn_eq {t : Tree α β} {dir : List (List α)} {p : List α → Bool}
    {names : List (List α)} (hnames : names.Pairwise (· < ·))
    (hmem : ∀ n, n ∈ names ↔ (⟨dir, n⟩ : Place α) ∈ t ∧ p n = true) :
    namesIn t dir p = names :=
  (pairwise_namesIn t dir p).eq_of_mem_iff hnames fun n => mem_namesIn.trans (hmem n).symm

/-- The files of a directory with the given names, one after another. -/
def concat (t : Tree α β) (dir : List (List α)) (names : List (List α)) : List β :=
  names.flatMap fun n => (t.lookup ⟨dir, n⟩).getD []

/-! ### Writes -/

/-- Files written one after another. -/
def writeAll (t : Tree α β) (writes : List (Place α × List β)) : Tree α β :=
  writes.foldl (fun t w => t.insert w.1 w.2) t

/-- What is not written to stays as it is. -/
theorem lookup_writeAll_of_notMem {writes : List (Place α × List β)} {l : Place α} :
    ∀ {t : Tree α β}, l ∉ writes.map Prod.fst → (writeAll t writes).lookup l = t.lookup l := by
  induction writes with
  | nil => exact fun _ => rfl
  | cons w writes ih =>
      intro t h
      rw [List.map_cons, List.mem_cons, not_or] at h
      exact (ih h.2).trans (AList.lookup_insert_ne h.1)

/-- What is written last is there. -/
theorem lookup_writeAll {writes : List (Place α × List β)} {l : Place α} {c : List β} :
    ∀ {t : Tree α β}, (writes.map Prod.fst).Nodup → (l, c) ∈ writes →
      (writeAll t writes).lookup l = some c := by
  induction writes with
  | nil => exact fun _ h => absurd h List.not_mem_nil
  | cons w writes ih =>
      intro t hnodup h
      rw [List.map_cons, List.nodup_cons] at hnodup
      rcases List.mem_cons.mp h with rfl | h
      · exact (lookup_writeAll_of_notMem hnodup.1).trans (AList.lookup_insert t)
      · exact ih hnodup.2 h

/-- The places that there are afterwards. -/
theorem mem_writeAll {writes : List (Place α × List β)} {l : Place α} :
    ∀ {t : Tree α β}, l ∈ writeAll t writes ↔ l ∈ t ∨ l ∈ writes.map Prod.fst := by
  induction writes with
  | nil => simp [writeAll]
  | cons w writes ih =>
      intro t
      rw [writeAll, List.foldl_cons, List.map_cons, List.mem_cons, or_left_comm, ← or_assoc,
        ← AList.mem_insert]
      exact ih

/-- A file after some writes goes by itself before them. -/
theorem lookup_writeAll_congr {writes : List (Place α × List β)} {l : Place α} :
    ∀ {t t' : Tree α β}, t.lookup l = t'.lookup l →
      (writeAll t writes).lookup l = (writeAll t' writes).lookup l := by
  induction writes with
  | nil => exact fun h => h
  | cons w writes ih =>
      intro t t' h
      refine ih ?_
      by_cases hl : l = w.1
      · rw [hl, AList.lookup_insert, AList.lookup_insert]
      · rw [AList.lookup_insert_ne hl, AList.lookup_insert_ne hl, h]

/-- So does a file after a removal. -/
theorem lookup_erase_congr {t t' : Tree α β} {l l' : Place α} (h : t.lookup l = t'.lookup l) :
    (t.erase l').lookup l = (t'.erase l').lookup l := by
  by_cases hl : l = l'
  · rw [hl, AList.lookup_erase, AList.lookup_erase]
  · rw [AList.lookup_erase_ne hl, AList.lookup_erase_ne hl, h]

/-- Files that were written in one directory, one after another. -/
theorem concat_of_lookup {t : Tree α β} {dir : List (List α)} {writes : List (Place α × List β)}
    (h : ∀ w ∈ writes, w.1.dir = dir ∧ t.lookup w.1 = some w.2) :
    concat t dir (writes.map fun w => w.1.base) = (writes.map Prod.snd).flatten := by
  rw [concat, List.flatMap_map, ← List.flatMap_def]
  refine List.flatMap_congr fun w hw => ?_
  obtain ⟨rfl, hlookup⟩ := h w hw
  exact (congrArg (·.getD []) hlookup).trans rfl

/-- A place is there if something is found at it. -/
theorem mem_of_lookup_eq {t t' : Tree α β} {l : Place α} (h : t.lookup l = t'.lookup l) :
    l ∈ t ↔ l ∈ t' := by
  rw [← AList.lookup_isSome, ← AList.lookup_isSome, h]

/-! ### Copies -/

/-- A place below another directory. -/
def Place.movedTo (dir : List α) (l : Place α) : Place α := ⟨dir :: l.dir.tail, l.base⟩

/-- `cp -r`: the files of a tree below another directory. -/
def copyTo (dir : List α) (t : Tree α β) : Tree α β :=
  writeAll ∅ (t.entries.map fun e => (e.1.movedTo dir, e.2))

/-- All files of a tree are below a directory. -/
def IsBelow (dir : List α) (t : Tree α β) : Prop := ∀ l ∈ t, l.dir.head? = some dir

section Copies

variable {t : Tree α β} {dir dir' : List α} {l : Place α}

omit [LinearOrder α] in
/-- A place below a directory. -/
theorem exists_of_head? (h : l.dir.head? = some dir) : ∃ names, l = ⟨dir :: names, l.base⟩ := by
  obtain ⟨names, hnames⟩ := List.head?_eq_some_iff.mp h
  exact ⟨names, congrArg (Place.mk · l.base) hnames⟩

omit [LinearOrder α] in
/-- The places of a copy. -/
theorem map_fst_copyTo (t : Tree α β) (dir' : List α) :
    (t.entries.map fun e => (e.1.movedTo dir', e.2)).map Prod.fst =
      t.keys.map (Place.movedTo dir') := by
  rw [List.map_map, AList.keys, List.keys, List.map_map]
  rfl

/-- A copy is below its new directory. -/
theorem isBelow_copyTo (dir' : List α) (t : Tree α β) : IsBelow dir' (copyTo dir' t) := by
  intro l hl
  have hmoved := (mem_writeAll.mp hl).resolve_left (AList.notMem_empty l)
  rw [map_fst_copyTo] at hmoved
  obtain ⟨l, -, rfl⟩ := List.mem_map.mp hmoved
  rfl

/-- **A copy** of a file is under the same names. -/
theorem lookup_copyTo (h : IsBelow dir t) (names : List (List α)) (n : List α) :
    (copyTo dir' t).lookup ⟨dir' :: names, n⟩ = t.lookup ⟨dir :: names, n⟩ := by
  have hinj : ∀ l ∈ t.keys, ∀ l' ∈ t.keys, l.movedTo dir' = l'.movedTo dir' → l = l' := by
    intro l hl l' hl' heq
    obtain ⟨names, hl⟩ := exists_of_head? (h l (AList.mem_keys.mpr hl))
    obtain ⟨names', hl'⟩ := exists_of_head? (h l' (AList.mem_keys.mpr hl'))
    rw [hl, hl'] at heq ⊢
    simpa [Place.movedTo] using heq
  cases hc : t.lookup ⟨dir :: names, n⟩ with
  | some c =>
      refine lookup_writeAll ?_ ?_
      · rw [map_fst_copyTo]
        exact List.Nodup.map_on hinj t.keys_nodup
      · exact List.mem_map.mpr ⟨⟨⟨dir :: names, n⟩, c⟩, AList.mem_lookup_iff.mp hc, rfl⟩
  | none =>
      refine (lookup_writeAll_of_notMem fun hmem => ?_).trans rfl
      rw [map_fst_copyTo] at hmem
      obtain ⟨l, hl, heq⟩ := List.mem_map.mp hmem
      obtain ⟨names', hl'⟩ := exists_of_head? (h l (AList.mem_keys.mpr hl))
      refine AList.lookup_eq_none.mp hc ?_
      rw [hl'] at heq hl
      simp only [Place.movedTo, Place.mk.injEq, List.tail_cons, List.cons.injEq, true_and] at heq
      rw [← heq.1, ← heq.2]
      exact AList.mem_keys.mpr hl

/-- What is in a copy was there. -/
theorem mem_copyTo (h : IsBelow dir t) {names : List (List α)} {n : List α} :
    (⟨dir' :: names, n⟩ : Place α) ∈ copyTo dir' t ↔ (⟨dir :: names, n⟩ : Place α) ∈ t := by
  rw [← AList.lookup_isSome, ← AList.lookup_isSome, lookup_copyTo h]

end Copies

/-! ### Searching a tree -/

/-- `find … -exec … {} +`: the members of each batch are tested, then the command runs on those
that passed. -/
def findExec {σ ν : Type*} (test : σ → ν → Bool) (run : σ → ν → σ) (s : σ)
    (batches : List (List ν)) : σ :=
  batches.foldl (fun s batch => (batch.filter (test s)).foldl run s) s

/-- What the command keeps where the test held, and goes on holding, `find` keeps. -/
theorem findExec_keeps_of_test {σ ν : Type*} {test : σ → ν → Bool} {run : σ → ν → σ} {p : σ → Prop}
    (hlasts : ∀ s v w, test s v = true → test (run s w) v = true)
    (hrun : ∀ s v, p s → test s v = true → p (run s v)) {batches : List (List ν)} :
    ∀ {s : σ}, p s → p (findExec test run s batches) := by
  have hbatch : ∀ (batch : List ν) (s : σ), p s → (∀ v ∈ batch, test s v = true) →
      p (batch.foldl run s) := by
    intro batch
    induction batch with
    | nil => exact fun s h _ => h
    | cons v batch ih =>
        intro s h htest
        exact ih _ (hrun s v h (htest v List.mem_cons_self)) fun w hw =>
          hlasts s w v (htest w (List.mem_cons_of_mem _ hw))
  induction batches with
  | nil => exact fun h => h
  | cons batch batches ih =>
      exact fun h => ih (hbatch _ _ h fun v hv => (List.mem_filter.mp hv).2)

/-- Filters that differ only where a step does nothing. -/
theorem foldl_filter_congr {σ ν : Type*} {run : σ → ν → σ} {p q : ν → Bool} :
    ∀ {batch : List ν} (s : σ), (∀ v ∈ batch, p v = q v ∨ ∀ s, run s v = s) →
      (batch.filter p).foldl run s = (batch.filter q).foldl run s := by
  intro batch
  induction batch with
  | nil => exact fun s _ => rfl
  | cons v batch ih =>
      intro s h
      have hrest := fun s => ih s fun w hw => h w (List.mem_cons_of_mem _ hw)
      rw [List.filter_cons, List.filter_cons]
      rcases h v List.mem_cons_self with hv | hv
      · rw [hv]
        split
        · exact hrest _
        · exact hrest s
      · split <;> split <;> simp only [List.foldl_cons, hv, hrest]

/-- **An invariant of `find`**: it says what has been visited, keeps the outcome of the test for
what has not and is not idle, and holds on. -/
theorem findExec_invariant {σ ν : Type*} {test : σ → ν → Bool} {run : σ → ν → σ}
    (invariant : List ν → σ → Prop) (test' : ν → Bool) {batches : List (List ν)}
    (hnodup : batches.flatten.Nodup)
    (htest : ∀ seen s v, invariant seen s → v ∈ batches.flatten → v ∉ seen →
      test s v = test' v ∨ ∀ s, run s v = s)
    (hpass : ∀ seen s v, invariant seen s → v ∈ batches.flatten → v ∉ seen → test' v = false →
      invariant (seen ++ [v]) s)
    (hrun : ∀ seen s v, invariant seen s → v ∈ batches.flatten → v ∉ seen → test' v = true →
      invariant (seen ++ [v]) (run s v))
    {s : σ} (hs : invariant [] s) :
    invariant batches.flatten (findExec test run s batches) := by
  have hbatch : ∀ (batch seen : List ν) (s : σ), (seen ++ batch).Nodup →
      (∀ v ∈ batch, v ∈ batches.flatten) → invariant seen s →
      invariant (seen ++ batch) ((batch.filter test').foldl run s) := by
    intro batch
    induction batch with
    | nil => exact fun seen s _ _ h => by simpa using h
    | cons v batch ih =>
        intro seen s hnodup hsub h
        have hfresh : v ∉ seen := fun hv =>
          (List.nodup_append.mp hnodup).2.2 v hv v List.mem_cons_self rfl
        rw [List.append_cons] at hnodup ⊢
        have hrest := ih (seen ++ [v])
        cases hv : test' v with
        | false =>
            rw [List.filter_cons_of_neg (by simp [hv])]
            exact hrest s hnodup (fun w hw => hsub w (List.mem_cons_of_mem _ hw))
              (hpass seen s v h (hsub v List.mem_cons_self) hfresh hv)
        | true =>
            rw [List.filter_cons_of_pos hv]
            exact hrest (run s v) hnodup (fun w hw => hsub w (List.mem_cons_of_mem _ hw))
              (hrun seen s v h (hsub v List.mem_cons_self) hfresh hv)
  have hall : ∀ (rest : List (List ν)) (seen : List ν) (s : σ), (seen ++ rest.flatten).Nodup →
      (∀ v ∈ rest.flatten, v ∈ batches.flatten) → invariant seen s →
      invariant (seen ++ rest.flatten) (findExec test run s rest) := by
    intro rest
    induction rest with
    | nil => exact fun seen s _ _ h => by simpa [findExec] using h
    | cons batch rest ih =>
        intro seen s hnodup hsub h
        rw [List.flatten_cons, ← List.append_assoc] at hnodup ⊢
        rw [List.flatten_cons] at hsub
        have hbatchNodup := (List.nodup_append.mp hnodup).1
        have htested : (batch.filter (test s)).foldl run s =
            (batch.filter test').foldl run s := by
          refine foldl_filter_congr s fun v hv => ?_
          refine htest seen s v h (hsub v (List.mem_append_left _ hv)) fun hseen => ?_
          exact (List.nodup_append.mp hbatchNodup).2.2 v hseen v hv rfl
        rw [findExec, List.foldl_cons, htested]
        exact ih _ _ hnodup (fun v hv => hsub v (List.mem_append_right _ hv))
          (hbatch batch seen s hbatchNodup (fun v hv => hsub v (List.mem_append_left _ hv)) h)
  simpa using hall batches [] s (by simpa using hnodup) (fun v hv => hv) hs

end Files
