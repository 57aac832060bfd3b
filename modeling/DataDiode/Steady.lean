import DataDiode.Source

/-!
# Steady Writers

Other programs may write to the source file, or replace it, before each call of the sender. They
are steady if every such action leaves the same contents under the path. Then every inode that
holds the contents keeps them, and an open file is read as if nobody wrote to it.

A stretch of calls is described by what holds after it if the actions on the way are steady
(`Undisturbed`), which composes along the calls of the sender.

## Main results

* `Source.turn_undisturbed`: before a call the writers act, and the contents stay.
* `bufRead_undisturbed`, `readChunk_undisturbed`: reads return the contents in order.
* `Source.metadataLen_undisturbed`, `Source.openFile_undisturbed`: the length and the open file are
  those of the contents under the path.
* `readChunk_ne_none`: only a fault ends the reading early.
-/

namespace DataDiode

/-! ### Steady writers -/

/-- The contents an action leaves under the path. -/
def WriterAction.contents : WriterAction → Bytes
  | .rewrite contents => contents
  | .replace contents => contents

/-- Every action leaves `c` under the path. -/
def Steady (c : Bytes) (used : List Plan) : Prop :=
  ∀ plan ∈ used, ∀ a ∈ plan.actions, a.contents = c

/-- Steady in one part and in the other. -/
theorem steady_append {c : Bytes} {used used' : List Plan} :
    Steady c (used ++ used') ↔ Steady c used ∧ Steady c used' := by
  simp only [Steady, List.mem_append]
  exact ⟨fun h => ⟨fun plan hp => h plan (Or.inl hp), fun plan hp => h plan (Or.inr hp)⟩,
    fun h plan hp => hp.elim (h.1 plan) (h.2 plan)⟩

namespace Source

/-- The contents under the path. -/
def present (s : Source) : Option Bytes := s.current.map s.contentsOf

/-- Only inodes that exist are under the path. -/
def Valid (s : Source) : Prop := ∀ j, s.current = some j → j < s.inodes.length

/-- What a writer does leaves the file a valid one. -/
theorem act_valid {s : Source} (h : s.Valid) (a : WriterAction) : (s.act a).Valid := by
  intro j hj
  cases a with
  | rewrite contents =>
      rw [act] at hj ⊢
      cases hcurrent : s.current with
      | none =>
          simp only [hcurrent, Option.some.injEq] at hj
          simp [← hj]
      | some i =>
          simp only [hcurrent, Option.some.injEq] at hj
          simpa [hcurrent, ← hj] using h i hcurrent
  | replace contents =>
      simp only [act, Option.some.injEq] at hj
      simp [act, ← hj]

/-- `c` is under the path, and in the inode `i`. -/
structure Keeps (c : Bytes) (i : ℕ) (s : Source) : Prop where
  valid : s.Valid
  present : s.present = some c
  lt : i < s.inodes.length
  contents : s.contentsOf i = c

/-- An action that leaves `c` under the path leaves it in every inode that holds it. -/
theorem Keeps.act {c : Bytes} {i : ℕ} {s : Source} (h : s.Keeps c i) {a : WriterAction}
    (ha : a.contents = c) : (s.act a).Keeps c i := by
  obtain ⟨hvalid, hpresent, hlt, hcontents⟩ := h
  have hvalid' := act_valid hvalid a
  rw [Source.present, Option.map_eq_some_iff] at hpresent
  obtain ⟨j, hj, hjc⟩ := hpresent
  have hjlt := hvalid j hj
  cases a with
  | rewrite contents =>
      obtain rfl : contents = c := ha
      have hact : s.act (.rewrite contents) = { s with inodes := s.inodes.set j contents } := by
        rw [Source.act, hj]
      rw [hact] at hvalid' ⊢
      refine ⟨hvalid', ?_, by simpa using hlt, ?_⟩
      · simp [Source.present, hj, contentsOf, hjlt]
      · rw [contentsOf] at hcontents ⊢
        rw [List.getD_eq_getElem?_getD, List.getElem?_set]
        rw [List.getD_eq_getElem?_getD] at hcontents
        split
        · simp
        · exact hcontents
  | replace contents =>
      obtain rfl : contents = c := ha
      refine ⟨hvalid', ?_, ?_, ?_⟩
      · simp [Source.present, Source.act, contentsOf]
      · simp only [Source.act, List.length_append]
        omega
      · rw [contentsOf, List.getD_eq_getElem?_getD] at hcontents ⊢
        rw [Source.act, List.getElem?_append_left hlt]
        exact hcontents

/-- After the calls between `s` and `s'`, `P` holds, if the actions on the way leave `c` under the
path. -/
def Undisturbed (c : Bytes) (s s' : Source) (P : Prop) : Prop :=
  ∃ used, s.schedule = used ++ s'.schedule ∧ (Steady c used → P)

namespace Undisturbed

variable {c : Bytes} {s s' s'' : Source} {P Q R : Prop}

/-- Nothing happens, and something holds. -/
theorem refl (h : P) : Undisturbed c s s P := ⟨[], rfl, fun _ => h⟩

/-- A weaker result. -/
theorem mono (h : Undisturbed c s s' P) (hPQ : P → Q) : Undisturbed c s s' Q := by
  obtain ⟨used, hused, hP⟩ := h
  exact ⟨used, hused, fun hsteady => hPQ (hP hsteady)⟩

/-- One step after the other, with what follows from both. -/
theorem trans (h : Undisturbed c s s' P) (h' : Undisturbed c s' s'' Q) (hR : P → Q → R) :
    Undisturbed c s s'' R := by
  obtain ⟨used, hused, hP⟩ := h
  obtain ⟨used', hused', hQ⟩ := h'
  refine ⟨used ++ used', by rw [hused, hused', List.append_assoc], fun hsteady => ?_⟩
  obtain ⟨hsteady, hsteady'⟩ := steady_append.mp hsteady
  exact hR (hP hsteady) (hQ hsteady')

end Undisturbed

/-- **Before a call** the writers act, and a steady source keeps its contents. -/
theorem turn_undisturbed (c : Bytes) (s : Source) :
    Undisturbed c s s.turn.2 (∀ i, s.Keeps c i → s.turn.2.Keeps c i) := by
  cases hschedule : s.schedule with
  | nil =>
      have hturn : s.turn = (.ok, s) := by rw [turn, hschedule]
      rw [hturn]
      exact .refl fun _ h => h
  | cons plan rest =>
      have hturn : s.turn.2 = plan.actions.foldl act { s with schedule := rest } := by
        rw [turn, hschedule]
      have hfoldl : ∀ (actions : List WriterAction) (s : Source),
          (∀ a ∈ actions, a.contents = c) → ∀ i, s.Keeps c i → (actions.foldl act s).Keeps c i := by
        intro actions
        induction actions with
        | nil => exact fun s _ i h => h
        | cons a actions ih =>
            intro s hall i h
            exact ih (s.act a) (fun b hb => hall b (List.mem_cons_of_mem _ hb)) i
              (h.act (hall a List.mem_cons_self))
      refine ⟨[plan], by rw [hschedule, hturn, schedule_foldl_act]; rfl, fun hsteady i h => ?_⟩
      rw [hturn]
      exact hfoldl _ _ (hsteady plan List.mem_cons_self) i ⟨h.valid, h.present, h.lt, h.contents⟩

end Source

/-! ### Faults -/

/-- No call fails. Reads may still be short or interrupted. -/
def Source.Faultless (s : Source) : Prop := ∀ plan ∈ s.schedule, plan.outcome ≠ .failed

/-- Without faults there will be none later either. -/
theorem Source.Undisturbed.faultless {c : Bytes} {s s' : Source} {P : Prop}
    (h : Undisturbed c s s' P) (hs : s.Faultless) : s'.Faultless := by
  obtain ⟨used, hused, -⟩ := h
  intro plan hplan
  exact hs plan (hused ▸ List.mem_append_right _ hplan)

/-- Without faults no call fails. -/
theorem Source.Faultless.turn_ne_failed {s : Source} (h : s.Faultless) : s.turn.1 ≠ .failed := by
  rw [Source.turn]
  split
  · simp
  · rename_i plan rest heq
    exact h plan (heq ▸ List.mem_cons_self)

/-! ### Lengths and opening -/

namespace Source

/-- A call leaves the file a valid one. -/
theorem turn_valid {s : Source} (h : s.Valid) : s.turn.2.Valid := by
  have hfoldl : ∀ (actions : List WriterAction) (s : Source), s.Valid →
      (actions.foldl act s).Valid := by
    intro actions
    induction actions with
    | nil => exact fun s h => h
    | cons a actions ih => exact fun s h => ih (s.act a) (act_valid h a)
  rw [turn]
  split
  · exact h
  · exact hfoldl _ _ h

/-- Looking at its metadata leaves the file a valid one. -/
theorem metadataLen_valid {s : Source} (h : s.Valid) : s.metadataLen.2.Valid := by
  have hturn := turn_valid h
  rw [metadataLen]
  split
  · rename_i s' heq
    rwa [heq] at hturn
  · rename_i outcome s' _ heq
    rwa [heq] at hturn

/-- A length that is reported is that of the contents under the path. -/
theorem metadataLen_eq_some {s s' : Source} {size : ℕ} (h : s.metadataLen = (some size, s')) :
    ∃ c, s'.present = some c ∧ c.length = size := by
  rw [metadataLen] at h
  split at h
  · exact absurd h (by simp)
  · obtain ⟨hsize, rfl⟩ := Prod.mk.inj h
    obtain ⟨i, hi, hlen⟩ := Option.map_eq_some_iff.mp hsize
    exact ⟨_, by rw [present, hi]; rfl, hlen⟩

/-- Contents under the path are in the inode there. -/
theorem Keeps.of_current {c : Bytes} {s : Source} {i : ℕ} (hvalid : s.Valid)
    (hpresent : s.present = some c) (hi : s.current = some i) : s.Keeps c i := by
  refine ⟨hvalid, hpresent, hvalid i hi, ?_⟩
  rw [Source.present, hi] at hpresent
  exact Option.some.inj hpresent

/-- **A length** is that of the contents under the path. -/
theorem metadataLen_undisturbed (c : Bytes) (s : Source) :
    Undisturbed c s s.metadataLen.2 (∀ i, s.Keeps c i → s.metadataLen.2.Keeps c i ∧
      (∀ size, s.metadataLen.1 = some size → size = c.length) ∧
      (s.metadataLen.1 = none → ¬s.Faultless)) := by
  have hturn := turn_undisturbed c s
  rw [metadataLen]
  split
  · rename_i s' heq
    rw [heq] at hturn
    refine hturn.mono fun hkeeps i h => ⟨hkeeps i h, fun size h => absurd h (by simp), ?_⟩
    exact fun _ hfaultless => hfaultless.turn_ne_failed (by rw [heq])
  · rename_i outcome s' _ heq
    rw [heq] at hturn
    refine hturn.mono fun hkeeps i h => ?_
    have hkept : s'.Keeps c i := hkeeps i h
    obtain ⟨j, hj, hcontents⟩ := Option.map_eq_some_iff.mp hkept.present
    refine ⟨hkept, fun size hsize => ?_, fun hnone => ?_⟩
    · rw [hj] at hsize
      obtain rfl := Option.some.inj hsize
      exact congrArg List.length hcontents
    · rw [hj] at hnone
      exact absurd hnone (by simp)

/-- **A steady file is opened** with the contents that are under the path. -/
theorem openFile_undisturbed (c : Bytes) (s : Source) :
    Undisturbed c s s.openFile.2 (∀ i, s.Keeps c i → s.openFile.2.Keeps c i ∧
      (∀ inode, s.openFile.1 = some inode → s.openFile.2.Keeps c inode) ∧
      (s.openFile.1 = none → ¬s.Faultless)) := by
  have hturn := turn_undisturbed c s
  rw [openFile]
  split
  · rename_i s' heq
    rw [heq] at hturn
    refine hturn.mono fun hkeeps i h => ⟨hkeeps i h, fun inode h => absurd h (by simp), ?_⟩
    exact fun _ hfaultless => hfaultless.turn_ne_failed (by rw [heq])
  · rename_i outcome s' _ heq
    rw [heq] at hturn
    refine hturn.mono fun hkeeps i h => ?_
    have hkept : s'.Keeps c i := hkeeps i h
    obtain ⟨j, hj, -⟩ := Option.map_eq_some_iff.mp hkept.present
    refine ⟨hkept, fun inode hinode => .of_current hkept.valid hkept.present hinode, ?_⟩
    intro hnone
    rw [hj] at hnone
    exact absurd hnone (by simp)

/-- The removal is one more call. -/
theorem removeFile_undisturbed (c : Bytes) (s : Source) :
    Undisturbed c s s.removeFile.2 True := by
  obtain ⟨used, hused, -⟩ := turn_undisturbed c s
  refine ⟨used, hused.trans (congrArg (used ++ ·) ?_), fun _ => trivial⟩
  rw [removeFile]
  split <;>
    · rename_i heq
      rw [heq]

end Source

/-! ### Reading -/

/-- What a reader has yet to return of the contents `c`. -/
def Reader.rest (r : Reader) (c : Bytes) : Bytes := r.buffered ++ c.drop r.offset

/-- A read of the contents `c`: the bytes come off the front of what is left, and there are none
only at the end. -/
structure ReadsOn (c : Bytes) (r : Reader) (result : ReadResult) (r' : Reader) : Prop where
  inode : r'.inode = r.inode
  data : ∀ bytes, result = .data bytes →
    r.rest c = bytes ++ r'.rest c ∧ (bytes = [] → r.rest c = [])
  interrupted : result = .interrupted → r' = r

/-- What is read comes before what is left to read. -/
theorem Reader.take_rest (r : Reader) (c : Bytes) (want : ℕ) :
    r.rest c = (r.take want).1 ++ (r.take want).2.rest c := by
  simp only [rest, take, ← List.append_assoc, List.take_append_drop]

/-- A buffer of some size, filled at the reader's offset, and read from. -/
theorem readsOn_fill {c : Bytes} {r : Reader} (hbuffered : r.buffered = []) {size want : ℕ}
    (hsize : 0 < size) (hwant : 0 < want) :
    let r' : Reader := { r with
      buffered := (c.drop r.offset).take size
      offset := r.offset + ((c.drop r.offset).take size).length }
    ReadsOn c r (.data (r'.take want).1) (r'.take want).2 := by
  intro r'
  have hrest : r.rest c = r'.rest c := by
    have hsplit : (c.drop r.offset).take size ++
        (c.drop r.offset).drop ((c.drop r.offset).take size).length = c.drop r.offset :=
      List.prefix_iff_eq_append.mp (List.take_prefix size _)
    rw [List.drop_drop] at hsplit
    rw [Reader.rest, hbuffered, List.nil_append]
    exact hsplit.symm
  refine ⟨rfl, fun bytes hbytes => ?_, fun h => absurd h (by simp)⟩
  obtain rfl := ReadResult.data.inj hbytes
  rw [hrest]
  refine ⟨r'.take_rest c want, fun hnil => ?_⟩
  have hempty : r'.buffered = [] := by
    rcases List.take_eq_nil_iff.mp hnil with h | h
    · omega
    · exact h
  have hend : c.drop r.offset = [] := by
    rcases List.take_eq_nil_iff.mp hempty with h | h
    · omega
    · exact h
  rw [← hrest, Reader.rest, hbuffered, hend, List.nil_append]

/-- **A read** returns what comes next of the contents that the writers leave in place. -/
theorem bufRead_undisturbed (c : Bytes) (s : Source) (r : Reader) {want : ℕ} (hwant : 0 < want) :
    Source.Undisturbed c s (bufRead s r want).2.2 (s.Keeps c r.inode →
      (bufRead s r want).2.2.Keeps c r.inode ∧
        ReadsOn c r (bufRead s r want).1 (bufRead s r want).2.1) := by
  have hturn := Source.turn_undisturbed c s
  rw [bufRead]
  split
  · rename_i hbuffered
    refine .refl fun h => ⟨h, rfl, fun bytes hbytes => ?_, fun h => absurd h (by simp)⟩
    obtain rfl := ReadResult.data.inj hbytes
    refine ⟨r.take_rest c want, fun hnil => ?_⟩
    rcases List.take_eq_nil_iff.mp hnil with h | h
    · omega
    · exact absurd h hbuffered
  rename_i hbuffered
  rw [ne_eq, not_not] at hbuffered
  split
  · rename_i s' heq
    rw [heq] at hturn
    exact hturn.mono fun hkeeps h => ⟨hkeeps _ h, rfl, fun _ h => absurd h (by simp),
      fun h => absurd h (by simp)⟩
  · rename_i s' heq
    rw [heq] at hturn
    exact hturn.mono fun hkeeps h => ⟨hkeeps _ h, rfl, fun _ h => absurd h (by simp), fun _ => rfl⟩
  · rename_i outcome s' _ _ heq
    rw [heq] at hturn
    refine hturn.mono fun hkeeps h => ⟨hkeeps _ h, ?_⟩
    have hcontents := (hkeeps _ h).contents
    dsimp only at hcontents ⊢
    rw [hcontents]
    refine readsOn_fill hbuffered ?_ hwant
    split
    · exact lt_min (Nat.succ_pos _) (by decide)
    · decide

/-- Without faults no read fails. -/
theorem bufRead_ne_failed {s : Source} (h : s.Faultless) (r : Reader) (want : ℕ) :
    (bufRead s r want).1 ≠ .failed := by
  have hturn := h.turn_ne_failed
  rw [bufRead]
  split
  · simp
  split
  · rename_i s' heq
    rw [heq] at hturn
    exact absurd rfl hturn
  · simp
  · simp

/-- A read returns no more than it is asked for. -/
theorem bufRead_length_le {s s' : Source} {r r' : Reader} {want : ℕ} {bytes : Bytes}
    (h : bufRead s r want = (.data bytes, r', s')) : bytes.length ≤ want := by
  rw [bufRead] at h
  split at h
  · obtain rfl := ReadResult.data.inj (Prod.mk.inj h).1
    exact List.length_take_le _ _
  split at h
  · exact absurd (Prod.mk.inj h).1 (by simp)
  · exact absurd (Prod.mk.inj h).1 (by simp)
  · obtain rfl := ReadResult.data.inj (Prod.mk.inj h).1
    exact List.length_take_le _ _

/-- **The read loop** returns the next `want` bytes of the contents that the writers leave in
place, or all that are left. -/
theorem readChunk_undisturbed (c : Bytes) (s : Source) (r : Reader) (want : ℕ) (acc : Bytes) :
    Source.Undisturbed c s (readChunk s r want acc).2.2 (s.Keeps c r.inode →
      (readChunk s r want acc).2.2.Keeps c r.inode ∧
        (readChunk s r want acc).2.1.inode = r.inode ∧
        ∀ bytes, (readChunk s r want acc).1 = some bytes →
          bytes = acc ++ (r.rest c).take want ∧
          (readChunk s r want acc).2.1.rest c = (r.rest c).drop want) := by
  fun_induction readChunk s r want acc with
  | case1 s r acc =>
      exact .refl fun h => ⟨h, rfl, fun bytes hbytes => ⟨by simpa using hbytes.symm, rfl⟩⟩
  | case2 s r want acc hw r' s' hread =>
      have hstep := bufRead_undisturbed c s r (Nat.pos_of_ne_zero hw)
      rw [hread] at hstep
      exact hstep.mono fun himp h => ⟨(himp h).1, (himp h).2.inode, fun _ h => absurd h (by simp)⟩
  | case3 s r want acc hw r' s' hread ih =>
      have hstep := bufRead_undisturbed c s r (Nat.pos_of_ne_zero hw)
      rw [hread] at hstep
      refine hstep.trans ih fun himp himp' h => ?_
      obtain ⟨hkeeps, hreads⟩ := himp h
      obtain rfl : r' = r := hreads.interrupted rfl
      exact himp' hkeeps
  | case4 s r want acc hw r' s' hread =>
      have hstep := bufRead_undisturbed c s r (Nat.pos_of_ne_zero hw)
      rw [hread] at hstep
      refine hstep.mono fun himp h => ?_
      obtain ⟨hkeeps, hreads⟩ := himp h
      obtain ⟨hrest, hend⟩ := hreads.data [] rfl
      refine ⟨hkeeps, hreads.inode, fun bytes hbytes => ?_⟩
      rw [List.nil_append] at hrest
      rw [← hrest, hend rfl]
      exact ⟨by simpa using hbytes.symm, List.drop_nil.symm⟩
  | case5 s r want acc hw bytes r' s' hread hb ih =>
      have hlen := bufRead_length_le hread
      have hstep := bufRead_undisturbed c s r (Nat.pos_of_ne_zero hw)
      rw [hread] at hstep
      refine hstep.trans ih fun himp himp' h => ?_
      obtain ⟨hkeeps, hreads⟩ := himp h
      have hinode : r'.inode = r.inode := hreads.inode
      obtain ⟨hkeeps', hinode', hdata⟩ := himp' (hinode ▸ hkeeps)
      obtain ⟨hrest, -⟩ := hreads.data bytes rfl
      refine ⟨hinode ▸ hkeeps', hinode'.trans hinode, fun out hout => ?_⟩
      obtain ⟨rfl, hdrop⟩ := hdata out hout
      constructor
      · rw [hrest, List.take_append, List.take_of_length_le hlen, List.append_assoc]
      · rw [hdrop, hrest, List.drop_append, List.drop_of_length_le hlen, List.nil_append]

/-- Without faults the read loop ends well. -/
theorem readChunk_ne_none {s : Source} (h : s.Faultless) (r : Reader) (want : ℕ) (acc : Bytes) :
    (readChunk s r want acc).1 ≠ none := by
  fun_induction readChunk s r want acc with
  | case1 s r acc => simp
  | case2 s r want acc hw r' s' hread => exact absurd (by rw [hread]) (bufRead_ne_failed h r want)
  | case3 s r want acc hw r' s' hread ih =>
      have hstep := bufRead_undisturbed [] s r (Nat.pos_of_ne_zero hw)
      rw [hread] at hstep
      exact ih (hstep.faultless h)
  | case4 s r want acc hw r' s' hread => simp
  | case5 s r want acc hw bytes r' s' hread hb ih =>
      have hstep := bufRead_undisturbed [] s r (Nat.pos_of_ne_zero hw)
      rw [hread] at hstep
      exact ih (hstep.faultless h)

end DataDiode
