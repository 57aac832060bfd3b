import DataDiode.Truncation

/-!
# A Stream of Transfers

Files with different paths are sent one after the other, and any packets of the whole stream
may be lost. The receiver does not look into an END packet: it closes whatever transfer is in
progress. That is the transfer the packet names, as long as no END arrives without its START
while an earlier transfer is left open (`EndsAnnounced`).

## Main results

* `closesOwnAll_left`: some packets of one file.
* `Shipment.step`: one file of the stream.
* `run_closesOwn`: every END packet closes the transfer it names.
* `run_closesOther`: an END packet that reports success for another file.
-/

namespace DataDiode

/-- A file sent, and what arrives of its packets. -/
structure Shipment where
  transfer : Transfer
  arrived : List Bytes

namespace Shipment

/-- Some of the packets of a file whose size fits the header, in their order. -/
structure Honest (libs : Libs) (s : Shipment) : Prop where
  length_lt : s.transfer.contents.length < countBound
  sublist : s.arrived.Sublist (s.transfer.emitted libs)

variable (libs : Libs)

/-- An announcement of the file arrives. -/
def Started (s : Shipment) : Prop := s.transfer.startPacket libs ∈ s.arrived

/-- An END of the file arrives. -/
def Ended (s : Shipment) : Prop := s.transfer.endPacket ∈ s.arrived

/-- After the stream, the file is the last one announced, and no END has arrived since. -/
def LeftOpen (stream : List Shipment) (s : Shipment) : Prop :=
  ∃ pre mid, stream = pre ++ s :: mid ∧ s.Started libs ∧ ¬s.Ended ∧
    ∀ r ∈ mid, ¬r.Started libs ∧ ¬r.Ended

/-- An END arrives only if the file has been announced, or if no earlier file is left open. -/
def EndsAnnounced (stream : List Shipment) : Prop :=
  ∀ pre s post, stream = pre ++ s :: post → s.Ended → s.Started libs ∨ ∀ r, ¬LeftOpen libs pre r

variable {libs}

/-- What neither announces nor ends a file leaves the open transfer open. -/
theorem LeftOpen.append {stream : List Shipment} {r s : Shipment} (h : LeftOpen libs stream r)
    (hs : ¬s.Started libs ∧ ¬s.Ended) : LeftOpen libs (stream ++ [s]) r := by
  obtain ⟨pre, mid, rfl, hstarted, hended, hmid⟩ := h
  refine ⟨pre, mid ++ [s], by rw [List.append_assoc, List.cons_append], hstarted, hended, ?_⟩
  intro q hq
  rcases List.mem_append.mp hq with hq | hq
  · exact hmid q hq
  · rwa [List.mem_singleton.mp hq]

/-- What is open has been sent. -/
theorem LeftOpen.mem {stream : List Shipment} {r : Shipment} (h : LeftOpen libs stream r) :
    r ∈ stream := by
  obtain ⟨pre, mid, rfl, -⟩ := h
  exact List.mem_append_right _ List.mem_cons_self

/-- The beginning of a stream. -/
theorem EndsAnnounced.front {stream rest : List Shipment}
    (h : EndsAnnounced libs (stream ++ rest)) :
    EndsAnnounced libs stream := by
  rintro pre s post rfl
  exact h pre s (post ++ rest) (by rw [List.append_assoc, List.cons_append])

/-- Without the loss of all announcements of a file, all is well. -/
theorem EndsAnnounced.of_started {stream : List Shipment} (h : ∀ s ∈ stream, s.Started libs) :
    EndsAnnounced libs stream := by
  rintro pre s post rfl -
  exact Or.inl (h s (List.mem_append_right _ List.mem_cons_self))

end Shipment

/-! ### Closing a transfer -/

/-- If the datagram is an END packet, and there is a transfer in progress for it to close, then
it names the path of this transfer, and its count is the number of chunks of the announced
size. -/
def ClosesOwn (wk : Worker) (raw : Bytes) : Prop :=
  ∀ packet, decodePacket raw = some packet → packet.pkgType = pkgTypeEnd →
    ∀ p, wk.state.filePath = some p →
      packet.data = Utf8.encode p ∧ packet.count = totalChunks wk.state.fileSize

/-- Every datagram of the sequence does so. -/
def ClosesOwnAll (env : Env) : Worker → List Bytes → Prop
  | _, [] => True
  | wk, raw :: raws => ClosesOwn wk raw ∧ ClosesOwnAll env (handlePacket env wk raw) raws

/-- One part of a run, and then the other. -/
theorem closesOwnAll_append {env : Env} {raws raws' : List Bytes} : ∀ {wk : Worker},
    ClosesOwnAll env wk raws → ClosesOwnAll env (run env wk raws) raws' →
      ClosesOwnAll env wk (raws ++ raws') := by
  induction raws with
  | nil => exact fun _ h => h
  | cons raw raws ih => exact fun h h' => ⟨h.1, ih h.2 h'⟩

/-- Every datagram of a run. -/
theorem ClosesOwnAll.closesOwn {env : Env} {raw : Bytes} {pre post : List Bytes} :
    ∀ {wk : Worker}, ClosesOwnAll env wk (pre ++ raw :: post) →
      ClosesOwn (run env wk pre) raw := by
  induction pre with
  | nil => exact fun h => h.1
  | cons raw' pre ih => exact fun h => ih h.2

/-- The transfer in progress, if there is one, is a transfer of the file. -/
def OfFile (t : Transfer) (wk : Worker) : Prop :=
  ∀ p, wk.state.filePath = some p → p = t.path ∧ wk.state.fileSize = t.contents.length

section Packets

variable {env : Env} {t : Transfer} {wk : Worker} (ht : t.contents.length < countBound)

include ht

/-- Only END packets close anything. -/
theorem closesOwn_of_ne {raw : Bytes}
    (hraw : raw = t.startPacket env.toLibs ∨ raw ∈ t.chunkPackets env.toLibs) :
    ClosesOwn wk raw := by
  intro packet hdecode hend
  rcases hraw with rfl | hraw
  · rw [Transfer.decodePacket_startPacket env.toLibs ht, Option.some.injEq] at hdecode
    have htype : (t.start env.toLibs).pkgType = pkgTypeEnd := hdecode ▸ hend
    exact absurd htype (by decide : ¬pkgTypeStart = pkgTypeEnd)
  · obtain ⟨c, hc, rfl⟩ := (Transfer.mem_chunkPackets_iff env.toLibs).mp hraw
    rw [Transfer.decodePacket_chunkPacket env.toLibs hc ht, Option.some.injEq] at hdecode
    have htype : (t.chunk env.toLibs c).pkgType = pkgTypeEnd := hdecode ▸ hend
    exact absurd htype (Transfer.pkgType_chunk_ne env.toLibs c (by decide) (by decide))

/-- The END of a file closes a transfer of the file. -/
theorem closesOwn_end (h : OfFile t wk) : ClosesOwn wk t.endPacket := by
  intro packet hdecode _ p hp
  rw [Transfer.decodePacket_endPacket ht, Option.some.injEq] at hdecode
  obtain ⟨rfl, hsize⟩ := h p hp
  rw [← hdecode, hsize]
  exact ⟨rfl, rfl⟩

/-- After an END there is no transfer in progress. -/
theorem filePath_end (env : Env) (wk : Worker) :
    (handlePacket env wk t.endPacket).state.filePath = none := by
  cases hp : wk.state.filePath with
  | none => rw [handlePacket_idle ht hp (Or.inl rfl), hp]
  | some p =>
      rw [Transfer.handlePacket_end ht (by rw [hp]; rfl), finishFile_state env hp]
      rfl

/-- A chunk keeps the transfer in progress. -/
theorem filePath_chunk (wk : Worker) {raw : Bytes} (hraw : raw ∈ t.chunkPackets env.toLibs) :
    (handlePacket env wk raw).state.filePath = wk.state.filePath ∧
      (handlePacket env wk raw).state.fileSize = wk.state.fileSize := by
  obtain ⟨c, hc, rfl⟩ := (Transfer.mem_chunkPackets_iff env.toLibs).mp hraw
  cases hp : wk.state.filePath with
  | none => exact ⟨by rw [handlePacket_idle ht hp (Or.inr hraw), hp],
      by rw [handlePacket_idle ht hp (Or.inr hraw)]⟩
  | some p =>
      have hsame : SameTransfer wk (handlePacket env wk (t.chunkPacket env.toLibs c)) := by
        rw [Transfer.handlePacket_chunk ht hc (by rw [hp]; rfl)]
        refine acceptChunk_sameTransfer env wk _ _ _ fun wk => ?_
        cases c with
        | data i => exact bufferData_sameTransfer wk _
        | parity b j => exact bufferParity_sameTransfer wk _ _
      exact ⟨hsame.filePath.trans hp, hsame.fileSize⟩

/-- An announcement leads to a transfer of the file, or to none. -/
theorem ofFile_start (hinv : wk.Inv env)
    (hown : wk.state.filePath = some t.path → wk.state.fileSize = t.contents.length) :
    OfFile t (handlePacket env wk (t.startPacket env.toLibs)) := by
  rw [Transfer.handlePacket_start ht]
  intro p hp
  rcases newFile_state hinv t.path t.contents.length (t.pathHash env.toLibs)
      batchParityChunks with ⟨hsame, heq⟩ | hnew | ⟨-, hopen⟩
  · rw [heq] at hp ⊢
    rw [hsame] at hp
    exact ⟨(Option.some.inj hp).symm, hown hsame⟩
  · rw [hnew] at hp
    exact absurd hp.symm (Option.some_ne_none p)
  · rw [hopen] at hp ⊢
    exact ⟨(Option.some.inj hp).symm, rfl⟩

/-- Announcements of the file. -/
theorem closesOwnAll_starts (hinv : wk.Inv env)
    (hown : wk.state.filePath = some t.path → wk.state.fileSize = t.contents.length) (k : ℕ) :
    ClosesOwnAll env wk (List.replicate k (t.startPacket env.toLibs)) ∧
      (k ≠ 0 → OfFile t (run env wk (List.replicate k (t.startPacket env.toLibs)))) := by
  induction k generalizing wk with
  | zero => exact ⟨trivial, fun h => absurd rfl h⟩
  | succ k ih =>
      have hfile := ofFile_start ht hinv hown
      obtain ⟨hall, hrun⟩ := ih (hinv.handlePacket _).1 fun hp => (hfile _ hp).2
      rw [List.replicate_succ]
      refine ⟨⟨closesOwn_of_ne ht (Or.inl rfl), hall⟩, fun _ => ?_⟩
      rw [run_cons]
      cases k with
      | zero => exact hfile
      | succ k => exact hrun (Nat.succ_ne_zero k)

/-- Chunks of the file. -/
theorem closesOwnAll_chunks (wk : Worker) {raws : List Bytes}
    (hraws : ∀ raw ∈ raws, raw ∈ t.chunkPackets env.toLibs) :
    ClosesOwnAll env wk raws ∧ (run env wk raws).state.filePath = wk.state.filePath ∧
      (run env wk raws).state.fileSize = wk.state.fileSize := by
  induction raws generalizing wk with
  | nil => exact ⟨trivial, rfl, rfl⟩
  | cons raw raws ih =>
      have hraw := hraws raw List.mem_cons_self
      have hrest : ∀ raw' ∈ raws, raw' ∈ t.chunkPackets env.toLibs := fun raw' hraw' =>
        hraws raw' (List.mem_cons_of_mem _ hraw')
      obtain ⟨hpath, hsize⟩ := filePath_chunk ht wk hraw
      obtain ⟨hall, hpath', hsize'⟩ := ih (handlePacket env wk raw) hrest
      exact ⟨⟨closesOwn_of_ne ht (Or.inr hraw), hall⟩, hpath'.trans hpath, hsize'.trans hsize⟩

/-- ENDs of the file. -/
theorem closesOwnAll_ends (env : Env) (m : ℕ) (wk : Worker) (h : m ≠ 0 → OfFile t wk) :
    ClosesOwnAll env wk (List.replicate m t.endPacket) ∧
      (m ≠ 0 → (run env wk (List.replicate m t.endPacket)).state.filePath = none) := by
  induction m generalizing wk with
  | zero => exact ⟨trivial, fun h => absurd rfl h⟩
  | succ m ih =>
      have hnone := filePath_end ht env wk
      obtain ⟨hall, hrun⟩ := ih (handlePacket env wk t.endPacket) fun _ p hp =>
        absurd (hnone.symm.trans hp) (Option.some_ne_none p).symm
      rw [List.replicate_succ]
      refine ⟨⟨closesOwn_end ht (h (Nat.succ_ne_zero m)), hall⟩, fun _ => ?_⟩
      rw [run_cons]
      cases m with
      | zero => exact hnone
      | succ m => exact hrun (Nat.succ_ne_zero m)

/-- **Some packets of a file**: if an END among them meets nothing but a transfer of the file,
every END closes its own; and what is left behind. -/
theorem closesOwnAll_left (hinv : wk.Inv env)
    (hown : wk.state.filePath = some t.path → wk.state.fileSize = t.contents.length)
    {ids : List ChunkId} (hids : ∀ c ∈ ids, t.HasChunk c) {k m : ℕ}
    (hend : m ≠ 0 → k ≠ 0 ∨ wk.state.filePath = none) {wk' : Worker}
    (hwk' : wk' = run env wk (t.left env.toLibs k ids m)) :
    ClosesOwnAll env wk (t.left env.toLibs k ids m) ∧
      (m ≠ 0 → wk'.state.filePath = none) ∧ (m = 0 → k ≠ 0 → OfFile t wk') ∧
      (m = 0 → k = 0 → wk'.state.filePath = wk.state.filePath ∧
        wk'.state.fileSize = wk.state.fileSize) := by
  obtain ⟨hall₁, hfile₁⟩ := closesOwnAll_starts ht hinv hown k
  set wk₁ := run env wk (List.replicate k (t.startPacket env.toLibs)) with hwk₁
  have hchunks : ∀ raw ∈ ids.map (t.chunkPacket env.toLibs),
      raw ∈ t.chunkPackets env.toLibs := by
    intro raw hraw
    obtain ⟨c, hc, rfl⟩ := List.mem_map.mp hraw
    exact (Transfer.mem_chunkPackets_iff env.toLibs).mpr ⟨c, hids c hc, rfl⟩
  obtain ⟨hall₂, hpath₂, hsize₂⟩ := closesOwnAll_chunks ht wk₁ hchunks
  set wk₂ := run env wk₁ (ids.map (t.chunkPacket env.toLibs)) with hwk₂
  have hnothing : k = 0 → wk₁ = wk := by
    intro hk
    rw [hwk₁, hk]
    rfl
  have hfile₂ : k ≠ 0 → OfFile t wk₂ := by
    intro hk p hp
    rw [hpath₂] at hp
    rw [hsize₂]
    exact hfile₁ hk p hp
  -- what an END of the file meets
  have hmeets : m ≠ 0 → OfFile t wk₂ := by
    intro hm
    by_cases hk : k = 0
    · intro p hp
      rw [hpath₂, hnothing hk, (hend hm).resolve_left (not_not_intro hk)] at hp
      exact absurd hp.symm (Option.some_ne_none p)
    · exact hfile₂ hk
  obtain ⟨hall₃, hnone⟩ := closesOwnAll_ends ht env m wk₂ hmeets
  have hrun : wk' = run env wk₂ (List.replicate m t.endPacket) := by
    rw [hwk', Transfer.left, run_append, run_append]
  refine ⟨?_, ?_, ?_, ?_⟩
  · rw [Transfer.left]
    exact closesOwnAll_append hall₁ (closesOwnAll_append hall₂ hall₃)
  · rw [hrun]
    exact hnone
  · rintro rfl
    rw [hrun]
    exact hfile₂
  · rintro rfl hk
    rw [hrun]
    exact ⟨hpath₂.trans (by rw [hnothing hk]), hsize₂.trans (by rw [hnothing hk])⟩

end Packets

/-! ### The stream -/

/-- Between two files of the stream: the transfer in progress, if there is one, is that of the
file left open. -/
def Boundary (libs : Libs) (stream : List Shipment) (wk : Worker) : Prop :=
  ∀ p, wk.state.filePath = some p → ∃ s, Shipment.LeftOpen libs stream s ∧
    s.transfer.path = p ∧ wk.state.fileSize = s.transfer.contents.length

/-- **One file of the stream.** -/
theorem Shipment.step {env : Env} {wk : Worker} (hinv : wk.Inv env) {stream : List Shipment}
    (hbound : Boundary env.toLibs stream wk) {s : Shipment} (hs : s.Honest env.toLibs)
    (hfresh : ∀ r ∈ stream, r.transfer.path ≠ s.transfer.path)
    (hends : s.Ended → s.Started env.toLibs ∨ ∀ r, ¬LeftOpen env.toLibs stream r) :
    ClosesOwnAll env wk s.arrived ∧
      Boundary env.toLibs (stream ++ [s]) (run env wk s.arrived) := by
  have ht := hs.length_lt
  obtain ⟨k, ids, m, harrived, hsub⟩ := Transfer.exists_of_sublist env.toLibs hs.sublist
  have hids : ∀ c ∈ ids, s.transfer.HasChunk c := fun c hc =>
    Transfer.mem_allIds.mp (hsub.subset hc)
  have hstarted : s.Started env.toLibs ↔ k ≠ 0 := by
    rw [Started, harrived, Transfer.startPacket_mem_left_iff env.toLibs ht hids]
  have hended : s.Ended ↔ m ≠ 0 := by
    rw [Ended, harrived, Transfer.endPacket_mem_left_iff env.toLibs ht hids]
  have hown : wk.state.filePath = some s.transfer.path →
      wk.state.fileSize = s.transfer.contents.length := by
    intro hp
    obtain ⟨r, hr, hpath, -⟩ := hbound _ hp
    exact absurd hpath (hfresh r hr.mem)
  have hend : m ≠ 0 → k ≠ 0 ∨ wk.state.filePath = none := by
    intro hm
    refine (hends (hended.mpr hm)).imp hstarted.mp fun hclosed => ?_
    cases hp : wk.state.filePath with
    | none => rfl
    | some p =>
        obtain ⟨r, hr, -⟩ := hbound p hp
        exact absurd hr (hclosed r)
  rw [harrived]
  obtain ⟨hall, hnone, hfile, hsame⟩ := closesOwnAll_left ht hinv hown hids hend rfl
  refine ⟨hall, fun p hp => ?_⟩
  by_cases hm : m = 0
  · by_cases hk : k = 0
    · -- nothing but chunks has arrived
      obtain ⟨hpath, hsize⟩ := hsame hm hk
      rw [hpath] at hp
      obtain ⟨r, hr, hrpath, hrsize⟩ := hbound p hp
      exact ⟨r, hr.append ⟨fun h => hstarted.mp h hk, fun h => hended.mp h hm⟩, hrpath,
        hsize.trans hrsize⟩
    · obtain ⟨rfl, hsize⟩ := hfile hm hk p hp
      exact ⟨s, ⟨stream, [], rfl, hstarted.mpr hk, fun h => hended.mp h hm,
        fun q hq => absurd hq List.not_mem_nil⟩, rfl, hsize⟩
  · rw [hnone hm] at hp
    exact absurd hp.symm (Option.some_ne_none p)

/-- **Every END packet closes the transfer it names**, in a stream of honest transfers of
different paths in which no END arrives without its START while an earlier transfer is left
open. -/
theorem run_closesOwn {env : Env} {wk : Worker} (hidle : wk.state = .new)
    {stream : List Shipment} (hstream : ∀ s ∈ stream, s.Honest env.toLibs)
    (hpaths : (stream.map fun s => s.transfer.path).Nodup)
    (hends : Shipment.EndsAnnounced env.toLibs stream) {pre : List Bytes} {raw : Bytes}
    {post : List Bytes} (hsplit : stream.flatMap Shipment.arrived = pre ++ raw :: post) :
    ClosesOwn (run env wk pre) raw := by
  have hall : ClosesOwnAll env wk (stream.flatMap Shipment.arrived) ∧
      Boundary env.toLibs stream (run env wk (stream.flatMap Shipment.arrived)) := by
    clear hsplit
    induction stream using List.reverseRecOn with
    | nil =>
        refine ⟨trivial, fun p hp => absurd (hp.symm.trans ?_) (Option.some_ne_none p)⟩
        change wk.state.filePath = none
        rw [hidle]
        rfl
    | append_singleton stream s ih =>
        rw [List.map_append, List.nodup_append] at hpaths
        obtain ⟨hpaths, -, hfresh⟩ := hpaths
        obtain ⟨hfront, hbound⟩ := ih
          (fun r hr => hstream r (List.mem_append_left _ hr)) hpaths hends.front
        obtain ⟨hlast, hbound'⟩ := Shipment.step ((Worker.Inv.of_new hidle).run _) hbound
          (hstream s (List.mem_append_right _ List.mem_cons_self))
          (fun r hr => hfresh _ (List.mem_map_of_mem hr) _ List.mem_cons_self)
          (hends stream s [] rfl)
        rw [List.flatMap_append, List.flatMap_singleton]
        exact ⟨closesOwnAll_append hfront hlast, by rwa [run_append]⟩
  exact (hsplit ▸ hall.1).closesOwn

/-! ### Runs -/

/-- Only the START of the one and the END of the other file arrive. -/
noncomputable def crossed : List Shipment :=
  [⟨emptied, [emptied.startPacket referenceEnv.toLibs]⟩, ⟨otherEmptied, [otherEmptied.endPacket]⟩]

/-- **An END that reports success for another file.** -/
theorem run_closesOther :
    (∀ s ∈ crossed, s.Honest referenceEnv.toLibs) ∧
      (crossed.map fun s => s.transfer.path).Nodup ∧
      crossed.flatMap Shipment.arrived =
        [emptied.startPacket referenceEnv.toLibs] ++ otherEmptied.endPacket :: [] ∧
      ¬ClosesOwn (run referenceEnv (.new referenceTree)
        [emptied.startPacket referenceEnv.toLibs]) otherEmptied.endPacket ∧
      (run referenceEnv (.new referenceTree)
        [emptied.startPacket referenceEnv.toLibs, otherEmptied.endPacket]).stats = ⟨1, 0, 0⟩ := by
  refine ⟨?_, by decide, rfl, fun h => ?_, by decide⟩
  · intro s hs
    rw [crossed, List.mem_cons, List.mem_singleton] at hs
    rcases hs with rfl | rfl
    · refine ⟨by decide, List.singleton_sublist.mpr ?_⟩
      rw [emptied.emitted_eq_cons]
      exact List.mem_cons_self
    · refine ⟨by decide, List.singleton_sublist.mpr ?_⟩
      rw [otherEmptied.emitted_eq]
      exact List.mem_append_right _ List.mem_cons_self
  · have hpath : (run referenceEnv (.new referenceTree)
        [emptied.startPacket referenceEnv.toLibs]).state.filePath = some ['a'] := by
      decide
    obtain ⟨hdata, -⟩ := h _ (Transfer.decodePacket_endPacket (t := otherEmptied) (by decide))
      rfl _ hpath
    exact absurd hdata (by decide)

/-- An empty file under a third path. -/
def thirdEmptied : Transfer := ⟨['c'], []⟩

/-- Of the first file no END arrives, of the last one no START. -/
noncomputable def lossy : List Shipment :=
  [⟨emptied, [emptied.startPacket referenceEnv.toLibs]⟩,
    ⟨otherEmptied, [otherEmptied.startPacket referenceEnv.toLibs, otherEmptied.endPacket]⟩,
    ⟨thirdEmptied, [thirdEmptied.endPacket]⟩]

/-- The three files are sent as the sender does. -/
theorem lossy_honest : ∀ s ∈ lossy, s.Honest referenceEnv.toLibs := by
  intro s hs
  rw [lossy, List.mem_cons, List.mem_cons, List.mem_singleton] at hs
  rcases hs with rfl | rfl | rfl
  · refine ⟨by decide, List.singleton_sublist.mpr ?_⟩
    rw [emptied.emitted_eq_cons]
    exact List.mem_cons_self
  · refine ⟨by decide, ?_⟩
    rw [otherEmptied.emitted_eq_cons]
    exact (List.singleton_sublist.mpr (List.mem_append_right _ List.mem_cons_self)).cons_cons _
  · refine ⟨by decide, List.singleton_sublist.mpr ?_⟩
    rw [thirdEmptied.emitted_eq]
    exact List.mem_append_right _ List.mem_cons_self

/-- The END without its START comes when no file is left open: the second one has been closed. -/
theorem lossy_endsAnnounced : Shipment.EndsAnnounced referenceEnv.toLibs lossy := by
  rintro pre s post hsplit -
  rcases pre with _ | ⟨a, _ | ⟨b, _ | ⟨c, pre⟩⟩⟩
  · obtain ⟨rfl, -⟩ := List.cons.inj hsplit
    exact Or.inl List.mem_cons_self
  · obtain ⟨-, htail⟩ := List.cons.inj hsplit
    obtain ⟨rfl, -⟩ := List.cons.inj htail
    exact Or.inl List.mem_cons_self
  · obtain ⟨rfl, htail⟩ := List.cons.inj hsplit
    obtain ⟨rfl, -⟩ := List.cons.inj htail
    refine Or.inr ?_
    rintro r ⟨pre', mid, hopen, -, hended, hmid⟩
    rcases pre' with _ | ⟨a', _ | ⟨b', pre'⟩⟩
    · obtain ⟨-, rfl⟩ := List.cons.inj hopen
      exact (hmid _ List.mem_cons_self).1 List.mem_cons_self
    · obtain ⟨-, htail⟩ := List.cons.inj hopen
      obtain ⟨rfl, -⟩ := List.cons.inj htail
      exact hended (List.mem_cons_of_mem _ List.mem_cons_self)
    · have hlen := congrArg List.length hopen
      simp at hlen
  · have hlen := congrArg List.length hsplit
    simp [lossy] at hlen

/-- The END of the second file comes while the first one was left open, and that of the third
one comes after the second one was closed. -/
theorem run_closesOwn_lossy :
    ClosesOwn (run referenceEnv (.new referenceTree) [emptied.startPacket referenceEnv.toLibs,
      otherEmptied.startPacket referenceEnv.toLibs]) otherEmptied.endPacket ∧
    ClosesOwn (run referenceEnv (.new referenceTree) [emptied.startPacket referenceEnv.toLibs,
      otherEmptied.startPacket referenceEnv.toLibs, otherEmptied.endPacket])
      thirdEmptied.endPacket := by
  have hwk : (Worker.new referenceTree).state = .new := rfl
  have hpaths : (lossy.map fun s => s.transfer.path).Nodup := by decide
  exact ⟨run_closesOwn hwk lossy_honest hpaths lossy_endsAnnounced rfl,
    run_closesOwn hwk lossy_honest hpaths lossy_endsAnnounced rfl⟩

end DataDiode
