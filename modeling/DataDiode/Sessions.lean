import DataDiode.Gathering
import DataDiode.Mirror

/-!
# Sessions

The packets of several files arrive in any order: some are lost, some come more than once, and those
of one file come between those of another. The operating system fails whatever it fails. What the
receiver then holds under the name of a file is what was there before, or the file itself, but for
zeros in place of the batches after some batch. Every batch up to there could be restored from what
arrived.

An END closes whatever transfer is in progress, whichever file it names, and an announcement of
another file ends it; neither lets a wrong byte through.

## Main results

* `Loses`: nothing new is under a name; only a publication does more than that.
* `Follows.handlePacket`: one packet of a session.
* `run_received`: a whole session.
-/

namespace DataDiode

open UnixPath World

/-! ### Nothing new under a name -/

/-- There is no file at `l` any more, or the one from before. -/
def Loses (l : Location) (t t' : Tree) : Prop := t'.contents l = none ∨ t'.contents l = t.contents l

namespace Loses

variable {l : Location} {t t' t'' : Tree}

/-- Nothing happens. -/
theorem refl (l : Location) (t : Tree) : Loses l t t := Or.inr rfl

/-- One step after the other. -/
theorem trans (h : Loses l t t') (h' : Loses l t' t'') : Loses l t t'' := by
  rcases h' with hnone | hsame
  · exact Or.inl hnone
  · rw [Loses, hsame]
    exact h

/-- What does not alter a file does not give it other contents. -/
theorem of_alters {S D : Location → Prop} (h : Alters S D t t') (hl : ¬S l) : Loses l t t' :=
  Or.inr (h.contents hl)

/-- What a file holds afterwards it held before. -/
theorem eq_some (h : Loses l t t') {c : Bytes} (hc : t'.contents l = some c) :
    t.contents l = some c := by
  rcases h with hnone | hsame
  · exact absurd (hnone.symm.trans hc) (by simp)
  · exact hsame.symm.trans hc

end Loses

section Handlers

variable {env : Env} {p : Str} {l : Location}

/-- Removing a file gives it no other contents. -/
theorem removeFile_loses (env : Env) (w : World) (q : Path) :
    Loses l w.fs (w.removeFile env q).2.fs := by
  rw [Loses, FileTree.contents, FileTree.contents]
  rcases removeFile_node env w q l with hsame | ⟨-, -, hnone⟩
  · rw [hsame]
    exact Or.inr rfl
  · rw [hnone]
    exact Or.inl rfl

/-- Making directories gives no file other contents. -/
theorem createDirAll_loses (w : World) (q : Path) : Loses l w.fs (w.createDirAll env q).2.fs :=
  .of_alters (S := fun _ => False) (D := fun _ => True)
    (createDirAll_alters w fun _ _ => trivial) not_false

/-- Opening another file gives this one no other contents. -/
theorem openWrite_loses (w : World) {q : Path} (hl : env.locate q ≠ l) (truncate : Bool) :
    Loses l w.fs (w.openWrite env q truncate).2.fs :=
  .of_alters (S := (· ≠ l)) (D := fun _ => True) (openWrite_alters w hl truncate)
    (not_not.mpr rfl)

/-- Leaving the marker of another file gives this one no other contents. -/
theorem markFailure_loses (hp : Accepted p) (hl : env.locate (env.failedPath p) ≠ l) (w : World) :
    Loses l w.fs (w.markFailure env p).fs := by
  obtain ⟨q, hq⟩ := (hp.inside_failedPath env).exists_parent
  rw [markFailure, hq]
  exact ((removeFile_loses env w (env.finalPath p)).trans (createDirAll_loses _ q)).trans
    (openWrite_loses _ hl false)

/-- Giving up a transfer. -/
theorem abandon_loses (hp : Accepted p) (hl : env.locate (env.failedPath p) ≠ l) (wk : Worker) :
    Loses l wk.world.fs (abandon env wk p).world.fs := by
  have hfs : (abandon env wk p).world.fs =
      ((wk.world.removeFile env (env.partialPath p)).2.markFailure env p).fs :=
    (resetTransfer_world _ false).1
  rw [hfs]
  exact (removeFile_loses env _ _).trans (markFailure_loses hp hl _)

/-- Opening a transfer. -/
theorem openTransfer_loses (hp : Accepted p) (hpart : env.locate (env.partialPath p) ≠ l)
    (hfailed : env.locate (env.failedPath p) ≠ l) (wk : Worker) (size : ℕ) (pathHash : Bytes)
    (parity : ℕ) :
    Loses l wk.world.fs (openTransfer env wk p size pathHash parity).world.fs := by
  have hremoved := ((removeFile_loses (l := l) env wk.world (env.finalPath p)).trans
    (removeFile_loses env _ (env.partialPath p))).trans
      (removeFile_loses env _ (env.failedPath p))
  have hopened := hremoved.trans (.of_alters (openOutputFile_alters (S := (· ≠ l))
    (D := fun _ => True) hp hpart (fun _ _ => trivial) _ size) (not_not.mpr rfl))
  rw [openTransfer]
  dsimp only
  split
  · rename_i e w heq
    rw [heq] at hopened
    exact hopened.trans (markFailure_loses hp hfailed _)
  · rename_i f w heq
    rw [heq] at hopened
    exact hopened

end Handlers

/-! ### The packets of a session -/

/-- The files of a session: their sizes fit the header, the digests of their paths are different,
and their paths keep apart. -/
structure Session (libs : Libs) (ts : List Transfer) : Prop where
  small : ∀ t ∈ ts, t.Small
  digests : ∀ t ∈ ts, ∀ u ∈ ts, t ≠ u → t.pathHash libs ≠ u.pathHash libs
  apart : ∀ t ∈ ts, ∀ u ∈ ts, t.path ≠ u.path → Apart t.path u.path

namespace Session

variable {env : Env} {ts : List Transfer}

/-- Different transfers of a session have different paths. -/
theorem path_ne {libs : Libs} (h : Session libs ts) {t u : Transfer} (ht : t ∈ ts) (hu : u ∈ ts)
    (hne : t ≠ u) : t.path ≠ u.path :=
  fun heq => h.digests t ht u hu hne (by rw [Transfer.pathHash, Transfer.pathHash, heq])

/-- The files that a transfer keeps for itself are not files of the session. -/
theorem locate_ne (h : Session env.toLibs ts) {t u : Transfer} (ht : t ∈ ts) (hu : u ∈ ts) :
    env.locate (env.partialPath t.path) ≠ env.locate (env.finalPath u.path) ∧
      env.locate (env.failedPath t.path) ≠ env.locate (env.finalPath u.path) := by
  have hacc := (h.small t ht).accepted
  by_cases heq : t.path = u.path
  · rw [← heq]
    exact ⟨(hacc.locate_ne env).1, (hacc.locate_ne env).2.1⟩
  · have happart := h.apart t ht u hu heq
    have hacc' := (h.small u hu).accepted
    exact ⟨happart.ne hacc hacc' (Or.inr (Or.inl rfl)), happart.ne hacc hacc' (Or.inr (Or.inr rfl))⟩

end Session

/-- A datagram that is no packet of a file: a UDP packet, one of an unknown type, or one that cannot
be decoded. -/
def Unrelated (raw : Bytes) : Prop := ∀ packet, decodePacket raw = some packet →
  packet.pkgType ∉ [pkgTypeStart, pkgTypeData, pkgTypeParity, pkgTypeEnd]

/-- Such a datagram changes neither the state nor the tree. -/
theorem Unrelated.handlePacket {raw : Bytes} (h : Unrelated raw) (env : Env) (wk : Worker) :
    (handlePacket env wk raw).state = wk.state ∧
      (handlePacket env wk raw).world.fs = wk.world.fs := by
  rw [DataDiode.handlePacket]
  split
  · exact ⟨rfl, rfl⟩
  · rename_i packet hdecode
    have htype := h packet hdecode
    simp only [List.mem_cons, List.not_mem_nil, or_false, not_or] at htype
    obtain ⟨hstart, hdata, hparity, hend⟩ := htype
    rw [dispatch, if_neg hstart, if_neg fun h => hdata h.1, if_neg fun h => hparity h.1,
      if_neg fun h => hend h.1]
    split <;> exact ⟨rfl, rfl⟩

/-- The file, but for zeros in place of the batches after some batch. All batches up to there can be
restored from the packets. -/
def Transfer.Received (libs : Libs) (t : Transfer) (raws : List Bytes) (c : Bytes) : Prop :=
  ∃ b, c = t.filled ((b + 1) * batchDataChunks) ∧ ∀ b' ≤ b, t.Restorable libs b' raws

/-- The receiver is idle, or a transfer of one of the files is in progress. -/
def Follows (env : Env) (ts : List Transfer) (raws : List Bytes) (wk : Worker) : Prop :=
  wk.state = .new ∨ ∃ t ∈ ts, Gathers env t raws wk

/-- What happens to the files of a session: none is new, but for one that has been received. -/
def Delivers (env : Env) (ts : List Transfer) (raws : List Bytes) (fs fs' : Tree) : Prop :=
  ∀ q ∈ ts, Loses (env.locate (env.finalPath q.path)) fs fs' ∨
    ∃ c, fs'.contents (env.locate (env.finalPath q.path)) = some c ∧ q.Received env.toLibs raws c

/-! ### One packet -/

section Packets

variable {env : Env} {ts : List Transfer} {raws : List Bytes} {wk : Worker} {t u : Transfer}
  {l : Location}

/-- Where no file of the session gets other contents, nothing wrong is delivered. -/
theorem Delivers.of_loses {fs fs' : Tree}
    (h : ∀ q ∈ ts, Loses (env.locate (env.finalPath q.path)) fs fs') :
    Delivers env ts raws fs fs' := fun q hq => Or.inl (h q hq)

/-- One delivery after the other. -/
theorem Delivers.trans {fs fs' fs'' : Tree} (h : Delivers env ts raws fs fs')
    (h' : Delivers env ts raws fs' fs'') : Delivers env ts raws fs fs'' := by
  intro q hq
  rcases h' q hq with hloses | hreceived
  · rcases h q hq with hloses' | ⟨c, hc, hreceived⟩
    · exact Or.inl (hloses'.trans hloses)
    · rcases hloses with hnone | hsame
      · exact Or.inl (Or.inl hnone)
      · exact Or.inr ⟨c, hsame.trans hc, hreceived⟩
  · exact Or.inr hreceived

/-- A chunk writes to the file under reception only. -/
theorem handlePacket_chunk_loses (hu : u.Small) (hinv : wk.Inv env) {p : Str}
    (hp : wk.state.filePath = some p) (hl : env.locate (env.partialPath p) ≠ l)
    {c : ChunkId} (hc : u.HasChunk c) :
    Loses l wk.world.fs (handlePacket env wk (u.chunkPacket env.toLibs c)).world.fs := by
  rw [Transfer.handlePacket_chunk hu.length_lt hc (by rw [hp]; rfl)]
  refine .of_alters (S := (· ≠ l)) (D := fun _ => True) ?_ (not_not.mpr rfl)
  refine (outputFrame_alters (f := ⟨env.partialPath p⟩) hl).acceptChunk (hinv.output p hp) _ _ _
    fun wk => ?_
  cases c with
  | data i => exact bufferData_world wk _
  | parity b j => exact bufferParity_world wk _ _

/-- An announcement removes the file it announces, and leaves nothing new. -/
theorem newFile_loses (hu : Accepted u.path) (hinv : wk.Inv env)
    (hl : ∀ p, wk.state.filePath = some p ∨ p = u.path →
      env.locate (env.partialPath p) ≠ l ∧ env.locate (env.failedPath p) ≠ l) (size : ℕ)
    (pathHash : Bytes) (parity : ℕ) :
    Loses l wk.world.fs (newFile env wk u.path size pathHash parity).world.fs := by
  have hpreempt : Loses l wk.world.fs (preempt env wk).world.fs := by
    rw [preempt]
    split
    · exact .refl _ _
    · rename_i prev hprev
      exact abandon_loses (hinv.accepted prev hprev) (hl prev (Or.inl hprev)).2 _
  rw [newFile]
  split
  · exact .refl _ _
  dsimp only
  rw [if_neg (by rw [hu.safe]; exact Bool.false_ne_true.symm), if_neg hu.no_nul]
  obtain ⟨hpart, hfailed⟩ := hl u.path (Or.inr rfl)
  exact hpreempt.trans (openTransfer_loses hu hpart hfailed _ _ _ _)

/-- An announcement. -/
theorem Follows.start (hs : Session env.toLibs ts) (hinv : wk.Inv env)
    (h : Follows env ts raws wk) (hu : u ∈ ts) :
    Follows env ts raws (handlePacket env wk (u.startPacket env.toLibs)) ∧
      Delivers env ts raws wk.world.fs
        (handlePacket env wk (u.startPacket env.toLibs)).world.fs := by
  have hsmall := hs.small u hu
  rw [Transfer.handlePacket_start hsmall.length_lt]
  refine ⟨?_, .of_loses fun q hq => newFile_loses hsmall.accepted hinv (fun p hp => ?_) _ _ _⟩
  · rw [newFile]
    split
    · exact h
    dsimp only
    rw [if_neg (by rw [hsmall.accepted.safe]; exact Bool.false_ne_true.symm),
      if_neg hsmall.accepted.no_nul]
    exact (openTransfer_gathers (preempt_state hinv) u raws).imp_right fun hopen => ⟨u, hu, hopen⟩
  · rcases hp with hp | rfl
    · rcases h with hidle | ⟨t, ht, hgathers⟩
      · rw [hidle] at hp
        exact absurd hp.symm (Option.some_ne_none p)
      · obtain rfl := Option.some.inj (hgathers.filePath.symm.trans hp)
        exact hs.locate_ne ht hq
    · exact hs.locate_ne hu hq

/-- A chunk. -/
theorem Follows.chunk (hs : Session env.toLibs ts) (hinv : wk.Inv env)
    (h : Follows env ts raws wk) (hu : u ∈ ts) {c : ChunkId}
    (hc : u.HasChunk c) (hraw : u.chunkPacket env.toLibs c ∈ raws) :
    Follows env ts raws (handlePacket env wk (u.chunkPacket env.toLibs c)) ∧
      Delivers env ts raws wk.world.fs
        (handlePacket env wk (u.chunkPacket env.toLibs c)).world.fs := by
  have hsmall := hs.small u hu
  rcases h with hidle | ⟨t, ht, hgathers⟩
  · rw [handlePacket_idle hsmall.length_lt (by rw [hidle]; rfl)
      (Or.inr ((Transfer.mem_chunkPackets_iff env.toLibs).mpr ⟨c, hc, rfl⟩))]
    exact ⟨Or.inl hidle, .of_loses fun q _ => .refl _ _⟩
  · refine ⟨Or.inr ⟨t, ht, ?_⟩, .of_loses fun q hq => handlePacket_chunk_loses hsmall hinv
      hgathers.filePath (hs.locate_ne ht hq).1 hc⟩
    by_cases hut : t = u
    · subst hut
      exact hgathers.handlePacket_chunk hsmall hc hraw
    · exact hgathers.handlePacket_foreign hsmall (hs.digests t ht u hu hut) hc

/-- Publishing puts the file under reception in place, or leaves nothing new. -/
theorem publish_delivers (env : Env) {p : Str} (hp : Accepted p) (wk : Worker)
    (hactive : wk.state.filePath = some p) :
    Loses (env.locate (env.finalPath p)) wk.world.fs (publish env wk p).world.fs ∨
      (publish env wk p).world.fs.contents (env.locate (env.finalPath p)) =
        wk.world.fs.contents (env.locate (env.partialPath p)) := by
  rcases publish_contents env hp wk hactive with hnone | ⟨-, hcontents⟩
  · left
    rcases hrename : wk.world.rename env (env.partialPath p) (env.finalPath p) with ⟨e | ⟨⟩, w⟩
    · rw [publish, hrename]
      have hloses := abandon_loses hp (hp.locate_ne env).2.1 { wk with
        world := w.error [.lit "Failed to rename ", .debug p, .lit " (safe: ",
          .debug (logSafe p), .lit ") -> ", .debug (env.finalPath p), .lit ": ", .io e] }
      rw [Loses, ← World.call_eq_error hrename]
      exact hloses
    · -- a file that has been renamed counts as done
      rw [(publish_of_renamed hactive hrename).2] at hnone
      exact absurd hnone (Nat.succ_ne_self _)
  · exact Or.inr hcontents

/-- **The end of a transfer** puts the file in place as far as it was received, or leaves nothing
new. -/
theorem Gathers.finishFile (ht : t.Small) (hinv : wk.Inv env) (h : Gathers env t raws wk) :
    Loses (env.locate (env.finalPath t.path)) wk.world.fs (finishFile env wk).world.fs ∨
      ∃ c, (finishFile env wk).world.fs.contents (env.locate (env.finalPath t.path)) = some c ∧
        t.Received env.toLibs raws c := by
  obtain ⟨hpart, hfailed, -⟩ := ht.accepted.locate_ne env
  have hlast := (outputFrame_alters (S := (· ≠ env.locate (env.finalPath t.path)))
    (D := fun _ => True) (f := ⟨env.partialPath t.path⟩) hpart).finalizeLast
      (hinv.output t.path h.filePath) t.path
  have hloses := Loses.of_alters hlast (not_not.mpr rfl)
  have hsame := finalizeLast_sameTransfer env wk t.path
  simp only [DataDiode.finishFile, h.filePath]
  split
  · exact Or.inl (hloses.trans (abandon_loses ht.accepted hfailed _))
  rename_i hactive
  obtain ⟨b, hheld, hrestorable⟩ := h.finalizeLast.resolve_left hactive
  rcases publish_delivers env ht.accepted
      { DataDiode.finalizeLast env wk t.path with
        state := { (DataDiode.finalizeLast env wk t.path).state with output := none } }
      (hsame.filePath.trans h.filePath) with hpublish | hcontents
  · exact Or.inl (hloses.trans hpublish)
  · exact Or.inr ⟨_, hcontents.trans hheld, b, rfl, hrestorable⟩

/-- An END: it closes whatever transfer is in progress. -/
theorem Follows.finish (hs : Session env.toLibs ts) (hinv : wk.Inv env)
    (h : Follows env ts raws wk) (hu : u ∈ ts) :
    Follows env ts raws (handlePacket env wk u.endPacket) ∧
      Delivers env ts raws wk.world.fs (handlePacket env wk u.endPacket).world.fs := by
  have hsmall := hs.small u hu
  rcases h with hidle | ⟨t, ht, hgathers⟩
  · rw [handlePacket_idle hsmall.length_lt (by rw [hidle]; rfl) (Or.inl rfl)]
    exact ⟨Or.inl hidle, .of_loses fun q _ => .refl _ _⟩
  have htsmall := hs.small t ht
  rw [Transfer.handlePacket_end hsmall.length_lt hgathers.isSome]
  refine ⟨Or.inl (finishFile_state env hgathers.filePath), fun q hq => ?_⟩
  by_cases hqt : t = q
  · subst hqt
    exact hgathers.finishFile htsmall hinv
  · have halters := (finishFile_alters hinv hgathers.filePath).of_path
      (P := (· = t.path)) rfl htsmall.accepted
    refine Or.inl (Or.inr (halters.contents_finalPath (hs.small q hq).accepted ?_))
    rintro p rfl -
    exact hs.apart t ht q hq (hs.path_ne ht hq hqt)

/-- **One datagram of a session.** -/
theorem Follows.handlePacket (hs : Session env.toLibs ts) (hinv : wk.Inv env)
    (h : Follows env ts raws wk) {raw : Bytes} (hmem : raw ∈ raws)
    (hraw : Unrelated raw ∨ ∃ u ∈ ts, raw ∈ u.emitted env.toLibs) :
    Follows env ts raws (handlePacket env wk raw) ∧
      Delivers env ts raws wk.world.fs (handlePacket env wk raw).world.fs := by
  rcases hraw with hraw | ⟨u, hu, hraw⟩
  · obtain ⟨hstate, hfs⟩ := hraw.handlePacket env wk
    rw [hfs]
    refine ⟨?_, .of_loses fun q _ => .refl _ _⟩
    rcases h with hidle | ⟨t, ht, hgathers⟩
    · exact Or.inl (hstate.trans hidle)
    · exact Or.inr ⟨t, ht, hgathers.congr hstate hfs⟩
  rw [u.emitted_eq, List.mem_append, List.mem_append] at hraw
  rcases hraw with (hraw | hraw) | hraw
  · rw [List.eq_of_mem_replicate hraw]
    exact h.start hs hinv hu
  · obtain ⟨c, hc, rfl⟩ := (Transfer.mem_chunkPackets_iff env.toLibs).mp hraw
    exact h.chunk hs hinv hu hc hmem
  · rw [List.eq_of_mem_replicate hraw]
    exact h.finish hs hinv hu

end Packets

/-! ### A whole session -/

/-- A run on datagrams of the session. -/
theorem Follows.run {env : Env} {ts : List Transfer} (hs : Session env.toLibs ts)
    {all : List Bytes} : ∀ {raws : List Bytes} {wk : Worker}, wk.Inv env → Follows env ts all wk →
      (∀ raw ∈ raws, raw ∈ all) →
      (∀ raw ∈ raws, Unrelated raw ∨ ∃ u ∈ ts, raw ∈ u.emitted env.toLibs) →
      Delivers env ts all wk.world.fs (DataDiode.run env wk raws).world.fs
  | [], wk, _, _, _, _ => .of_loses fun q _ => .refl _ _
  | raw :: raws, wk, hinv, h, hall, hraws => by
      obtain ⟨h', hstep⟩ := h.handlePacket hs hinv (hall raw List.mem_cons_self)
        (hraws raw List.mem_cons_self)
      exact hstep.trans (Follows.run hs (hinv.handlePacket raw).1 h'
        (fun raw' hraw' => hall raw' (List.mem_cons_of_mem _ hraw'))
        fun raw' hraw' => hraws raw' (List.mem_cons_of_mem _ hraw'))

/-- **No wrong bytes.** Whatever arrives of the packets of several files, in whatever order, however
often, mixed with any datagrams that are no packets of a file, and whichever calls the operating
system fails: a file under its name is the one from before, or it has been received, but for zeros
in place of the batches after some batch; and the batches up to there could be restored from what
arrived. -/
theorem run_received (env : Env) {ts : List Transfer} (hs : Session env.toLibs ts) {wk : Worker}
    (hidle : wk.state = .new) {raws : List Bytes}
    (hraws : ∀ raw ∈ raws, Unrelated raw ∨ ∃ t ∈ ts, raw ∈ t.emitted env.toLibs)
    {t : Transfer} (ht : t ∈ ts) {c : Bytes}
    (hc : (run env wk raws).world.fs.contents (env.locate (env.finalPath t.path)) = some c) :
    wk.world.fs.contents (env.locate (env.finalPath t.path)) = some c ∨
      ∃ b, c = t.filled ((b + 1) * batchDataChunks) ∧
        ∀ b' ≤ b, t.Restorable env.toLibs b' raws := by
  rcases Follows.run hs (.of_new hidle) (Or.inl hidle) (fun raw hraw => hraw) hraws t ht with
    hloses | ⟨c', hc', b, hreceived⟩
  · exact Or.inl (hloses.eq_some hc)
  · rw [show c' = c from Option.some.inj (hc'.symm.trans hc)] at hreceived
    exact Or.inr ⟨b, hreceived⟩

end DataDiode
