import DataDiode.Footprint
import DataDiode.Neighbours
import DataDiode.Separation

/-!
# One Transfer after Another

The receiver handles the transfers of a round one after the other, each with losses that its parity
makes up for. A transfer leaves the files of the others alone, and the ways to them free, as long as
their names keep out of each other's way. So the output directory mirrors what was sent: under
every path it holds the version that was sent last.

## Main results

* `Alters.unobstructed`: what a transfer needs is not taken away by transfers of other paths.
* `run_mirrors`: a round of transfers, each with losses.
* `spares_of_ordinary`: names that do not end like those of the receiver's own files.
-/

namespace DataDiode

open UnixPath

/-! ### Paths that keep out of each other's way -/

/-- The names of the three files of a transfer of `p`, below the output directory. -/
def fileNames (p : Str) : List (List Name) := [names p, partialNames p, failedNames p]

/-- No file of a transfer of `p` is on the way to the directory of `q`. -/
def OffTheWay (p q : Str) : Prop := ∀ ns ∈ fileNames p, ¬ns <+: dirNames q

/-- A finite number of names decides it. -/
instance (p q : Str) : Decidable (OffTheWay p q) := inferInstanceAs (Decidable (∀ ns ∈ _, _))

/-- A transfer of another path `p` does not touch the delivered file `q`, nor the way to it. -/
def Spares (p q : Str) : Prop := p ≠ q → Apart p q ∧ OffTheWay p q

/-- A finite number of names decides whether a path spares another. -/
instance (p q : Str) : Decidable (Spares p q) := inferInstanceAs (Decidable (_ → _))

/-- The places of a path are its three files. -/
theorem Accepted.files_iff {env : Env} {p : Str} (hp : Accepted p) {l : Location} :
    env.Files p l ↔ ∃ ns ∈ fileNames p, l = env.locate env.outputDir ++ ns := by
  simp [Env.Files, fileNames, hp.locate_finalPath, hp.locate_partialPath, hp.locate_failedPath]

/-- The files of a path are not on the way to its own directory. -/
theorem offTheWay_self {p : Str} (h : demandsDir p = false) : OffTheWay p p := by
  intro ns hns hway
  have hlen := hway.length_le
  simp only [fileNames, List.mem_cons, List.not_mem_nil, or_false] at hns
  rcases hns with rfl | rfl | rfl
  · rw [names_eq_of_demandsDir h, List.length_append, List.length_singleton] at hlen
    omega
  · rw [partialNames, List.length_append, List.length_singleton] at hlen
    omega
  · rw [failedNames, List.length_append, List.length_singleton] at hlen
    omega

/-- A path that spares another is off its way. -/
theorem Spares.offTheWay {p q : Str} (h : Spares p q) (hfile : demandsDir p = false) :
    OffTheWay p q := by
  by_cases hpq : p = q
  · rw [← hpq]
    exact offTheWay_self hfile
  · exact (h hpq).2

/-- **Nothing comes in the way** of a path by changes at the places of paths that keep out of its
way. -/
theorem Alters.unobstructed {env : Env} {P : Str → Prop} {t t' : Tree} {q : Str} (hq : Accepted q)
    (h : Alters (env.FilesOf P) (env.WaysOf P) t t')
    (hway : ∀ p, P p → Accepted p → OffTheWay p q ∧ OffTheWay q p) (hun : Unobstructed env t q) :
    Unobstructed env t' q := by
  have hfile : ∀ ns ∈ fileNames q, t.node (env.locate env.outputDir ++ ns) ≠ some .dir →
      t'.node (env.locate env.outputDir ++ ns) ≠ some .dir := by
    intro ns hns hdir hdir'
    rcases h.made _ hdir' with hbefore | ⟨p, hp, hacc, hprefix⟩
    · exact hdir hbefore
    · exact (hway p hp hacc).2 ns hns ((List.prefix_append_right_inj _).mp hprefix)
  refine ⟨hun.file, ?_, ?_, ?_, fun k hk => ?_⟩
  · have hfinal := hun.final
    rw [hq.locate_finalPath] at hfinal ⊢
    exact hfile _ (by simp [fileNames]) hfinal
  · have hreception := hun.reception
    rw [hq.locate_partialPath] at hreception ⊢
    exact hfile _ (by simp [fileNames]) hreception
  · have hmarker := hun.marker
    rw [hq.locate_failedPath] at hmarker ⊢
    exact hfile _ (by simp [fileNames]) hmarker
  · have hnot : ¬env.FilesOf P k := by
      rintro ⟨p, hp, hacc, hplace⟩
      obtain ⟨ns, hns, rfl⟩ := hacc.files_iff.mp hplace
      exact (hway p hp hacc).1 ns hns ((List.prefix_append_right_inj _).mp hk)
    rcases h.elsewhere k hnot with hsame | ⟨-, hmade, -⟩
    · rw [hsame]
      exact hun.way k hk
    · exact Or.inr hmade

/-- A delivered file keeps its contents through transfers of paths that are apart from it. -/
theorem Alters.contents_finalPath {env : Env} {P : Str → Prop} {t t' : Tree} {q : Str}
    (hq : Accepted q) (h : Alters (env.FilesOf P) (env.WaysOf P) t t')
    (happart : ∀ p, P p → Accepted p → Apart p q) :
    t'.contents (env.locate (env.finalPath q)) = t.contents (env.locate (env.finalPath q)) := by
  refine h.contents ?_
  rintro ⟨p, hp, hacc, hplace⟩
  rcases hplace with heq | heq | heq
  · exact (happart p hp hacc).ne hacc hq (Or.inl rfl) heq.symm
  · exact (happart p hp hacc).ne hacc hq (Or.inr (Or.inl rfl)) heq.symm
  · exact (happart p hp hacc).ne hacc hq (Or.inr (Or.inr rfl)) heq.symm

/-! ### Ordinary names -/

/-- No name of a path ends like those of the files that the receiver keeps for itself. -/
def Ordinary (p : Str) : Prop := ∀ n ∈ names p, ¬partialSuffix <:+ n ∧ ¬failedSuffix <:+ n

/-- The names of a path decide whether it is ordinary. -/
instance (p : Str) : Decidable (Ordinary p) := inferInstanceAs (Decidable (∀ n ∈ names p, _))

/-- **Ordinary paths keep out of each other's way**, unless one is a directory of the other. -/
theorem spares_of_ordinary {p q : Str} (hq : Ordinary q) (hpq : p ≠ q → ¬names p <+: names q) :
    Spares p q := by
  intro hne
  have hprefix : dirNames q <+: names q := ⟨_, (names_eq q).symm⟩
  have hunfinished : ¬partialNames p <+: names q := by
    intro h
    have hmem : lastPart p ++ partialSuffix ∈ names q := h.subset (by simp [partialNames])
    exact (hq _ hmem).1 (List.suffix_append _ _)
  have hfailed : ¬failedNames p <+: names q := by
    intro h
    have hmem : lastPart p ++ failedSuffix ∈ names q := h.subset (by simp [failedNames])
    exact (hq _ hmem).2 (List.suffix_append _ _)
  refine ⟨⟨fun h => hpq hne (h ▸ List.prefix_rfl), fun h => hunfinished (h ▸ List.prefix_rfl),
    fun h => hfailed (h ▸ List.prefix_rfl)⟩, fun ns hns hway => ?_⟩
  simp only [fileNames, List.mem_cons, List.not_mem_nil, or_false] at hns
  rcases hns with rfl | rfl | rfl
  · exact hpq hne (hway.trans hprefix)
  · exact hunfinished (hway.trans hprefix)
  · exact hfailed (hway.trans hprefix)

/-! ### One transfer -/

section Transfers

variable {env : Env} {wk : Worker}

/-- The packets that arrive of a transfer are packets of the file. -/
theorem Transfer.Tolerable.mem_emitted {libs : Libs} {t : Transfer} {raws : List Bytes}
    (h : t.Tolerable libs raws) {raw : Bytes} (hraw : raw ∈ raws) : raw ∈ t.emitted libs := by
  obtain ⟨body, n, rfl, hbody⟩ := h.shape
  rw [t.emitted_eq]
  simp only [controlResend, List.mem_append, List.mem_cons, List.mem_replicate] at hraw ⊢
  rcases hraw with (rfl | hraw) | ⟨-, rfl⟩
  · exact Or.inl (Or.inl ⟨by decide, rfl⟩)
  · rcases hbody raw hraw with rfl | hchunk
    · exact Or.inl (Or.inl ⟨by decide, rfl⟩)
    · exact Or.inl (Or.inr hchunk)
  · exact Or.inr ⟨by decide, rfl⟩

/-- All packets of a file are enough. -/
theorem Transfer.tolerable_emitted (libs : Libs) {t : Transfer} (ht : t.Small) :
    t.Tolerable libs (t.emitted libs) := by
  have hnot : ∀ {raw : Bytes}, raw = t.startPacket libs ∨ raw = t.endPacket →
      ∀ b < t.batchCount, raw ∉ t.batchPackets libs b := by
    intro raw hraw b hb hmem
    rw [Transfer.batchPackets_eq_map libs t hb, List.mem_map] at hmem
    obtain ⟨c, hc, rfl⟩ := hmem
    obtain ⟨hstart, hend⟩ := Transfer.chunkPacket_ne libs ((t.mem_batchIds hb).mp hc).1 ht.length_lt
    exact hraw.elim hstart hend
  refine ⟨⟨List.replicate 2 (t.startPacket libs) ++ t.chunkPackets libs, 2, ?_, ?_⟩, ?_, ?_⟩
  · rw [t.emitted_eq]
    rfl
  · intro raw hraw
    exact (List.mem_append.mp hraw).imp_left List.eq_of_mem_replicate
  · rw [t.emitted_eq, List.pairwise_append, List.pairwise_append]
    refine ⟨⟨?_, ?_, ?_⟩, ?_, ?_⟩
    · refine List.pairwise_replicate.mpr (Or.inr fun b hb _ _ hmem => ?_)
      exact absurd hmem (hnot (Or.inl rfl) b hb)
    · rw [Transfer.chunkPackets_eq_map, List.pairwise_map]
      refine t.inOrder_allIds.imp_of_mem fun hc hc' hle b hb b' hb' hmem hmem' => ?_
      rw [← (Transfer.mem_batchPackets_iff libs (t.mem_allIds.mp hc) ht hb).mp hmem,
        ← (Transfer.mem_batchPackets_iff libs (t.mem_allIds.mp hc') ht hb').mp hmem']
      exact hle
    · intro raw hraw _ _ b hb _ _ hmem
      exact absurd hmem (hnot (Or.inl (List.eq_of_mem_replicate hraw)) b hb)
    · refine List.pairwise_replicate.mpr (Or.inr fun b hb _ _ hmem => ?_)
      exact absurd hmem (hnot (Or.inr rfl) b hb)
    · intro _ _ raw hraw _ _ b hb _ hmem
      exact absurd hmem (hnot (Or.inr (List.eq_of_mem_replicate hraw)) b hb)
  · intro b hb
    have hall : (t.batchPackets libs b).filter (fun raw => raw ∈ t.emitted libs) =
        t.batchPackets libs b := by
      refine List.filter_eq_self.mpr fun raw hraw => ?_
      rw [decide_eq_true_eq, t.emitted_eq, Transfer.chunkPackets]
      simp only [List.mem_append, List.mem_flatMap, List.mem_range]
      exact Or.inl (Or.inr ⟨b, hb, hraw⟩)
    rw [Transfer.Restorable, Transfer.arrivedCount, hall,
      Transfer.batchPackets_eq_map libs t hb, Transfer.batchIds, List.length_map,
      List.length_append, List.length_map, List.length_range]
    exact Nat.le_add_right _ _

/-- The packets of a file are no UDP packets. -/
theorem Transfer.isFileTraffic_of_mem_emitted {libs : Libs} {t : Transfer}
    (ht : t.contents.length < countBound) {raw : Bytes} (hraw : raw ∈ t.emitted libs) :
    isFileTraffic raw = true := by
  have hfile : ∀ {packet : Packet}, decodePacket raw = some packet →
      packet.pkgType ≠ pkgTypeUdp → isFileTraffic raw = true := by
    intro packet hdecode htype
    rw [isFileTraffic, udpPacket?, hdecode, Option.filter_some_neg (by simpa using htype)]
    rfl
  rw [t.emitted_eq, List.mem_append, List.mem_append] at hraw
  rcases hraw with (hraw | hraw) | hraw
  · obtain rfl := List.eq_of_mem_replicate hraw
    exact hfile (decodePacket_startPacket libs ht) (by decide : ¬pkgTypeStart = pkgTypeUdp)
  · obtain ⟨c, hc, rfl⟩ := (mem_chunkPackets_iff libs).mp hraw
    exact hfile (decodePacket_chunkPacket libs hc ht)
      (Transfer.pkgType_chunk_ne libs c (by decide) (by decide))
  · obtain rfl := List.eq_of_mem_replicate hraw
    exact hfile (decodePacket_endPacket ht) (by decide : ¬pkgTypeEnd = pkgTypeUdp)

/-- A transfer delivers its file also if it ends that of another path. -/
theorem Transfer.Tolerable.delivered (henv : env.NoFaults) {t : Transfer} (ht : t.Small)
    (hinv : wk.Inv env) (hother : wk.state.filePath ≠ some t.path)
    (hun : Unobstructed env (preempt env wk).world.fs t.path) {raws : List Bytes}
    (h : t.Tolerable env.toLibs raws) : Delivered env t (preempt env wk) (run env wk raws) := by
  obtain ⟨cs, n, hcs, rfl, b, got, hs, henough, hall⟩ := h.exists_progress ht
  obtain ⟨hstats, base, hcollecting⟩ := Collecting.start henv ht (preempt_state hinv) hother hun
  have hdelivered := hcollecting.run_ok henv ht hcs hs henough hall n
  rw [run_cons]
  exact { hdelivered with
    filesTransferred := by rw [hdelivered.filesTransferred, hstats]
    filesFailed := by rw [hdelivered.filesFailed, hstats] }

/-- A transfer that an idle receiver handles changes the tree at the places of its path. -/
theorem Transfer.Tolerable.alters {t : Transfer} (ht : t.Small) (hinv : wk.Inv env)
    (hidle : wk.state.filePath = none) {raws : List Bytes} (h : t.Tolerable env.toLibs raws) :
    Alters (env.FilesOf (· = t.path)) (env.WaysOf (· = t.path)) wk.world.fs
      (run env wk raws).world.fs := by
  refine (run_alters hinv raws).of_paths fun p hp => ?_
  rcases hp with hp | ⟨raw, hraw, hp⟩
  · exact absurd (hidle.symm.trans hp) (by simp)
  · exact announces_of_mem_emitted ht.length_lt (h.mem_emitted hraw) hp

end Transfers

/-! ### A round of transfers -/

/-- The receiver has got the files `ts`, in this order: it is idle, holds under each path the
version that came last, and nothing else is left of them. -/
structure Mirrors (env : Env) (ts : List Transfer) (before after : Worker) : Prop where
  idle : after.state = .new
  contents : ∀ front t rest, ts = front ++ t :: rest → (∀ u ∈ rest, u.path ≠ t.path) →
    after.world.fs.contents (env.locate (env.finalPath t.path)) = some t.contents
  tidy : ∀ t ∈ ts, after.world.fs.contents (env.locate (env.partialPath t.path)) = none ∧
    after.world.fs.contents (env.locate (env.failedPath t.path)) = none
  filesTransferred : after.stats.filesTransferred = before.stats.filesTransferred + ts.length
  filesFailed : after.stats.filesFailed = before.stats.filesFailed

/-- A transfer as it arrives: the file, and those of its packets that are received. -/
abbrev Reception := Transfer × List Bytes

/-- What is not there before a transfer is delivered is not there behind it, but for the file. -/
theorem Delivered.contents_eq_none {env : Env} {t : Transfer} {wk wk' : Worker}
    (h : Delivered env t wk wk') (ht : Accepted t.path)
    (halters : Alters (env.FilesOf (· = t.path)) (env.WaysOf (· = t.path)) wk.world.fs wk'.world.fs)
    {ns : List Name} (hne : ns ≠ names t.path)
    (hbefore : wk.world.fs.contents (env.locate env.outputDir ++ ns) = none) :
    wk'.world.fs.contents (env.locate env.outputDir ++ ns) = none := by
  have hgone : ∀ {l : Location}, wk'.world.fs.node l = none → wk'.world.fs.contents l = none :=
    fun hnode => by rw [FileTree.contents, hnode]
  by_cases hfile : env.FilesOf (· = t.path) (env.locate env.outputDir ++ ns)
  · obtain ⟨p, rfl, -, hfinal | hunfinished | hfailed⟩ := hfile
    · rw [ht.locate_finalPath] at hfinal
      exact absurd (List.append_cancel_left hfinal) hne
    · exact hgone (hunfinished ▸ h.noPartial)
    · exact hgone (hfailed ▸ h.noFailed)
  · rcases halters.elsewhere _ hfile with hsame | ⟨-, hdir, -⟩
    · rwa [FileTree.contents, hsame, ← FileTree.contents]
    · rw [FileTree.contents, hdir]

/-- The other files of a path are elsewhere than the file of another, and than its own. -/
theorem Spares.names_ne {p q : Str} (h : Spares p q) (hfile : demandsDir p = false) :
    partialNames p ≠ names q ∧ failedNames p ≠ names q := by
  by_cases hpq : p = q
  · have hsuffix : partialSuffix ≠ [] ∧ failedSuffix ≠ [] := by decide
    rw [← hpq, names_eq_of_demandsDir hfile, partialNames, failedNames]
    simp [hsuffix]
  · exact (h hpq).1.2

/-- **Step lemma**: one more file. -/
theorem Mirrors.concat {env : Env} {ts : List Transfer} {t : Transfer} {wk wk₁ wk₂ : Worker}
    (h : Mirrors env ts wk wk₁) (hdelivered : Delivered env t wk₁ wk₂)
    (halters : Alters (env.FilesOf (· = t.path)) (env.WaysOf (· = t.path)) wk₁.world.fs
      wk₂.world.fs)
    (ht : Accepted t.path) (hacc : ∀ u ∈ ts, Accepted u.path)
    (hfile : ∀ u ∈ ts, demandsDir u.path = false)
    (hspares : ∀ u ∈ ts, Spares u.path t.path ∧ Spares t.path u.path) :
    Mirrors env (ts ++ [t]) wk wk₂ := by
  refine ⟨hdelivered.idle, fun front u rest hsplit hrest => ?_, fun u hu => ?_, ?_, ?_⟩
  · rcases List.eq_nil_or_concat rest with rfl | ⟨rest, v, rfl⟩
    · obtain ⟨-, hut⟩ := List.append_inj' hsplit rfl
      obtain rfl : t = u := (List.cons.inj hut).1
      exact hdelivered.contents
    · rw [List.concat_eq_append, ← List.cons_append, ← List.append_assoc] at hsplit
      obtain ⟨hfront, hvt⟩ := List.append_inj' hsplit rfl
      obtain rfl : t = v := (List.cons.inj hvt).1
      rw [List.concat_eq_append] at hrest
      have hu : u ∈ ts := by simp [hfront]
      rw [halters.contents_finalPath (hacc u hu) ?_,
        h.contents front u rest hfront fun v hv => hrest v (by simp [hv])]
      rintro p rfl -
      exact ((hspares u hu).2 (hrest t (by simp))).1
  · rcases List.mem_append.mp hu with hu | hu
    · have hne := (hspares u hu).1.names_ne (hfile u hu)
      have hbefore := h.tidy u hu
      rw [(hacc u hu).locate_partialPath, (hacc u hu).locate_failedPath] at hbefore ⊢
      exact ⟨hdelivered.contents_eq_none ht halters hne.1 hbefore.1,
        hdelivered.contents_eq_none ht halters hne.2 hbefore.2⟩
    · obtain rfl := List.mem_singleton.mp hu
      rw [FileTree.contents, hdelivered.noPartial, FileTree.contents, hdelivered.noFailed]
      exact ⟨rfl, rfl⟩
  · rw [hdelivered.filesTransferred, h.filesTransferred, List.length_append,
      List.length_singleton, Nat.add_assoc]
  · rw [hdelivered.filesFailed, h.filesFailed]

/-- **Run lemma**: a round of files, and what it changes. -/
theorem Mirrors.of_round {env : Env} (henv : env.NoFaults) {arrivals : List Reception}
    (hsmall : ∀ a ∈ arrivals, a.1.Small) (htolerable : ∀ a ∈ arrivals, a.1.Tolerable env.toLibs a.2)
    (hspares : ∀ a ∈ arrivals, ∀ b ∈ arrivals, Spares a.1.path b.1.path) {wk : Worker}
    (hidle : wk.state = .new)
    (hun : ∀ a ∈ arrivals, Unobstructed env wk.world.fs a.1.path) :
    Mirrors env (arrivals.map Prod.fst) wk (run env wk (arrivals.flatMap Prod.snd)) ∧
      Alters (env.FilesOf fun p => ∃ a ∈ arrivals, a.1.path = p)
        (env.WaysOf fun p => ∃ a ∈ arrivals, a.1.path = p) wk.world.fs
        (run env wk (arrivals.flatMap Prod.snd)).world.fs := by
  induction arrivals using List.reverseRecOn with
  | nil =>
      refine ⟨⟨hidle, fun front t rest h => ?_, by simp, rfl, rfl⟩, .refl _ _ _⟩
      exact absurd h (by simp)
  | append_singleton arrivals last ih =>
      obtain ⟨t, raws⟩ := last
      have hlast : (t, raws) ∈ arrivals ++ [(t, raws)] := by simp
      have hmem : ∀ a ∈ arrivals, a ∈ arrivals ++ [(t, raws)] :=
        fun a ha => List.mem_append_left _ ha
      obtain ⟨hmirrors, halters⟩ := ih (fun a ha => hsmall a (hmem a ha))
        (fun a ha => htolerable a (hmem a ha))
        (fun a ha b hb => hspares a (hmem a ha) b (hmem b hb)) fun a ha => hun a (hmem a ha)
      rw [List.flatMap_append, List.flatMap_singleton, run_append, List.map_append,
        List.map_singleton]
      have hinv : (run env wk (arrivals.flatMap Prod.snd)).Inv env := .of_new hmirrors.idle
      generalize run env wk (arrivals.flatMap Prod.snd) = wk₁ at hmirrors halters hinv ⊢
      have ht : t.Small := hsmall _ hlast
      have htol : t.Tolerable env.toLibs raws := htolerable _ hlast
      have hpath : wk₁.state.filePath = none := by rw [hmirrors.idle]; rfl
      have hpreempt : preempt env wk₁ = wk₁ := by rw [preempt, hpath]
      -- nothing has come in the way of the last file
      have hunlast : Unobstructed env wk₁.world.fs t.path := by
        refine halters.unobstructed ht.accepted ?_ (hun _ hlast)
        rintro p ⟨a, ha, rfl⟩ -
        exact ⟨(hspares a (hmem a ha) _ hlast).offTheWay (hun a (hmem a ha)).file,
          (hspares _ hlast a (hmem a ha)).offTheWay (hun _ hlast).file⟩
      have hdelivered := htol.delivered henv ht hinv (by simp [hpath]) (by rwa [hpreempt])
      have halters' := htol.alters ht hinv hpath
      rw [hpreempt] at hdelivered
      refine ⟨hmirrors.concat hdelivered halters' ht.accepted ?_ ?_ ?_, ?_⟩
      · exact List.forall_mem_map.mpr fun a ha => (hsmall a (hmem a ha)).accepted
      · exact List.forall_mem_map.mpr fun a ha => (hun a (hmem a ha)).file
      · exact List.forall_mem_map.mpr fun a ha =>
          ⟨hspares a (hmem a ha) _ hlast, hspares _ hlast a (hmem a ha)⟩
      · refine (halters.of_paths fun p hp => ?_).trans (halters'.of_paths fun p hp => ?_)
        · obtain ⟨a, ha, rfl⟩ := hp
          exact ⟨a, hmem a ha, rfl⟩
        · exact ⟨_, hlast, hp.symm⟩

/-- **The output directory mirrors what was sent.** An idle receiver gets files one after the other,
of each enough packets for its parity to make up for the rest, and UDP packets in between anywhere.
If nothing in the output directory is in the way of any of them, and their paths keep out of each
other's way, then it counts all of them and no failure, holds under each path the version that came
last, and still has every file delivered before whose path is apart from theirs. -/
theorem run_mirrors {env : Env} (henv : env.NoFaults) (hudp : env.udpForwardingEnabled = true)
    {arrivals : List Reception} (hsmall : ∀ a ∈ arrivals, a.1.Small)
    (htolerable : ∀ a ∈ arrivals, a.1.Tolerable env.toLibs a.2)
    (hspares : ∀ a ∈ arrivals, ∀ b ∈ arrivals, Spares a.1.path b.1.path) {wk : Worker}
    (hidle : wk.state = .new)
    (hun : ∀ a ∈ arrivals, Unobstructed env wk.world.fs a.1.path) {raws : List Bytes}
    (hraws : fileTraffic raws = arrivals.flatMap Prod.snd) :
    Mirrors env (arrivals.map Prod.fst) wk (run env wk raws) ∧
      ∀ q, Accepted q → (∀ a ∈ arrivals, Apart a.1.path q) →
        (run env wk raws).world.fs.contents (env.locate (env.finalPath q)) =
          wk.world.fs.contents (env.locate (env.finalPath q)) := by
  obtain ⟨hmirrors, halters⟩ := Mirrors.of_round henv hsmall htolerable hspares hidle hun
  obtain ⟨total, hrun⟩ := run_eq_withUdp hudp wk raws
  rw [hraws] at hrun
  rw [hrun]
  refine ⟨⟨hmirrors.idle, hmirrors.contents, hmirrors.tidy, hmirrors.filesTransferred,
    hmirrors.filesFailed⟩,
    fun q hq happart => halters.contents_finalPath hq ?_⟩
  rintro p ⟨a, ha, rfl⟩ -
  exact happart a ha

/-- What arrives of a file is file traffic. -/
theorem Transfer.Tolerable.fileTraffic_eq {libs : Libs} {t : Transfer} {raws : List Bytes}
    (ht : t.Small) (h : t.Tolerable libs raws) : fileTraffic raws = raws :=
  List.filter_eq_self.mpr fun _ hraw =>
    isFileTraffic_of_mem_emitted ht.length_lt (h.mem_emitted hraw)

/-- The other file can be sent. -/
theorem otherEmptied_small : otherEmptied.Small := ⟨⟨by decide, by decide⟩, by decide⟩

/-- What arrives of a file of one byte: a parity packet in place of its chunk. -/
noncomputable def restoredByte : List Bytes :=
  [oneByte.startPacket referenceLibs, oneByte.chunkPacket referenceLibs (.parity 0 0),
    oneByte.endPacket]

/-- Two versions of a file, of which parity restores a chunk each, and another file in between. -/
noncomputable def versions : List Reception :=
  [(oneByte, restoredByte), (otherEmptied, otherEmptied.emitted referenceLibs),
    (twoChunks, restoredChunk ++ [twoChunks.endPacket])]

/-- Something holds of each of the three transfers. -/
theorem forall_mem_versions {P : Reception → Prop} (hfirst : P (oneByte, restoredByte))
    (hother : P (otherEmptied, otherEmptied.emitted referenceLibs))
    (hlast : P (twoChunks, restoredChunk ++ [twoChunks.endPacket])) : ∀ a ∈ versions, P a :=
  List.forall_mem_cons.mpr ⟨hfirst, List.forall_mem_cons.mpr
    ⟨hother, List.forall_mem_singleton.mpr hlast⟩⟩

/-- All three files can be sent. -/
theorem versions_small : ∀ a ∈ versions, a.1.Small :=
  forall_mem_versions oneByte_small otherEmptied_small twoChunks_small

/-- Enough of each of them arrives. -/
theorem versions_tolerable : ∀ a ∈ versions, a.1.Tolerable referenceEnv.toLibs a.2 :=
  forall_mem_versions oneByte_tolerable (Transfer.tolerable_emitted _ otherEmptied_small)
    twoChunks_tolerable

/-- The transfers are under two paths. -/
theorem versions_path : ∀ a ∈ versions, a.1.path ∈ [['a'], ['b']] :=
  forall_mem_versions (by simp [oneByte]) (by simp [otherEmptied]) (by simp [twoChunks])

/-- The paths of the two files keep out of each other's way. -/
theorem versions_spares : ∀ a ∈ versions, ∀ b ∈ versions, Spares a.1.path b.1.path := by
  have hpaths : ∀ p ∈ [['a'], ['b']], ∀ q ∈ [['a'], ['b']], Spares p q := by decide
  exact fun a ha b hb => hpaths _ (versions_path a ha) _ (versions_path b hb)

/-- Nothing is in the way of either of them. -/
theorem versions_unobstructed :
    ∀ a ∈ versions, Unobstructed referenceEnv referenceTree a.1.path :=
  forall_mem_versions (referenceTree_unobstructed oneByte_small.accepted rfl)
    (referenceTree_unobstructed otherEmptied_small.accepted rfl)
    (referenceTree_unobstructed twoChunks_small.accepted rfl)

/-- The files on their way, with a datagram in between. -/
noncomputable def versionsRaws : List Bytes :=
  restoredByte ++ (udpFragments longDatagram ++
    (otherEmptied.emitted referenceLibs ++ (restoredChunk ++ [twoChunks.endPacket])))

/-- The file packets are those of the three transfers. -/
theorem fileTraffic_versionsRaws : fileTraffic versionsRaws = versions.flatMap Prod.snd := by
  have hfirst : fileTraffic restoredByte = restoredByte :=
    oneByte_tolerable.fileTraffic_eq oneByte_small
  rw [versionsRaws, fileTraffic_append, fileTraffic_append, fileTraffic_append, hfirst,
    (Transfer.tolerable_emitted _ otherEmptied_small).fileTraffic_eq otherEmptied_small,
    twoChunks_tolerable.fileTraffic_eq twoChunks_small, longDatagram_sendable.traffic.2, versions]
  simp only [List.flatMap_cons, List.flatMap_nil, List.append_nil, List.nil_append]

/-- Two versions of a file and another file, with a datagram in between. -/
theorem run_mirrors_versions :
    Mirrors referenceEnv [oneByte, otherEmptied, twoChunks] (.new referenceTree)
      (run referenceEnv (.new referenceTree) versionsRaws) :=
  (run_mirrors referenceEnv_noFaults rfl versions_small versions_tolerable versions_spares rfl
    versions_unobstructed fileTraffic_versionsRaws).1

end DataDiode
