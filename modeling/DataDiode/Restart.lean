import DataDiode.Sessions

/-!
# A Receiver That Is Started Again

The receiver is a service that is started again whenever it fails. What is left of its life before
is the tree: a file under reception, a marker, a directory. Each life gets some datagrams, and has
failures of its own; a receiver that is killed is one whose calls all fail from some point on.

## Main results

* `lives_received`: however often the receiver starts again, there are no wrong bytes under the
  name of a file.
* `restart_mirrors`: what the lives before have left does not stop a later one from receiving.
-/

namespace DataDiode

open UnixPath

/-- The environment with other failures. -/
def Env.failing (env : Env) (faults : ℕ → FsCall → Option Fault) : Env := { env with faults }

/-- One life of the receiver: what the operating system fails, and the datagrams that arrive. -/
structure Life where
  faults : ℕ → FsCall → Option Fault
  raws : List Bytes

/-- The tree after a life that began with the tree `fs`. -/
def Env.live (env : Env) (fs : Tree) (life : Life) : Tree :=
  (run (env.failing life.faults) (.new fs) life.raws).world.fs

/-- The tree after several lives. -/
def Env.lives (env : Env) (fs : Tree) (lives : List Life) : Tree := lives.foldl env.live fs

section Lives

variable {env : Env} {fs : Tree}

/-- One life more. -/
theorem Env.lives_concat (lives : List Life) (life : Life) :
    env.lives fs (lives ++ [life]) = env.live (env.lives fs lives) life := by
  rw [Env.lives, List.foldl_append, List.foldl_cons, List.foldl_nil]
  rfl

/-- **No wrong bytes, however often the receiver is started again.** Each life gets packets of
several files, in whatever order, however often, mixed with any datagrams that are no packets of a
file, and in each the operating system fails whatever it fails. Then a file under its name is the
one from before the first life, or it has been received in one of them, but for zeros in place of
the batches after some batch; and the batches up to there could be restored from what arrived in
that life. -/
theorem lives_received {ts : List Transfer} (hs : Session env.toLibs ts) {lives : List Life}
    (hraws : ∀ life ∈ lives, ∀ raw ∈ life.raws,
      Unrelated raw ∨ ∃ t ∈ ts, raw ∈ t.emitted env.toLibs) {t : Transfer} (ht : t ∈ ts) {c : Bytes}
    (hc : (env.lives fs lives).contents (env.locate (env.finalPath t.path)) = some c) :
    fs.contents (env.locate (env.finalPath t.path)) = some c ∨
      ∃ life ∈ lives, ∃ b, c = t.filled ((b + 1) * batchDataChunks) ∧
        ∀ b' ≤ b, t.Restorable env.toLibs b' life.raws := by
  induction lives using List.reverseRecOn with
  | nil => exact Or.inl hc
  | append_singleton lives life ih =>
      rw [Env.lives_concat] at hc
      rcases run_received (env.failing life.faults) hs rfl (hraws life (by simp)) ht hc with
        hbefore | ⟨b, hreceived⟩
      · have hfront := fun life' hlife' => hraws life' (List.mem_append_left _ hlife')
        refine (ih hfront hbefore).imp_right fun hearlier => ?_
        obtain ⟨life', hlife', hreceived⟩ := hearlier
        exact ⟨life', List.mem_append_left _ hlife', hreceived⟩
      · exact Or.inr ⟨life, by simp, b, hreceived⟩

/-- The footprint of several lives. -/
theorem lives_alters (env : Env) (fs : Tree) (lives : List Life) :
    Alters (env.FilesOf fun p => ∃ life ∈ lives, ∃ raw ∈ life.raws, Announces raw p)
      (env.WaysOf fun p => ∃ life ∈ lives, ∃ raw ∈ life.raws, Announces raw p)
      fs (env.lives fs lives) := by
  induction lives using List.reverseRecOn with
  | nil => exact .refl _ _ _
  | append_singleton lives life ih =>
      rw [Env.lives_concat]
      have hinv : (Worker.new (env.lives fs lives)).Inv (env.failing life.faults) := .of_new rfl
      have hlife : Alters (env.FilesOf _) (env.WaysOf _) (env.lives fs lives)
          (env.live (env.lives fs lives) life) := run_alters hinv life.raws
      refine (ih.of_paths fun p hp => ?_).trans (hlife.of_paths fun p hp => ?_)
      · obtain ⟨life', hlife', hannounced⟩ := hp
        exact ⟨life', List.mem_append_left _ hlife', hannounced⟩
      · exact ⟨life, by simp, hp.resolve_left (by simp [Worker.new, ReceiveState.new])⟩

/-- **Nothing that was left behind stops a later life.** Whatever arrived before and whatever the
operating system failed, as long as no accepted path that was announced is in the way of the files
of a round, nor they in its way: a life without failures delivers the files of the round, and every
file delivered before the first life whose path is apart from all of them is still there. -/
theorem restart_mirrors (henv : env.NoFaults) (hudp : env.udpForwardingEnabled = true)
    {arrivals : List Reception} (hsmall : ∀ a ∈ arrivals, a.1.Small)
    (htolerable : ∀ a ∈ arrivals, a.1.Tolerable env.toLibs a.2)
    (hspares : ∀ a ∈ arrivals, ∀ b ∈ arrivals, Spares a.1.path b.1.path)
    (hun : ∀ a ∈ arrivals, Unobstructed env fs a.1.path) {lives : List Life}
    (hway : ∀ life ∈ lives, ∀ raw ∈ life.raws, ∀ p, Announces raw p → Accepted p →
      ∀ a ∈ arrivals, OffTheWay p a.1.path ∧ OffTheWay a.1.path p) {raws : List Bytes}
    (hraws : fileTraffic raws = arrivals.flatMap Prod.snd) :
    let start := Worker.new (env.lives fs lives)
    Mirrors env (arrivals.map Prod.fst) start (run env start raws) ∧
      ∀ q, Accepted q → (∀ a ∈ arrivals, Apart a.1.path q) →
        (∀ life ∈ lives, ∀ raw ∈ life.raws, ∀ p, Announces raw p → Accepted p → Apart p q) →
        (run env start raws).world.fs.contents (env.locate (env.finalPath q)) =
          fs.contents (env.locate (env.finalPath q)) := by
  intro start
  have hlives := lives_alters env fs lives
  have hready : ∀ a ∈ arrivals, Unobstructed env start.world.fs a.1.path := by
    refine fun a ha => hlives.unobstructed (hsmall a ha).accepted ?_ (hun a ha)
    rintro p ⟨life, hlife, raw, hraw, hp⟩ hacc
    exact hway life hlife raw hraw p hp hacc a ha
  obtain ⟨hmirrors, halters⟩ := Mirrors.of_round henv hsmall htolerable hspares rfl hready
  obtain ⟨total, hrun⟩ := run_eq_withUdp hudp start raws
  rw [hraws] at hrun
  rw [hrun]
  refine ⟨⟨hmirrors.idle, hmirrors.contents, hmirrors.tidy, hmirrors.filesTransferred,
      hmirrors.filesFailed⟩,
    fun q hq hround hbefore => ?_⟩
  have hthen := halters.contents_finalPath hq (by
    rintro p ⟨a, ha, rfl⟩ -
    exact hround a ha)
  refine hthen.trans (hlives.contents_finalPath hq ?_)
  rintro p ⟨life, hlife, raw, hraw, hp⟩ hacc
  exact hbefore life hlife raw hraw p hp hacc

end Lives

/-! ### A receiver that is killed -/

/-- From the `n`-th call on, nothing is done any more. -/
def killedAt (n : ℕ) : ℕ → FsCall → Option Fault := fun k _ =>
  if n ≤ k then some ⟨.os 4, 0⟩ else none

/-- The receiver is killed while it opens a file of one byte. In its next life the file arrives, and
is published by the END of another one. -/
noncomputable def killedWhileOpening : List Life :=
  [⟨killedAt 5, [oneByte.startPacket referenceLibs]⟩,
    ⟨killedAt 100, [oneByte.startPacket referenceLibs, oneByte.chunkPacket referenceLibs (.data 0),
      otherEmptied.endPacket]⟩]

/-- Every life gets packets of the two files. -/
theorem killedWhileOpening_emitted : ∀ life ∈ killedWhileOpening, ∀ raw ∈ life.raws,
    ∃ t ∈ [oneByte, otherEmptied], raw ∈ t.emitted referenceLibs := by
  have hstart : oneByte.startPacket referenceLibs ∈ oneByte.emitted referenceLibs := by
    rw [oneByte.emitted_eq_cons]
    exact List.mem_cons_self
  have hchunk : oneByte.chunkPacket referenceLibs (.data 0) ∈ oneByte.emitted referenceLibs := by
    have hthere : oneByte.HasChunk (.data 0) := (by decide : 0 < oneByte.chunkCount)
    rw [oneByte.emitted_eq]
    exact List.mem_append_left _ (List.mem_append_right _
      ((Transfer.mem_chunkPackets_iff referenceLibs).mpr ⟨_, hthere, rfl⟩))
  have hend : otherEmptied.endPacket ∈ otherEmptied.emitted referenceLibs := by
    rw [otherEmptied.emitted_eq]
    exact List.mem_append_right _ List.mem_cons_self
  refine List.forall_mem_cons.mpr ⟨?_, List.forall_mem_singleton.mpr ?_⟩
  · exact List.forall_mem_singleton.mpr ⟨oneByte, by simp, hstart⟩
  · exact List.forall_mem_cons.mpr ⟨⟨oneByte, by simp, hstart⟩, List.forall_mem_cons.mpr
      ⟨⟨oneByte, by simp, hchunk⟩, List.forall_mem_singleton.mpr ⟨otherEmptied, by simp, hend⟩⟩⟩

/-- The two files. -/
theorem session_oneByte : Session referenceLibs [oneByte, otherEmptied] := by
  have hboth : ∀ {P : Transfer → Prop}, P oneByte → P otherEmptied →
      ∀ t ∈ [oneByte, otherEmptied], P t :=
    fun h h' => List.forall_mem_cons.mpr ⟨h, List.forall_mem_singleton.mpr h'⟩
  have hdigests : oneByte.pathHash referenceLibs ≠ otherEmptied.pathHash referenceLibs := by
    decide +kernel
  exact ⟨hboth oneByte_small otherEmptied_small,
    hboth (hboth (fun h => absurd rfl h) fun _ => hdigests)
      (hboth (fun _ => hdigests.symm) fun h => absurd rfl h),
    hboth (hboth (by decide) (by decide)) (hboth (by decide) (by decide))⟩

/-- The first file after both lives: its byte, of which enough arrived in one of them. -/
theorem lives_received_killed :
    (referenceEnv.lives referenceTree killedWhileOpening).contents
        (referenceEnv.locate (referenceEnv.finalPath oneByte.path)) = some [42] ∧
      (referenceTree.contents
          (referenceEnv.locate (referenceEnv.finalPath oneByte.path)) = some [42] ∨
        ∃ life ∈ killedWhileOpening, ∃ b, [42] = oneByte.filled ((b + 1) * batchDataChunks) ∧
          ∀ b' ≤ b, oneByte.Restorable referenceEnv.toLibs b' life.raws) := by
  have hc : (referenceEnv.lives referenceTree killedWhileOpening).contents
      (referenceEnv.locate (referenceEnv.finalPath oneByte.path)) = some [42] := by
    decide +kernel
  exact ⟨hc, lives_received session_oneByte
    (fun life hlife raw hraw => Or.inr (killedWhileOpening_emitted life hlife raw hraw))
    List.mem_cons_self hc⟩

/-- A round after that. -/
theorem restart_mirrors_killed :
    Mirrors referenceEnv [oneByte, otherEmptied, twoChunks]
      (.new (referenceEnv.lives referenceTree killedWhileOpening))
      (run referenceEnv (.new (referenceEnv.lives referenceTree killedWhileOpening))
        versionsRaws) := by
  have hway : ∀ p ∈ [['a'], ['b']], ∀ a ∈ versions,
      OffTheWay p a.1.path ∧ OffTheWay a.1.path p := by
    refine List.forall_mem_cons.mpr ⟨?_, List.forall_mem_singleton.mpr ?_⟩
    · exact forall_mem_versions (by decide) (by decide) (by decide)
    · exact forall_mem_versions (by decide) (by decide) (by decide)
  refine (restart_mirrors referenceEnv_noFaults rfl versions_small versions_tolerable
    versions_spares versions_unobstructed ?_ fileTraffic_versionsRaws).1
  intro life hlife raw hraw p hp _
  obtain ⟨t, ht, hemitted⟩ := killedWhileOpening_emitted life hlife raw hraw
  refine hway p ?_
  rcases List.mem_pair.mp ht with rfl | rfl
  · rw [Transfer.announces_of_mem_emitted oneByte_small.length_lt hemitted hp]
    exact List.mem_cons_self
  · rw [Transfer.announces_of_mem_emitted otherEmptied_small.length_lt hemitted hp]
    exact List.mem_cons_of_mem _ List.mem_cons_self

end DataDiode
