import DataDiode.Stream

/-!
# Delivered Files and Later Transfers

The receiver keeps its own files next to the delivered ones: `p.partial` while `p` is received,
`p.failed` after a failure. A later transfer of `p` disturbs a delivered file only if one of
these three names is the name of that file.

## Main results

* `Apart.ne`: files apart are at different locations.
* `run_contents_kept`: whatever arrives, and whatever fails, leaves a delivered file alone that
  is apart from every announced one.
* `run_contents_lost`: a delivered file `a.failed` is removed by the START of a file `a`.
-/

namespace DataDiode

open UnixPath

/-- The three files of a transfer of `p` have other names than the file `q`. -/
def Apart (p q : Str) : Prop :=
  names p ≠ names q ∧ partialNames p ≠ names q ∧ failedNames p ≠ names q

/-- The names of both paths decide it. -/
instance (p q : Str) : Decidable (Apart p q) := inferInstanceAs (Decidable (_ ∧ _))

/-- The files of a transfer of `p` are elsewhere than the file `q`. -/
theorem Apart.ne {env : Env} {p q : Str} (h : Apart p q) (hp : Accepted p) (hq : Accepted q)
    {r : Path} (hr : r = env.finalPath p ∨ r = env.partialPath p ∨ r = env.failedPath p) :
    env.locate r ≠ env.locate (env.finalPath q) := by
  obtain ⟨hfinal, hpart, hfailed⟩ := h
  rcases hr with rfl | rfl | rfl
  · rw [hp.locate_finalPath, hq.locate_finalPath]
    exact fun heq => hfinal (List.append_cancel_left heq)
  · rw [hp.locate_partialPath, hq.locate_finalPath]
    exact fun heq => hpart (List.append_cancel_left heq)
  · rw [hp.locate_failedPath, hq.locate_finalPath]
    exact fun heq => hfailed (List.append_cancel_left heq)

/-- A call about a file changes none but its three files. -/
theorem About.target {env : Env} {p : Str} {c : FsCall} (h : About env p c) {r : Path}
    (hr : r ∈ c.targets) : r = env.finalPath p ∨ r = env.partialPath p ∨ r = env.failedPath p := by
  cases c with
  | createDirAll | seek | openRead | read | metadata => exact absurd hr List.not_mem_nil
  | openWrite | setLen | write | removeFile | rename => exact h r hr

/-- **Delivered files are left alone**: from any reachable state, whatever arrives and whatever
the operating system fails, a file keeps its contents if the files of every transfer in
progress or announced are apart from it. -/
theorem run_contents_kept {env : Env} {fs : Tree} {before raws : List Bytes} {wk : Worker}
    (hwk : wk = run env (.new fs) before) {q : Str} (hq : Accepted q) {contents : Bytes}
    (hcontents : wk.world.fs.contents (env.locate (env.finalPath q)) = some contents)
    (happart : ∀ p, Accepted p → (wk.state.filePath = some p ∨ ∃ raw ∈ raws, Announces raw p) →
      Apart p q) :
    (run env wk raws).world.fs.contents (env.locate (env.finalPath q)) = some contents := by
  have hinv : wk.Inv env := by
    rw [hwk]
    exact (Worker.Inv.of_new rfl).run before
  obtain ⟨new, -, hnew, hframe⟩ := run_steps hinv raws
  rw [hframe _ fun r hr => ?_, hcontents]
  obtain ⟨c, hc, hr⟩ := List.mem_flatMap.mp hr
  obtain ⟨p, hannounced, hp, habout⟩ := hnew c hc
  exact (happart p hp hannounced).ne hp hq (habout.target hr)

/-- The packets of a file announce the file and nothing else. -/
theorem Transfer.announces_of_mem_emitted {libs : Libs} {t : Transfer}
    (ht : t.contents.length < countBound) {raw : Bytes} (hraw : raw ∈ t.emitted libs) {p : Str}
    (h : Announces raw p) : p = t.path := by
  obtain ⟨packet, hdecode, hstart, rfl⟩ := h
  rw [t.emitted_eq, List.mem_append, List.mem_append] at hraw
  rcases hraw with (hraw | hraw) | hraw
  · rw [List.eq_of_mem_replicate hraw, decodePacket_startPacket libs ht,
      Option.some.injEq] at hdecode
    rw [← hdecode]
    exact Utf8.fromUtf8Lossy_encode t.path
  · obtain ⟨c, hc, rfl⟩ := (mem_chunkPackets_iff libs).mp hraw
    rw [decodePacket_chunkPacket libs hc ht, Option.some.injEq] at hdecode
    have htype : (t.chunk libs c).pkgType = pkgTypeStart := hdecode ▸ hstart
    exact absurd htype (Transfer.pkgType_chunk_ne libs c (by decide) (by decide))
  · rw [List.eq_of_mem_replicate hraw, decodePacket_endPacket ht, Option.some.injEq] at hdecode
    have htype : t.finish.pkgType = pkgTypeStart := hdecode ▸ hstart
    exact absurd htype (by decide : ¬pkgTypeEnd = pkgTypeStart)

/-- An empty file whose name is that of a failure marker. -/
def markerFile : Transfer := ⟨['a', '.', 'f', 'a', 'i', 'l', 'e', 'd'], []⟩

/-- **A delivered file that is lost**: a file `a.failed` has been delivered, and the START of a
file `a` removes it. -/
theorem run_contents_lost :
    Accepted markerFile.path ∧ Accepted emptied.path ∧ emptied.path ≠ markerFile.path ∧
      (run referenceEnv (.new referenceTree)
        (markerFile.emitted referenceEnv.toLibs)).stats = ⟨1, 0, 0⟩ ∧
      (run referenceEnv (.new referenceTree)
        (markerFile.emitted referenceEnv.toLibs)).world.fs.contents
          (referenceEnv.locate (referenceEnv.finalPath markerFile.path)) = some [] ∧
      (run referenceEnv (run referenceEnv (.new referenceTree)
        (markerFile.emitted referenceEnv.toLibs))
          [emptied.startPacket referenceEnv.toLibs]).world.fs.contents
            (referenceEnv.locate (referenceEnv.finalPath markerFile.path)) = none := by
  have hemitted : markerFile.emitted referenceEnv.toLibs =
      List.replicate controlResend (markerFile.startPacket referenceEnv.toLibs) ++
        List.replicate controlResend markerFile.endPacket := by
    rw [markerFile.emitted_eq]
    rfl
  rw [hemitted]
  exact ⟨⟨by decide, by decide⟩, accepted_a, by decide, by decide +kernel, by decide,
    by decide⟩

/-- A file `a` outlives a transfer of a file `b`. -/
theorem run_contents_kept_emptied :
    (run referenceEnv (run referenceEnv (.new referenceTree)
        [emptied.startPacket referenceEnv.toLibs, emptied.endPacket])
          (otherEmptied.emitted referenceEnv.toLibs)).world.fs.contents
            (referenceEnv.locate (referenceEnv.finalPath ['a'])) = some [] := by
  refine run_contents_kept rfl accepted_a (by decide) fun p _ hp => ?_
  rcases hp with hp | ⟨raw, hraw, hp⟩
  · have hidle : (run referenceEnv (.new referenceTree)
        [emptied.startPacket referenceEnv.toLibs, emptied.endPacket]).state.filePath = none := by
      decide
    exact absurd (hidle.symm.trans hp).symm (Option.some_ne_none p)
  · rw [Transfer.announces_of_mem_emitted (by decide) hraw hp]
    decide

end DataDiode
