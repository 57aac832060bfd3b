import DataDiode.Outcome
import DataDiode.Reference

/-!
# Repeated Control Packets

START and END packets are sent three times. The END packet of a transfer ends it, and finds no
transfer the next time. A START packet that opens a transfer is taken for a repetition of it from
then on; one that is refused for its path, or whose output file cannot be opened, leaves nothing
behind to tell a repetition by, and counts as another failed file every time.

The files that a receiver has to account for are those it has counted and the one in progress
(`Worker.accounted`). Chunks and END packets leave their number as it is, and a START packet adds
one to it unless it repeats the transfer in progress.

## Main results

* `newFile_accounted`, `finishFile_accounted`: the files accounted for, packet by packet.
* `run_replicate_start_iff`: which START packets may be repeated.
* `repeats_iff`: the same for both control packets and every run, and when a transfer is counted
  once.
-/

namespace DataDiode

open World

/-! ### The files accounted for -/

/-- The files counted as transferred or as failed. -/
def Worker.counted (wk : Worker) : ℕ := wk.stats.filesTransferred + wk.stats.filesFailed

/-- The files counted, and the one in progress. -/
def Worker.accounted (wk : Worker) : ℕ :=
  wk.counted + if wk.state.filePath.isSome then 1 else 0

/-- The transfer of another file that an announcement ends. -/
def Worker.displaced (wk : Worker) (path : Str) : ℕ :=
  if wk.state.filePath.isSome ∧ wk.state.filePath ≠ some path then 1 else 0

/-- Without a transfer in progress, those counted are accounted for. -/
theorem Worker.accounted_of_new {wk : Worker} (h : wk.state = .new) :
    wk.accounted = wk.counted := by
  rw [accounted, h]
  rfl

/-- A transfer in progress is accounted for, too. -/
theorem Worker.accounted_of_active {wk : Worker} (h : wk.state.filePath.isSome) :
    wk.accounted = wk.counted + 1 := by
  rw [accounted, if_pos h]

/-- What is counted and what is in progress, seen from an announced path. -/
theorem Worker.counted_add_displaced (wk : Worker) (path : Str) :
    wk.counted + wk.displaced path + 1 =
      wk.accounted + if wk.state.filePath = some path then 0 else 1 := by
  rw [displaced, accounted]
  cases hpath : wk.state.filePath with
  | none => simp
  | some p =>
      by_cases hp : p = path
      · simp [hp]
      · simp [hp]

/-- What does not end a transfer leaves the account as it is. -/
theorem SameTransfer.accounted {wk wk' : Worker} (h : SameTransfer wk wk') :
    wk'.accounted = wk.accounted := by
  rw [Worker.accounted, Worker.counted, h.filesTransferred, h.filesFailed, h.filePath]
  rfl

/-- The transfer in progress ends, and is counted. -/
theorem resetTransfer_counted (wk : Worker) (h : wk.state.filePath.isSome) (success : Bool) :
    (resetTransfer wk success).counted = wk.counted + 1 := by
  obtain ⟨p, hp⟩ := Option.isSome_iff_exists.mp h
  simp only [resetTransfer, hp]
  cases success with
  | true =>
      change wk.stats.filesTransferred + 1 + wk.stats.filesFailed = _
      rw [Worker.counted]
      omega
  | false => exact (Nat.add_assoc _ _ _).symm

/-- A transfer that is given up is counted. -/
theorem abandon_counted (env : Env) (wk : Worker) (h : wk.state.filePath.isSome) (p : Str) :
    (abandon env wk p).counted = wk.counted + 1 := by
  rw [Worker.counted, abandon_stats h]
  exact (Nat.add_assoc _ _ _).symm

/-- A file that is published is counted, whether it could be renamed or not. -/
theorem publish_counted (env : Env) (wk : Worker) (h : wk.state.filePath.isSome) (p : Str) :
    (publish env wk p).counted = wk.counted + 1 := by
  rw [publish]
  split
  · rename_i e w _
    exact abandon_counted env { wk with world := w.error _ } h p
  · rename_i w _
    exact resetTransfer_counted { wk with world := (w.logDigest env p).clearFailure env p } h true

/-- **An END packet** counts the transfer in progress. -/
theorem finishFile_accounted {env : Env} {wk : Worker} {p : Str}
    (hp : wk.state.filePath = some p) : (finishFile env wk).accounted = wk.accounted := by
  have hlast := finalizeLast_sameTransfer env wk p
  have hactive : (finalizeLast env wk p).state.filePath.isSome := by
    rw [hlast.filePath, hp]
    rfl
  rw [Worker.accounted_of_new (finishFile_state env hp), ← hlast.accounted,
    Worker.accounted_of_active hactive]
  simp only [finishFile, hp]
  split
  · exact abandon_counted env { finalizeLast env wk p with
      state := { (finalizeLast env wk p).state with output := none } } hactive p
  · exact publish_counted env { finalizeLast env wk p with
      state := { (finalizeLast env wk p).state with output := none } } hactive p

/-! ### Announcements -/

/-- The output file of an announced path can be opened, once the transfer in progress has been
given up and the old files of the path are removed. -/
def OutputOpens (env : Env) (wk : Worker) (path : Str) (size : ℕ) : Prop :=
  ∃ f w, ((preempt env wk).world.removeOld env path).openOutputFile env path size = (.ok f, w)

/-- The announcement repeats the transfer in progress or opens a transfer. -/
def Starts (env : Env) (wk : Worker) (path : Str) (size : ℕ) : Prop :=
  wk.state.filePath = some path ∨ Accepted path ∧ OutputOpens env wk path size

/-- Giving up the earlier transfer moves it from one part of the account to the other. -/
theorem preempt_accounted {env : Env} {wk : Worker} (h : wk.Inv env) :
    (preempt env wk).counted = wk.accounted := by
  rw [preempt]
  cases hprev : wk.state.filePath with
  | none => exact (Worker.accounted_of_new (h.idle hprev)).symm
  | some prev =>
      have hactive : wk.state.filePath.isSome := by
        rw [hprev]
        rfl
      rw [Worker.accounted_of_active hactive]
      exact abandon_counted env (wk.error _) hactive prev

/-- A START that is refused is counted. -/
theorem rejectStart_counted {wk : Worker} (h : wk.state = .new) (reason : String) (path : Str) :
    (rejectStart wk reason path).counted = wk.counted + 1 := by
  simp only [rejectStart, resetTransfer, Worker.error, h]
  exact (Nat.add_assoc _ _ _).symm

/-- A file that is opened is in progress, and one that cannot be opened is counted. -/
theorem openTransfer_accounted (env : Env) {wk : Worker} (h : wk.state = .new) (path : Str)
    (size : ℕ) (pathHash : Bytes) (parityPerBatch : ℕ) :
    (openTransfer env wk path size pathHash parityPerBatch).accounted = wk.counted + 1 := by
  rw [openTransfer]
  dsimp only
  split
  · rw [Worker.accounted]
    simp only [h]
    exact (Nat.add_assoc _ _ _).symm
  · exact Worker.accounted_of_active rfl

/-- **An announcement** that does not repeat the transfer in progress adds a file: the one it
opens, or a failed one. -/
theorem newFile_accounted {env : Env} {wk : Worker} (h : wk.Inv env) (path : Str) (size : ℕ)
    (pathHash : Bytes) (parityPerBatch : ℕ) :
    (newFile env wk path size pathHash parityPerBatch).accounted =
      wk.accounted + if wk.state.filePath = some path then 0 else 1 := by
  have hnew := preempt_state h
  rw [newFile, ← preempt_accounted h]
  split
  · exact (preempt_accounted h).symm
  dsimp only
  split
  · rw [Worker.accounted_of_new (rejectStart_state _ _ _), rejectStart_counted hnew]
  split
  · rw [Worker.accounted_of_new (rejectStart_state _ _ _), rejectStart_counted hnew]
  · exact openTransfer_accounted env hnew path size pathHash parityPerBatch

/-- An announcement that starts leaves its transfer in progress, any other one leaves none. -/
theorem newFile_filePath {env : Env} {wk : Worker} (h : wk.Inv env) (path : Str) (size : ℕ)
    (pathHash : Bytes) (parityPerBatch : ℕ) :
    (Starts env wk path size → (newFile env wk path size pathHash parityPerBatch).state.filePath =
        some path) ∧
      (¬Starts env wk path size →
        (newFile env wk path size pathHash parityPerBatch).state = .new) := by
  have hnew := preempt_state h
  rw [newFile]
  by_cases hsame : wk.state.filePath = some path
  · rw [if_pos hsame]
    exact ⟨fun _ => hsame, fun hnot => absurd (Or.inl hsame) hnot⟩
  rw [if_neg hsame]
  dsimp only
  by_cases hsafe : isSafeRelPath path = false
  · rw [if_pos hsafe]
    refine ⟨fun hstarts => ?_, fun _ => rejectStart_state _ _ _⟩
    rw [(hstarts.resolve_left hsame).1.1] at hsafe
    exact absurd hsafe (by simp)
  rw [if_neg hsafe]
  by_cases hnul : '\x00' ∈ path
  · rw [if_pos hnul]
    exact ⟨fun hstarts => absurd hnul (hstarts.resolve_left hsame).1.2,
      fun _ => rejectStart_state _ _ _⟩
  rw [if_neg hnul, openTransfer]
  dsimp only
  rw [← removeOld]
  split
  · rename_i e w heq
    refine ⟨fun hstarts => ?_, fun _ => hnew⟩
    obtain ⟨-, f, w', hopen⟩ := hstarts.resolve_left hsame
    rw [heq] at hopen
    exact absurd (Prod.mk.inj hopen).1 (by simp)
  · rename_i f w heq
    exact ⟨fun _ => rfl, fun hnot => absurd (Or.inr ⟨⟨by simpa using hsafe, hnul⟩, f, w, heq⟩) hnot⟩

/-! ### Packet by packet -/

/-- A datagram that is neither a START nor an END packet. -/
def NoControl (raw : Bytes) : Prop :=
  ∀ packet, decodePacket raw = some packet →
    packet.pkgType ≠ pkgTypeStart ∧ packet.pkgType ≠ pkgTypeEnd

/-- Chunks and forwarded packets keep the files accounted for. -/
theorem handlePacket_accounted {env : Env} {wk : Worker} {raw : Bytes} (h : NoControl raw) :
    (handlePacket env wk raw).accounted = wk.accounted := by
  rw [handlePacket]
  cases hdecode : decodePacket raw with
  | none => rfl
  | some packet =>
      obtain ⟨hstart, hend⟩ := h packet hdecode
      dsimp only
      rw [dispatch, if_neg hstart]
      split
      · exact (handleData_sameTransfer env wk packet).accounted
      split
      · exact (handleParity_sameTransfer env wk packet).accounted
      rw [if_neg fun hcond => hend hcond.1]
      split <;> rfl

/-- Without STARTs and ENDs nothing is counted. -/
theorem run_accounted {env : Env} {wk : Worker} {raws : List Bytes}
    (h : ∀ raw ∈ raws, NoControl raw) : (run env wk raws).accounted = wk.accounted := by
  induction raws generalizing wk with
  | nil => rfl
  | cons raw raws ih =>
      rw [run_cons, ih fun r hr => h r (List.mem_cons_of_mem _ hr),
        handlePacket_accounted (h raw List.mem_cons_self)]

/-- **An END packet** leaves no transfer in progress, and changes nothing if there is none. -/
theorem handlePacket_end (env : Env) (wk : Worker) {fin : Bytes} {packet : Packet}
    (hdecode : decodePacket fin = some packet) (hend : packet.pkgType = pkgTypeEnd) :
    (handlePacket env wk fin).state.filePath = none ∧
      (handlePacket env wk fin).accounted = wk.accounted ∧
      (wk.state.filePath = none → handlePacket env wk fin = wk) := by
  cases hprev : wk.state.filePath with
  | none =>
      have hsame : handlePacket env wk fin = wk := by
        rw [handlePacket, hdecode]
        change dispatch env wk packet = _
        rw [dispatch, hend, hprev]
        rfl
      exact ⟨by rw [hsame, hprev], by rw [hsame], fun _ => hsame⟩
  | some p =>
      rw [handlePacket_of_end hdecode hend hprev, finishFile_state env hprev,
        finishFile_accounted hprev]
      exact ⟨rfl, rfl, fun h => absurd h (by simp)⟩

/-- An END that is repeated is handled once. -/
theorem run_replicate_end {env : Env} {wk : Worker} {fin : Bytes} {packet : Packet}
    (hdecode : decodePacket fin = some packet) (hend : packet.pkgType = pkgTypeEnd) (k : ℕ) :
    run env wk (List.replicate (k + 1) fin) = handlePacket env wk fin := by
  induction k with
  | zero => rfl
  | succ k ih =>
      have hnone := (handlePacket_end env wk hdecode hend).1
      rw [List.replicate_succ', run_append, ih]
      exact (handlePacket_end env _ hdecode hend).2.2 hnone

/-! ### Repeated announcements -/

section Start

variable {env : Env} {wk : Worker} {start : Bytes} {packet : Packet}

/-- A START packet of the transfer in progress changes nothing. -/
theorem handlePacket_start_again (hdecode : decodePacket start = some packet)
    (hstart : packet.pkgType = pkgTypeStart)
    (hprev : wk.state.filePath = some (Utf8.fromUtf8Lossy packet.data)) :
    handlePacket env wk start = wk := by
  rw [handlePacket_of_start hdecode hstart, handleStart, newFile, if_pos hprev]

/-- **A START packet that starts** may be repeated. -/
theorem run_replicate_start (hinv : wk.Inv env) (hdecode : decodePacket start = some packet)
    (hstart : packet.pkgType = pkgTypeStart)
    (hstarts : Starts env wk (Utf8.fromUtf8Lossy packet.data) packet.count) (k : ℕ) :
    run env wk (List.replicate (k + 1) start) = handlePacket env wk start := by
  induction k with
  | zero => rfl
  | succ k ih =>
      rw [List.replicate_succ', run_append, ih]
      refine handlePacket_start_again hdecode hstart ?_
      rw [handlePacket_of_start hdecode hstart]
      exact (newFile_filePath hinv _ _ _ _).1 hstarts

/-- **A START packet** that does not repeat the transfer in progress adds a file. -/
theorem handlePacket_start_accounted (hinv : wk.Inv env)
    (hdecode : decodePacket start = some packet) (hstart : packet.pkgType = pkgTypeStart) :
    (handlePacket env wk start).accounted = wk.accounted +
      if wk.state.filePath = some (Utf8.fromUtf8Lossy packet.data) then 0 else 1 := by
  rw [handlePacket_of_start hdecode hstart, handleStart, newFile_accounted hinv]

/-- A START packet does not lower the number of files accounted for. -/
theorem le_accounted_run_start (hinv : wk.Inv env) (hdecode : decodePacket start = some packet)
    (hstart : packet.pkgType = pkgTypeStart) (k : ℕ) :
    wk.accounted ≤ (run env wk (List.replicate k start)).accounted := by
  induction k generalizing wk with
  | zero => exact le_rfl
  | succ k ih =>
      have hstep : wk.accounted ≤ (handlePacket env wk start).accounted := by
        rw [handlePacket_start_accounted hinv hdecode hstart]
        exact Nat.le_add_right _ _
      exact hstep.trans (ih (hinv.handlePacket start).1)

/-- **A START packet that does not start** adds a file each of the first two times. -/
theorem add_two_le_accounted_run_start (hinv : wk.Inv env)
    (hdecode : decodePacket start = some packet) (hstart : packet.pkgType = pkgTypeStart)
    (hnot : ¬Starts env wk (Utf8.fromUtf8Lossy packet.data) packet.count) (k : ℕ) :
    wk.accounted + 2 ≤ (run env wk (List.replicate (k + 2) start)).accounted ∧
      (handlePacket env wk start).accounted = wk.accounted + 1 := by
  have hinv₁ := (hinv.handlePacket start).1
  have hfirst : (handlePacket env wk start).accounted = wk.accounted + 1 := by
    rw [handlePacket_start_accounted hinv hdecode hstart, if_neg fun h => hnot (Or.inl h)]
  have hnew : (handlePacket env wk start).state = .new := by
    rw [handlePacket_of_start hdecode hstart]
    exact (newFile_filePath hinv _ _ _ _).2 hnot
  have hsecond : (handlePacket env (handlePacket env wk start) start).accounted =
      wk.accounted + 2 := by
    rw [handlePacket_start_accounted hinv₁ hdecode hstart, hfirst, hnew]
    rfl
  have hrest := le_accounted_run_start (hinv₁.handlePacket start).1 hdecode hstart k
  rw [hsecond] at hrest
  exact ⟨hrest, hfirst⟩

end Start

/-! ### Every run -/

/-- The same state, the same counters and the same files. -/
structure SameOutcome (wk wk' : Worker) : Prop where
  state : wk.state = wk'.state
  stats : wk.stats = wk'.stats
  fs : wk.world.fs = wk'.world.fs

/-- The same worker has the same outcome. -/
theorem SameOutcome.of_eq {wk wk' : Worker} (h : wk = wk') : SameOutcome wk wk' :=
  ⟨by rw [h], by rw [h], by rw [h]⟩

/-- The account is part of the outcome. -/
theorem SameOutcome.accounted {wk wk' : Worker} (h : SameOutcome wk wk') :
    wk.accounted = wk'.accounted := by
  rw [Worker.accounted, Worker.counted, h.state, h.stats]
  rfl

/-- **Which control packets may be repeated**, in every state of every run: END packets, and
exactly those START packets that start. And just for these a transfer announced more than once is
counted once, whatever chunks arrive between its START and END packets. -/
theorem repeats_iff (env : Env) (fs : Tree) (raws : List Bytes) (wk : Worker) (start fin : Bytes)
    (packet packet' : Packet) (hwk : wk = run env (.new fs) raws)
    (hdecode : decodePacket start = some packet) (hstart : packet.pkgType = pkgTypeStart)
    (hdecode' : decodePacket fin = some packet') (hend : packet'.pkgType = pkgTypeEnd) :
    (∀ k, 1 ≤ k →
      SameOutcome (run env wk (List.replicate k fin)) (handlePacket env wk fin)) ∧
    ((∀ k, 1 ≤ k →
        SameOutcome (run env wk (List.replicate k start)) (handlePacket env wk start)) ↔
      Starts env wk (Utf8.fromUtf8Lossy packet.data) packet.count) ∧
    ∀ k m mid, 2 ≤ k → 1 ≤ m → (∀ raw ∈ mid, NoControl raw) →
      ((run env wk (List.replicate k start ++ mid ++ List.replicate m fin)).counted =
          wk.counted + wk.displaced (Utf8.fromUtf8Lossy packet.data) + 1 ↔
        Starts env wk (Utf8.fromUtf8Lossy packet.data) packet.count) := by
  have hinv : wk.Inv env := hwk ▸ Worker.Inv.run (.of_new rfl) raws
  refine ⟨fun k hk => ?_, ⟨fun h => ?_, fun hstarts k hk => ?_⟩, fun k m mid hk hm hmid => ?_⟩
  · obtain ⟨k, rfl⟩ := Nat.exists_eq_add_of_le' hk
    exact .of_eq (run_replicate_end hdecode' hend k)
  · by_contra hnot
    obtain ⟨hle, hfirst⟩ := add_two_le_accounted_run_start hinv hdecode hstart hnot 0
    rw [Nat.zero_add, (h 2 (by decide)).accounted, hfirst] at hle
    omega
  · obtain ⟨k, rfl⟩ := Nat.exists_eq_add_of_le' hk
    exact .of_eq (run_replicate_start hinv hdecode hstart hstarts k)
  · obtain ⟨k, rfl⟩ := Nat.exists_eq_add_of_le' hk
    obtain ⟨m, rfl⟩ := Nat.exists_eq_add_of_le' hm
    rw [run_append, run_append, run_replicate_end hdecode' hend]
    obtain ⟨hnone, haccounted, -⟩ := handlePacket_end env
      (run env (run env wk (List.replicate (k + 2) start)) mid) hdecode' hend
    have hcounted : (handlePacket env (run env (run env wk (List.replicate (k + 2) start)) mid)
        fin).counted = (run env wk (List.replicate (k + 2) start)).accounted := by
      rw [← run_accounted hmid, ← haccounted, Worker.accounted, hnone]
      rfl
    rw [hcounted, wk.counted_add_displaced]
    constructor
    · intro heq
      by_contra hnot
      obtain ⟨hle, -⟩ := add_two_le_accounted_run_start hinv hdecode hstart hnot k
      rw [heq, if_neg fun h => hnot (Or.inl h)] at hle
      omega
    · intro hstarts
      rw [run_replicate_start hinv hdecode hstart hstarts,
        handlePacket_start_accounted hinv hdecode hstart]

/-- The START packet of a file of one byte. -/
def announcement (path : Bytes) : Bytes :=
  encodePacket pkgTypeStart 1 emptyHash (encodeParityField 100) path

/-- A START packet that is refused for its path counts as a failed file every time. -/
theorem run_refused_again :
    (handlePacket referenceEnv (.new referenceTree) (announcement [46, 46])).stats.filesFailed = 1 ∧
      (run referenceEnv (.new referenceTree)
        (List.replicate 2 (announcement [46, 46]))).stats.filesFailed = 2 ∧
      (run referenceEnv (.new referenceTree) (List.replicate 3 (announcement [46, 46]) ++
        List.replicate 3 (encodePacket pkgTypeEnd 1 emptyHash emptyHash [46, 46]))).counted = 3 ∧
      ¬∀ k, 1 ≤ k → SameOutcome
        (run referenceEnv (.new referenceTree) (List.replicate k (announcement [46, 46])))
        (handlePacket referenceEnv (.new referenceTree) (announcement [46, 46])) := by
  have hfacts : (handlePacket referenceEnv (.new referenceTree)
        (announcement [46, 46])).stats.filesFailed = 1 ∧
      (run referenceEnv (.new referenceTree)
        (List.replicate 2 (announcement [46, 46]))).stats.filesFailed = 2 ∧
      (run referenceEnv (.new referenceTree) (List.replicate 3 (announcement [46, 46]) ++
        List.replicate 3 (encodePacket pkgTypeEnd 1 emptyHash emptyHash [46, 46]))).counted =
          3 := by
    decide
  obtain ⟨hone, htwo, hthree⟩ := hfacts
  refine ⟨hone, htwo, hthree, fun h => ?_⟩
  rw [(h 2 (by decide)).stats, hone] at htwo
  exact absurd htwo (by decide)

/-- A file announced three times is counted once. -/
theorem repeats_iff_a :
    (run referenceEnv (.new referenceTree) (List.replicate 3 (announcement [97]) ++ [] ++
        List.replicate 3 (encodePacket pkgTypeEnd 1 emptyHash emptyHash [97]))).counted =
        (Worker.new referenceTree).counted +
          (Worker.new referenceTree).displaced (Utf8.fromUtf8Lossy [97]) + 1 ↔
      Starts referenceEnv (.new referenceTree) (Utf8.fromUtf8Lossy [97]) 1 :=
  (repeats_iff referenceEnv referenceTree [] (.new referenceTree) (announcement [97])
    (encodePacket pkgTypeEnd 1 emptyHash emptyHash [97])
    ⟨pkgTypeStart, 1, emptyHash, encodeParityField 100, [97]⟩
    ⟨pkgTypeEnd, 1, emptyHash, emptyHash, [97]⟩ rfl
    (decodePacket_encodePacket _ (by decide) (by decide) (by decide) (by decide)) rfl
    (decodePacket_encodePacket _ (by decide) (by decide) (by decide) (by decide)) rfl).2.2 3 3 []
    (by decide) (by decide) (by simp)

end DataDiode
