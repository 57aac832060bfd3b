import DataDiode.Outcome

/-!
# After a Panic

The receiver as a process: the data behind the two mutexes of the worker thread, their poison
flags, and whether the thread is running. A panic of a handler unwinds the closure of the thread,
and with it the packet loop; it poisons both mutexes, whose guards the handler holds. `main` waits
for the thread and returns after it, so nothing takes packets from the queue any more.

The recovery in front of the handlers (`lockState`, `lockStats`) would find the poison on the next
packet. Taking the data out of a poisoned guard does not clear the flag, and neither does dropping
the guard, so a thread that did go on would reset the state again on every packet.

## Main results

* `Process.run_datagrams`: without a panic the process is the worker loop.
* `Process.run_of_dead`: after a panic no event changes anything.
* `Process.run_of_poisoned`: behind a poisoned lock no transfer is ever completed.
* `panic_not_recovered`: no panic is recovered from.
-/

namespace DataDiode

open World

/-- The receiver process: the worker's data, the poison flags of the mutexes on its state and on
its counters, whether the worker thread is running, and the datagrams it has handled. -/
structure Process where
  worker : Worker
  statePoisoned : Bool
  statsPoisoned : Bool
  alive : Bool
  handled : List Bytes

/-- What happens to the process: a datagram is handled, or its handler panics and leaves the data
and the world as they are at that point. -/
inductive Event
  | datagram (raw : Bytes)
  | panic (raw : Bytes) (left : Worker)

namespace Process

/-- The process at its start. -/
def new (fs : Tree) : Process := ⟨.new fs, false, false, true, []⟩

/-- Lock the state. A poisoned lock resets the transfer in progress and removes the file under
reception; the flag stays, so that locking it again takes the data out of the guard once more. -/
def lockState (env : Env) (r : Process) : Process :=
  if r.statePoisoned then
    let wk := r.worker.error [.lit "State lock poisoned (a prior handler panicked); ",
      .lit "resetting in-flight transfer and dropping this packet"]
    let w :=
      match wk.state.filePath with
      | some p => (wk.world.removeFile env (env.partialPath p)).2
      | none => wk.world
    { r with
      worker := { wk with state := .new, world := w }.error
        [.lit "Re-locked a still-poisoned lock (should be unreachable)"] }
  else r

/-- Lock the counters. -/
def lockStats (r : Process) : Process :=
  if r.statsPoisoned then
    { r with
      worker := (r.worker.error [.lit "Stats lock poisoned; recovering"]).error
        [.lit "Re-locked a still-poisoned stats lock (should be unreachable)"] }
  else r

/-- One turn of the worker thread, as long as it is running. -/
def step (env : Env) (r : Process) : Event → Process
  | .datagram raw =>
      if r.alive then
        match decodePacket raw with
        | none =>
            { r with
              worker := r.worker.error [.lit "Failed to decode packet"]
              handled := r.handled ++ [raw] }
        | some packet =>
            let r := (r.lockState env).lockStats
            { r with
              worker := dispatch env r.worker packet
              handled := r.handled ++ [raw] }
      else r
  | .panic _ left =>
      if r.alive then
        { r with worker := left, statePoisoned := true, statsPoisoned := true, alive := false }
      else r

/-- The process on a sequence of events. -/
def run (env : Env) (r : Process) (events : List Event) : Process := events.foldl (step env) r

/-- One event, and the others. -/
theorem run_cons (env : Env) (r : Process) (event : Event) (events : List Event) :
    r.run env (event :: events) = (r.step env event).run env events := rfl

/-! ### Without a panic -/

/-- The process that has run without a panic. -/
def ofWorker (wk : Worker) (handled : List Bytes) : Process := ⟨wk, false, false, true, handled⟩

/-- Without poison, one turn is one turn of the worker loop. -/
theorem step_ofWorker (env : Env) (wk : Worker) (handled : List Bytes) (raw : Bytes) :
    (ofWorker wk handled).step env (.datagram raw) =
      ofWorker (handlePacket env wk raw) (handled ++ [raw]) := by
  rw [step, handlePacket]
  cases decodePacket raw <;> rfl

/-- **Without a panic** the process is the worker loop. -/
theorem run_datagrams (env : Env) (wk : Worker) (handled raws : List Bytes) :
    (ofWorker wk handled).run env (raws.map .datagram) =
      ofWorker (DataDiode.run env wk raws) (handled ++ raws) := by
  induction raws generalizing wk handled with
  | nil => rw [List.append_nil]; rfl
  | cons raw raws ih =>
      rw [List.map_cons, run_cons, step_ofWorker, ih, DataDiode.run_cons, List.append_assoc,
        List.singleton_append]

/-! ### After a panic -/

/-- Nothing happens once the worker has ended. -/
theorem step_of_dead (env : Env) {r : Process} (h : r.alive = false) (event : Event) :
    r.step env event = r := by
  cases event with
  | datagram raw =>
      rw [step, h]
      rfl
  | panic raw left =>
      rw [step, h]
      rfl

/-- **After a panic** nothing happens any more. -/
theorem run_of_dead (env : Env) {r : Process} (h : r.alive = false) (events : List Event) :
    r.run env events = r := by
  induction events with
  | nil => rfl
  | cons event events ih => rw [run_cons, step_of_dead env h, ih]

/-! ### Behind a poisoned lock -/

/-- Locking a poisoned state ends the transfer in progress, and leaves the state poisoned. -/
theorem lockState_state (env : Env) {r : Process} (h : r.statePoisoned = true) :
    (r.lockState env).worker.state = .new ∧
      (r.lockState env).worker.stats = r.worker.stats ∧
      (r.lockState env).statePoisoned = true := by
  rw [lockState, if_pos h]
  exact ⟨rfl, rfl, h⟩

/-- Poisoned counters are taken as they are. -/
theorem lockStats_data (r : Process) :
    r.lockStats.worker.state = r.worker.state ∧ r.lockStats.worker.stats = r.worker.stats ∧
      r.lockStats.statePoisoned = r.statePoisoned := by
  rw [lockStats]
  split <;> exact ⟨rfl, rfl, rfl⟩

/-- With no transfer in progress, no packet completes one. -/
theorem dispatch_filesTransferred (env : Env) {wk : Worker} (h : wk.state = .new)
    (packet : Packet) :
    (dispatch env wk packet).stats.filesTransferred = wk.stats.filesTransferred := by
  have hnone : ¬wk.state.filePath.isSome = true := by
    rw [h]
    exact Bool.false_ne_true
  rw [dispatch]
  split
  · exact (newFile_stats env wk _ _ _ _).1
  rw [if_neg fun hdata => hnone hdata.2, if_neg fun hparity => hnone hparity.2,
    if_neg fun hend => hnone hend.2]
  split <;> rfl

/-- A turn behind a poisoned lock starts from the initial state, and leaves the lock poisoned. -/
theorem step_of_poisoned (env : Env) {r : Process} (h : r.statePoisoned = true) (raw : Bytes) :
    (r.step env (.datagram raw)).statePoisoned = true ∧
      (r.step env (.datagram raw)).worker.stats.filesTransferred =
        r.worker.stats.filesTransferred := by
  obtain ⟨hstate, hstats, hflag⟩ := lockState_state env h
  obtain ⟨hstate', hstats', hflag'⟩ := lockStats_data (r.lockState env)
  rw [step]
  split
  · split
    · exact ⟨h, rfl⟩
    · rename_i packet _
      refine ⟨hflag'.trans hflag, ?_⟩
      rw [← hstats, ← hstats']
      exact dispatch_filesTransferred env (hstate'.trans hstate) packet
  · exact ⟨h, rfl⟩

/-- **Behind a poisoned lock** no transfer is ever completed, should the thread go on: every packet
resets the state once more. -/
theorem run_of_poisoned (env : Env) {r : Process} (h : r.statePoisoned = true)
    (raws : List Bytes) :
    (r.run env (raws.map .datagram)).worker.stats.filesTransferred =
      r.worker.stats.filesTransferred := by
  induction raws generalizing r with
  | nil => rfl
  | cons raw raws ih =>
      obtain ⟨hflag, hstats⟩ := step_of_poisoned env h raw
      rw [List.map_cons, run_cons, ih hflag, hstats]

end Process

/-! ### Recovery -/

/-- **The process recovers** from a panic that left it in `after`: it goes on from a worker in the
initial state, with the transfer of `p` counted as failed once, its marker written and nothing left
under reception, and handles every later datagram as the worker loop does from there. -/
def Recovers (env : Env) (before : Worker) (p : Str) (after : Process) : Prop :=
  ∃ wk : Worker, wk.state = .new ∧
    wk.stats.filesFailed = before.stats.filesFailed + 1 ∧
    wk.stats.filesTransferred = before.stats.filesTransferred ∧
    (wk.world.fs.contents (env.locate (env.failedPath p))).isSome ∧
    wk.world.fs.node (env.locate (env.partialPath p)) = none ∧
    ∀ raws, raws ≠ [] →
      (after.run env (raws.map .datagram)).handled = after.handled ++ raws ∧
      (after.run env (raws.map .datagram)).worker.state = (run env wk raws).state ∧
      (after.run env (raws.map .datagram)).worker.stats.filesTransferred =
        (run env wk raws).stats.filesTransferred ∧
      (after.run env (raws.map .datagram)).worker.world.fs = (run env wk raws).world.fs

/-- A process whose worker thread is gone does not recover. -/
theorem not_recovers_of_dead {env : Env} {before : Worker} {p : Str} {after : Process}
    (h : after.alive = false) : ¬Recovers env before p after := by
  rintro ⟨wk, -, -, -, -, -, hlater⟩
  have hhandled := (hlater [[]] (by simp)).1
  rw [Process.run_of_dead env h] at hhandled
  exact absurd (List.self_eq_append_right.mp hhandled) (by simp)

/-- A panic in a process without one before ends the worker thread. -/
theorem alive_after_panic (env : Env) (fs : Tree) (raws : List Bytes) (raw : Bytes)
    (left : Worker) :
    (((Process.new fs).run env (raws.map .datagram)).step env (.panic raw left)).alive =
      false := by
  have hrun : (Process.new fs).run env (raws.map .datagram) =
      Process.ofWorker (run env (.new fs) raws) ([] ++ raws) :=
    Process.run_datagrams env (.new fs) [] raws
  rw [hrun]
  rfl

/-- **No panic is recovered from**: in every state a process without a panic reaches, whatever
transfer is in progress, whatever packet is being handled and whatever its handler leaves, the
process stays as the panic left it for good, and does not recover. -/
theorem panic_not_recovered (env : Env) (fs : Tree) (raws : List Bytes) (raw : Bytes)
    (left : Worker) (p : Str) :
    let before := (Process.new fs).run env (raws.map .datagram)
    let after := before.step env (.panic raw left)
    (∀ events, after.run env events = after) ∧ ¬Recovers env before.worker p after := by
  have hdead := alive_after_panic env fs raws raw left
  exact ⟨fun events => Process.run_of_dead env hdead events, not_recovers_of_dead hdead⟩

/-- The END packet of a file `a` without contents. -/
def endOfA : Bytes := encodePacket pkgTypeEnd 0 emptyHash emptyHash [97]

/-- A file `a` is announced, and the handler of the next packet panics before it has done
anything. -/
theorem panic_not_recovered_start :
    ((Process.new referenceTree).run referenceEnv
      ([startOfA 1].map .datagram)).worker.state.filePath = some ['a'] ∧
    ¬Recovers referenceEnv (run referenceEnv (.new referenceTree) [startOfA 1]) ['a']
      (((Process.new referenceTree).run referenceEnv ([startOfA 1].map .datagram)).step
        referenceEnv (.panic endOfA (run referenceEnv (.new referenceTree) [startOfA 1]))) :=
  ⟨by decide +kernel, not_recovers_of_dead (alive_after_panic _ _ _ _ _)⟩

end DataDiode
