import DataDiode.Proto
import DataDiode.Spaced

/-!
# The Pacer

Every packet that the sender puts on the wire waits for its turn in `Pacer::wait`, also when the
file loop and the UDP forwarder send at the same time. The turns are slots on one line of
nanoseconds: a thread takes the next one by an exchange on the shared deadline, tries again while
the exchange fails, and then waits until its clock has reached the slot.

The model is a transition system of any set of threads on one deadline. A load and a failed exchange
may return any value the deadline has ever held, an exchange may fail although the expected value is
the current one, and the clock may return any value at any time.

## Main results

* `Pacer.step_effect`: what one action of a thread does.
* `Pacer.Orderly.effect`, `Pacer.Orderly.run`: the invariant, kept by every action and every run.
* `Pacer.wait_slots`: slots never overlap, none lies before its caller's clock, no call returns
  before its slot, and no window of length `T` holds more than `T / interval + 1` of them.
-/

namespace DataDiode

/-- The largest 64-bit unsigned integer. -/
def u64Max : ℕ := u64Bound - 1

/-- Saturation is a minimum. -/
theorem saturatingAdd_eq (a b : ℕ) : saturatingAdd a b = min (a + b) u64Max := rfl

/-- Headroom left when sleeping, in nanoseconds. -/
def sleepHeadroomNanos : ℕ := 200000

/-- How a thread lets time pass before it looks at the clock again. -/
inductive Pause where
  | sleep (nanos : ℕ)
  | spin
  deriving DecidableEq

/-- Sleep if more than a millisecond is left, spin otherwise. -/
def pauseFor (slot nowNs : ℕ) : Pause :=
  if 1000000 < slot - nowNs then .sleep (slot - nowNs - sleepHeadroomNanos) else .spin

/-- No pause reaches beyond the slot. -/
theorem add_lt_of_pauseFor_eq_sleep {slot nowNs nanos : ℕ}
    (h : pauseFor slot nowNs = .sleep nanos) : nowNs + nanos < slot := by
  rw [pauseFor] at h
  split at h
  · have hnanos := Pause.sleep.inj h
    simp only [sleepHeadroomNanos] at hnanos
    omega
  · exact absurd h (by simp)

/-- Where a thread is in `wait`, with its local variables. -/
inductive Stage where
  /-- not in `wait` -/
  | outside
  /-- the clock is read, the deadline is not yet loaded -/
  | entered (nowNs : ℕ)
  /-- before an exchange that expects `prev` -/
  | claiming (nowNs prev : ℕ)
  /-- the exchange succeeded -/
  | granted (slot : ℕ)
  /-- in the waiting loop, the slot not yet reached -/
  | pausing (slot : ℕ) (pause : Pause)
  deriving DecidableEq

/-- The slot of a thread that holds one. -/
def Stage.slot? : Stage → Option ℕ
  | .granted slot => some slot
  | .pausing slot _ => some slot
  | _ => none

/-- What a thread does next, with what the clock or the memory answers. -/
inductive Action where
  /-- call `wait` and read the clock -/
  | call (clock : ℕ)
  /-- load the deadline -/
  | load (prev : ℕ)
  /-- exchange the deadline, with success -/
  | exchange
  /-- fail to exchange the deadline, and be told a value of it -/
  | fail (actual : ℕ)
  /-- read the clock in the waiting loop -/
  | look (clock : ℕ)

/-- A successful exchange: the thread, the clock value it had read, and the deadline it replaced. -/
structure Grant (Thread : Type*) where
  thread : Thread
  nowNs : ℕ
  prev : ℕ

/-- The slot of a grant: `target` in the loop. -/
def Grant.slot {Thread : Type*} (g : Grant Thread) : ℕ := max g.prev g.nowNs

/-- The deadline that the exchange leaves behind: `new` in the loop. -/
def Grant.new {Thread : Type*} (intervalNanos : ℕ) (g : Grant Thread) : ℕ :=
  saturatingAdd g.slot intervalNanos

/-- A slot leaves at least the interval behind the one before it, short of saturation. -/
theorem Grant.min_le_slot {Thread : Type*} {intervalNanos : ℕ} {g g' : Grant Thread}
    (h : g'.prev = g.new intervalNanos) :
    min (g.slot + intervalNanos) u64Max ≤ g'.slot := by
  have hprev : g'.prev ≤ g'.slot := le_max_left _ _
  rwa [h, Grant.new, saturatingAdd_eq] at hprev

/-- A return of `wait`: the thread, its slot, and the clock value that let it go. -/
structure Return (Thread : Type*) where
  thread : Thread
  slot : ℕ
  nowNs : ℕ

/-- The deadline and the threads, with the grants and the returns so far. -/
structure Pacer (Thread : Type*) where
  nextDeadlineNanos : ℕ
  stage : Thread → Stage
  grants : List (Grant Thread)
  returns : List (Return Thread)

namespace Pacer

variable {Thread : Type*}

/-- A fresh pacer: no deadline, and no thread in `wait`. -/
def fresh : Pacer Thread := ⟨0, fun _ => .outside, [], []⟩

/-- The values the deadline has held, in the order of the exchanges. -/
def held (intervalNanos : ℕ) (s : Pacer Thread) : List ℕ :=
  0 :: s.grants.map (Grant.new intervalNanos)

/-- The slots granted so far, in the order of the exchanges. -/
def slots (s : Pacer Thread) : List ℕ := s.grants.map Grant.slot

variable [DecidableEq Thread]

/-- Take a thread to a stage of `wait`. -/
def move (s : Pacer Thread) (t : Thread) (p : Stage) : Pacer Thread :=
  { s with stage := Function.update s.stage t p }

/-- A successful exchange: the deadline moves, and the thread has its slot. -/
def grant (intervalNanos : ℕ) (s : Pacer Thread) (g : Grant Thread) : Pacer Thread :=
  { s with
    nextDeadlineNanos := g.new intervalNanos
    stage := Function.update s.stage g.thread (.granted g.slot)
    grants := s.grants ++ [g] }

/-- The test of the waiting loop, after a look at the clock. -/
def check (s : Pacer Thread) (t : Thread) (slot nowNs : ℕ) : Pacer Thread :=
  if nowNs < slot then s.move t (.pausing slot (pauseFor slot nowNs))
  else { s.move t .outside with returns := s.returns ++ [⟨t, slot, nowNs⟩] }

/-- One action of a thread, if it can do it where it is. The clock is cut to 64 bits. -/
def step (intervalNanos : ℕ) (s : Pacer Thread) (t : Thread) (a : Action) :
    Option (Pacer Thread) :=
  match s.stage t, a with
  | .outside, .call clock =>
      -- without an interval `wait` returns at once
      if intervalNanos = 0 then some s else some (s.move t (.entered (clock % u64Bound)))
  | .entered nowNs, .load prev =>
      if prev ∈ s.held intervalNanos then some (s.move t (.claiming nowNs prev)) else none
  | .claiming nowNs prev, .exchange =>
      if prev = s.nextDeadlineNanos then some (s.grant intervalNanos ⟨t, nowNs, prev⟩) else none
  | .claiming nowNs _, .fail actual =>
      if actual ∈ s.held intervalNanos then some (s.move t (.claiming nowNs actual)) else none
  | .granted slot, .look clock => some (s.check t slot (clock % u64Bound))
  | .pausing slot _, .look clock => some (s.check t slot (clock % u64Bound))
  | _, _ => none

/-- The actions of a schedule, one after the other. -/
def run (intervalNanos : ℕ) : List (Thread × Action) → Pacer Thread → Option (Pacer Thread)
  | [], s => some s
  | (t, a) :: schedule, s => (s.step intervalNanos t a).bind (run intervalNanos schedule)

/-! ### What an action does -/

/-- What an action of `t` can make of `s`. -/
inductive Effect (intervalNanos : ℕ) (s : Pacer Thread) (t : Thread) : Pacer Thread → Prop where
  /-- without an interval -/
  | none : Effect intervalNanos s t s
  /-- a move that neither takes nor gives up a slot -/
  | move (p : Stage) (h : (s.stage t).slot? = p.slot?) : Effect intervalNanos s t (s.move t p)
  /-- a slot is taken: the deadline was the expected one -/
  | grant (nowNs : ℕ) (h : (s.stage t).slot? = Option.none) :
      Effect intervalNanos s t (s.grant intervalNanos ⟨t, nowNs, s.nextDeadlineNanos⟩)
  /-- a call returns: its slot is reached -/
  | ret (slot nowNs : ℕ) (h : (s.stage t).slot? = some slot) (hslot : slot ≤ nowNs) :
      Effect intervalNanos s t
        { s.move t .outside with returns := s.returns ++ [⟨t, slot, nowNs⟩] }

variable {intervalNanos : ℕ} {s s' : Pacer Thread} {t : Thread}

/-- Looking at the slot of a thread sends it on or makes it wait. -/
theorem check_effect {slot : ℕ} (h : (s.stage t).slot? = some slot) (nowNs : ℕ) :
    Effect intervalNanos s t (s.check t slot nowNs) := by
  rw [check]
  split
  · exact .move _ h
  · rename_i hnow
    exact .ret slot nowNs h (by omega)

/-- **One action of a thread.** -/
theorem step_effect {a : Action} (h : s.step intervalNanos t a = some s') :
    Effect intervalNanos s t s' := by
  cases hstage : s.stage t <;> cases a <;> simp only [step, hstage, reduceCtorEq] at h
  case outside.call clock =>
    split at h
    · exact Option.some.inj h ▸ .none
    · exact Option.some.inj h ▸ .move _ (by rw [hstage]; rfl)
  case entered.load nowNs prev =>
    split at h
    · exact Option.some.inj h ▸ .move _ (by rw [hstage]; rfl)
    · exact absurd h (by simp)
  case claiming.exchange nowNs prev =>
    split at h
    · rename_i hprev
      subst hprev
      exact Option.some.inj h ▸ .grant nowNs (by rw [hstage]; rfl)
    · exact absurd h (by simp)
  case claiming.fail nowNs prev actual =>
    split at h
    · exact Option.some.inj h ▸ .move _ (by rw [hstage]; rfl)
    · exact absurd h (by simp)
  case granted.look slot clock =>
    exact Option.some.inj h ▸ check_effect (by rw [hstage]; rfl) _
  case pausing.look slot pause clock =>
    exact Option.some.inj h ▸ check_effect (by rw [hstage]; rfl) _

/-! ### The invariant -/

/-- The slots granted to a thread. -/
def slotsOf (s : Pacer Thread) (t : Thread) : List ℕ :=
  (s.grants.filter (·.thread = t)).map Grant.slot

/-- The slots that calls of a thread have returned with. -/
def returnsOf (s : Pacer Thread) (t : Thread) : List ℕ :=
  (s.returns.filter (·.thread = t)).map Return.slot

/-- The invariant of the pacer. -/
structure Orderly (intervalNanos : ℕ) (s : Pacer Thread) : Prop where
  /-- each exchange replaced the deadline that the one before it left -/
  chained : s.grants.IsChain fun g g' => g'.prev = g.new intervalNanos
  /-- the deadline is the one that the last exchange left -/
  deadline : (s.held intervalNanos).getLast? = some s.nextDeadlineNanos
  /-- no exchange left a later one -/
  new_le : ∀ g ∈ s.grants, g.new intervalNanos ≤ s.nextDeadlineNanos
  /-- the deadline is a 64-bit integer -/
  bounded : s.nextDeadlineNanos ≤ u64Max
  /-- a thread returns from its slots in order, and holds at most one more -/
  pending : ∀ t, s.slotsOf t = s.returnsOf t ++ (s.stage t).slot?.toList
  /-- no call has returned before its slot -/
  reached : ∀ r ∈ s.returns, r.slot ≤ r.nowNs

/-- At first everything is in order. -/
theorem fresh_orderly : Orderly intervalNanos (fresh : Pacer Thread) where
  chained := .nil
  deadline := rfl
  new_le := by simp [fresh]
  bounded := Nat.zero_le _
  pending := fun _ => rfl
  reached := by simp [fresh]

/-- Moving a thread to another stage grants nothing. -/
@[simp] theorem grants_move (p : Stage) : (s.move t p).grants = s.grants := rfl

/-- Moving a thread to another stage gives no thread a slot. -/
@[simp] theorem slotsOf_move (p : Stage) (u : Thread) : (s.move t p).slotsOf u = s.slotsOf u := rfl

/-- Moving a thread to another stage returns nothing. -/
@[simp] theorem returnsOf_move (p : Stage) (u : Thread) :
    (s.move t p).returnsOf u = s.returnsOf u := rfl

/-- The thread is there. -/
@[simp] theorem stage_move_self (p : Stage) : (s.move t p).stage t = p := by
  simp only [move, Function.update_self]

/-- The other threads are where they were. -/
@[simp] theorem stage_move_of_ne {u : Thread} (hu : u ≠ t) (p : Stage) :
    (s.move t p).stage u = s.stage u := by
  simp only [move, Function.update_of_ne hu]

/-- Moves that keep a thread's slot keep the invariant. -/
theorem Orderly.move (h : Orderly intervalNanos s) {p : Stage}
    (hp : (s.stage t).slot? = p.slot?) : Orderly intervalNanos (s.move t p) where
  chained := h.chained
  deadline := h.deadline
  new_le := h.new_le
  bounded := h.bounded
  pending := fun u => by
    by_cases hu : u = t
    · subst hu
      rw [slotsOf_move, returnsOf_move, stage_move_self, ← hp]
      exact h.pending u
    · rw [slotsOf_move, returnsOf_move, stage_move_of_ne hu]
      exact h.pending u
  reached := h.reached

/-- An exchange does not move the deadline back. -/
theorem Orderly.le_new (h : Orderly intervalNanos s) (t : Thread) (nowNs : ℕ) :
    s.nextDeadlineNanos ≤ (Grant.mk t nowNs s.nextDeadlineNanos).new intervalNanos := by
  have hslot : s.nextDeadlineNanos ≤ (Grant.mk t nowNs s.nextDeadlineNanos).slot := le_max_left _ _
  have hbound := h.bounded
  rw [Grant.new, saturatingAdd_eq]
  omega

/-- A successful exchange keeps the invariant. -/
theorem Orderly.grant (h : Orderly intervalNanos s) {nowNs : ℕ}
    (ht : (s.stage t).slot? = none) :
    Orderly intervalNanos (s.grant intervalNanos ⟨t, nowNs, s.nextDeadlineNanos⟩) where
  chained := by
    refine List.isChain_append.mpr ⟨h.chained, .singleton _, fun g hg g' hg' => ?_⟩
    have hlast := h.deadline
    rw [held, List.getLast?_cons, List.getLast?_map, hg] at hlast
    rw [List.head?_cons, Option.mem_some_iff] at hg'
    subst hg'
    exact (Option.some.inj hlast).symm
  deadline := by
    rw [held, Pacer.grant, List.map_append, ← List.cons_append]
    exact List.getLast?_concat
  new_le := fun g hg => by
    have hnew := h.le_new t nowNs
    rcases List.mem_append.mp hg with hg | hg
    · exact (h.new_le g hg).trans hnew
    · rw [List.mem_singleton.mp hg]
      exact le_rfl
  bounded := min_le_right _ _
  pending := fun u => by
    have hpending := h.pending u
    simp only [slotsOf, returnsOf, Pacer.grant, List.filter_append, List.map_append] at hpending ⊢
    by_cases hu : u = t
    · subst hu
      rw [ht, Option.toList_none, List.append_nil] at hpending
      simp [hpending, Stage.slot?]
    · simp [hpending, Function.update_of_ne hu, Ne.symm hu]
  reached := h.reached

/-- A return keeps the invariant. -/
theorem Orderly.ret (h : Orderly intervalNanos s) {slot nowNs : ℕ}
    (ht : (s.stage t).slot? = some slot) (hslot : slot ≤ nowNs) :
    Orderly intervalNanos
      { s.move t .outside with returns := s.returns ++ [⟨t, slot, nowNs⟩] } where
  chained := h.chained
  deadline := h.deadline
  new_le := h.new_le
  bounded := h.bounded
  pending := fun u => by
    have hpending := h.pending u
    simp only [slotsOf, returnsOf, List.filter_append, List.map_append] at hpending ⊢
    by_cases hu : u = t
    · subst hu
      rw [stage_move_self]
      rw [ht] at hpending
      simpa [Stage.slot?] using hpending
    · rw [stage_move_of_ne hu]
      simpa [Ne.symm hu] using hpending
  reached := fun r hr => by
    rcases List.mem_append.mp hr with hr | hr
    · exact h.reached r hr
    · rw [List.mem_singleton.mp hr]
      exact hslot

/-- **Step lemma.** -/
theorem Orderly.effect (h : Orderly intervalNanos s) (heff : Effect intervalNanos s t s') :
    Orderly intervalNanos s' := by
  cases heff with
  | none => exact h
  | move p hp => exact h.move hp
  | grant nowNs ht => exact h.grant ht
  | ret slot nowNs ht hslot => exact h.ret ht hslot

/-- **Run lemma.** -/
theorem Orderly.run {schedule : List (Thread × Action)} (h : Orderly intervalNanos s)
    (hrun : Pacer.run intervalNanos schedule s = some s') : Orderly intervalNanos s' := by
  induction schedule generalizing s with
  | nil => exact Option.some.inj hrun ▸ h
  | cons action schedule ih =>
      obtain ⟨t, a⟩ := action
      obtain ⟨s₁, hstep, hrest⟩ := Option.bind_eq_some_iff.mp hrun
      exact ih (h.effect (step_effect hstep)) hrest

/-! ### Slots -/

/-- **The slots are spaced** up to saturation. -/
theorem Orderly.spacedUpTo (h : Orderly intervalNanos s) :
    SpacedUpTo intervalNanos u64Max s.slots :=
  .of_isChain ((List.isChain_map _).mpr (h.chained.imp fun _ _ => Grant.min_le_slot))

/-- While the deadline is below the largest integer, no addition has been cut off there. -/
theorem Orderly.add_lt_of_deadline_lt (h : Orderly intervalNanos s)
    (hlt : s.nextDeadlineNanos < u64Max) : ∀ x ∈ s.slots, x + intervalNanos < u64Max := by
  intro x hx
  obtain ⟨g, hg, rfl⟩ := List.mem_map.mp hx
  have hnew := h.new_le g hg
  rw [Grant.new, saturatingAdd_eq] at hnew
  omega

/-- Every return is from a slot of its thread. -/
theorem Orderly.returns_in_order (h : Orderly intervalNanos s) (t : Thread) :
    s.returnsOf t <+: s.slotsOf t :=
  ⟨_, (h.pending t).symm⟩

/-- **Pacing slots never overlap.** In every run of any threads, whatever the clocks, the loads and
the failing exchanges answer: neighbouring slots are an interval apart unless the addition was cut
off at the largest integer, which has not happened while the deadline is below it; no slot lies
before the clock value its caller read; each thread returns from its own slots in their order, never
before a slot is reached; and no window holds more slots than fit. -/
theorem wait_slots (hpos : 0 < intervalNanos) {schedule : List (Thread × Action)}
    (hrun : Pacer.run intervalNanos schedule fresh = some s) :
    (∀ i (hi : i + 1 < s.slots.length), s.slots[i] + intervalNanos ≤ u64Max →
      s.slots[i] + intervalNanos ≤ s.slots[i + 1]) ∧
    (s.nextDeadlineNanos < u64Max → ∀ x ∈ s.slots, x + intervalNanos ≤ u64Max) ∧
    (∀ g ∈ s.grants, g.nowNs ≤ g.slot) ∧
    (∀ t, s.returnsOf t <+: s.slotsOf t) ∧
    (∀ r ∈ s.returns, r.slot ≤ r.nowNs) ∧
    (∀ a T, (∀ x ∈ s.slots, x + intervalNanos ≤ u64Max) ∨ a + T < u64Max →
      s.slots.countP (fun x => a ≤ x ∧ x ≤ a + T) ≤ T / intervalNanos + 1) := by
  have horderly := fresh_orderly.run hrun
  have hspaced := horderly.spacedUpTo
  refine ⟨fun i hi hle => ?_, fun hlt x hx => ?_, fun g _ => ?_, horderly.returns_in_order,
    horderly.reached, fun a T hcases => ?_⟩
  · have hnext : min (s.slots[i] + intervalNanos) u64Max ≤ s.slots[i + 1] :=
      List.pairwise_iff_getElem.mp hspaced i (i + 1) (by omega) hi (Nat.lt_succ_self i)
    rwa [min_eq_left hle] at hnext
  · exact (horderly.add_lt_of_deadline_lt hlt x hx).le
  · exact le_max_right _ _
  · rcases hcases with hle | hcap
    · exact (hspaced.spaced_of_add_le hle).countP_window_le hpos a T
    · exact hspaced.countP_window_le hpos hcap

/-- Two threads at intervals of five: both load the first deadline, the second overtakes, and the
first fails twice, once with a stale value, before it gets the next slot. -/
def contended : List (Bool × Action) :=
  [(false, .call 3), (false, .load 0), (true, .call 1), (true, .load 0), (true, .exchange),
    (false, .fail 0), (false, .fail 6), (false, .exchange), (true, .look 0), (true, .look 1),
    (false, .look 7)]

/-- Two threads that contend for slots five nanoseconds apart, one of which loses a
compare-and-swap. -/
theorem wait_slots_contended : ∃ s : Pacer Bool, s.slots = [1, 6] ∧
    (∀ r ∈ s.returns, r.slot ≤ r.nowNs) ∧
    (∀ a T, (∀ x ∈ s.slots, x + 5 ≤ u64Max) ∨ a + T < u64Max →
      s.slots.countP (fun x => a ≤ x ∧ x ≤ a + T) ≤ T / 5 + 1) := by
  obtain ⟨s, hrun, hslots⟩ :
      ∃ s : Pacer Bool, run 5 contended fresh = some s ∧ s.slots = [1, 6] := ⟨_, rfl, rfl⟩
  obtain ⟨-, -, -, -, hreached, hwindow⟩ := wait_slots (by decide) hrun
  exact ⟨s, hslots, hreached, hwindow⟩

end Pacer

end DataDiode
