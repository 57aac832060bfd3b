import Mathlib.Algebra.Order.BigOperators.Group.Finset
import Mathlib.Data.Fintype.Card
import DataDiode.Pacer

/-!
# The Rate on the Wire

The threads of the sender put a packet on the wire and then call `Pacer::wait`, before they may put
the next one there. The calls take turns (`DataDiode.Pacer`); but a packet leaves before its call,
not at the slot, and a thread may be held up at any point in between. So a window can hold a few
packets more than slots: one for each thread, whose slot lies behind the window.

The model adds to the transition system of the pacer the time, which all clocks show, and the
packets.

## Main results

* `Senders.Paid.step`, `Senders.Paid.run`: the account of one thread, kept by every event.
* `Senders.wire_rate`: no window of length `T` holds more than `T / interval + 1` packets and one
  for each thread.
-/

namespace DataDiode

/-! ### Events -/

/-- The pacer and the threads that share it: which of them have put a packet on the wire and not yet
called `wait`, the time, and the packets with the threads that sent them and the times. -/
structure Senders (Thread : Type*) where
  pacer : Pacer Thread
  owes : Thread → Bool
  clock : ℕ
  sends : List (Thread × ℕ)

/-- What happens next. -/
inductive Senders.Event (Thread : Type*) where
  /-- time passes -/
  | tick (nanos : ℕ)
  /-- the socket takes a packet -/
  | send (t : Thread)
  /-- the socket does not take it, for now or for good -/
  | refuse (t : Thread)
  /-- an action in `wait` -/
  | pace (t : Thread) (a : Action)

/-- The clock value that an action reads. -/
def Action.reading? : Action → Option ℕ
  | .call clock => some clock
  | .look clock => some clock
  | _ => none

namespace Senders

variable {Thread : Type*} [DecidableEq Thread]

/-- At the start of the clock. -/
def fresh : Senders Thread := ⟨.fresh, fun _ => false, 0, []⟩

/-- A thread is between two packets. -/
def Between (s : Senders Thread) (t : Thread) : Prop :=
  s.owes t = false ∧ s.pacer.stage t = .outside

/-- The stage of the thread decides it. -/
instance (s : Senders Thread) (t : Thread) : Decidable (s.Between t) :=
  inferInstanceAs (Decidable (_ ∧ _))

/-- Time passes. -/
def pass (s : Senders Thread) (nanos : ℕ) : Senders Thread := { s with clock := s.clock + nanos }

/-- A thread puts a packet on the wire. -/
def put (s : Senders Thread) (t : Thread) : Senders Thread :=
  { s with owes := Function.update s.owes t true, sends := s.sends ++ [(t, s.clock)] }

/-- A thread has done an action in `wait`. -/
def paced (s : Senders Thread) (t : Thread) (pacer : Pacer Thread) : Senders Thread :=
  { s with pacer := pacer, owes := Function.update s.owes t false }

/-- One event, if it can happen. A thread that has put a packet on the wire calls `wait` next, and
clocks show the time. -/
def step (intervalNanos : ℕ) (s : Senders Thread) : Event Thread → Option (Senders Thread)
  | .tick nanos => some (s.pass nanos)
  | .send t => if s.Between t then some (s.put t) else none
  | .refuse t => if s.Between t then some s else none
  | .pace t a =>
      if s.Between t ∨ ∃ clock ∈ a.reading?, clock ≠ s.clock then none
      else (s.pacer.step intervalNanos t a).map (s.paced t)

/-- The events of a run. -/
def run (intervalNanos : ℕ) : List (Event Thread) → Senders Thread → Option (Senders Thread)
  | [], s => some s
  | e :: events, s => (s.step intervalNanos e).bind (run intervalNanos events)

/-! ### The account of a thread -/

/-- The packets of a thread in a window. -/
def sentIn (s : Senders Thread) (a T : ℕ) (t : Thread) : ℕ :=
  s.sends.countP fun p => p.1 = t ∧ a ≤ p.2 ∧ p.2 ≤ a + T

/-- Its slots in the window. -/
def grantedIn (s : Pacer Thread) (a T : ℕ) (t : Thread) : ℕ :=
  s.grants.countP fun g => g.thread = t ∧ a ≤ g.slot ∧ g.slot ≤ a + T

/-- A thread in `wait` that is not yet behind the slot for its last packet: the slot will not lie
before the window, or lies behind it. -/
def Pending (a T : ℕ) : Stage → Prop
  | .outside => False
  | .entered nowNs => a ≤ nowNs
  | .claiming nowNs _ => a ≤ nowNs
  | .granted slot => a + T < slot
  | .pausing slot _ => a + T < slot

/-- The account of a thread: every packet in the window is paid for by a slot in it, but for the
last. -/
structure Paid (a T : ℕ) (s : Senders Thread) (t : Thread) : Prop where
  le_succ : s.sentIn a T t ≤ grantedIn s.pacer a T t + 1
  started : 0 < s.sentIn a T t → a ≤ s.clock
  outside : s.owes t = true → s.pacer.stage t = .outside
  paid : s.clock ≤ a + T → s.owes t = false →
    s.sentIn a T t ≤ grantedIn s.pacer a T t ∨ Pending a T (s.pacer.stage t)

variable {intervalNanos a T : ℕ} {s s' : Senders Thread} {t u : Thread}

/-- At first nothing has been sent, and nothing is owed. -/
theorem fresh_paid : Paid a T (fresh : Senders Thread) t where
  le_succ := Nat.zero_le _
  started h := absurd h (Nat.lt_irrefl 0)
  outside _ := rfl
  paid _ _ := Or.inl (Nat.zero_le _)

/-- Time passes. -/
theorem Paid.pass (h : Paid a T s t) (nanos : ℕ) : Paid a T (s.pass nanos) t where
  le_succ := h.le_succ
  started hpos := (h.started hpos).trans (Nat.le_add_right _ _)
  outside := h.outside
  paid hclock := h.paid (le_trans (Nat.le_add_right _ _) hclock)

/-- What a thread has sent in a window, with one more packet. -/
theorem sentIn_put (s : Senders Thread) (u : Thread) : (s.put u).sentIn a T t =
    s.sentIn a T t + if u = t ∧ a ≤ s.clock ∧ s.clock ≤ a + T then 1 else 0 := by
  rw [sentIn, put, List.countP_append, List.countP_singleton, sentIn]
  simp only [decide_eq_true_eq]

/-- A packet is put on the wire. -/
theorem Paid.put (h : Paid a T s t) (hu : s.Between u) : Paid a T (s.put u) t := by
  by_cases hut : u = t
  · subst hut
    have hle := h.le_succ
    refine ⟨?_, fun hpos => ?_, fun _ => hu.2, fun _ howes => ?_⟩
    · change (s.put u).sentIn a T u ≤ grantedIn s.pacer a T u + 1
      rw [sentIn_put]
      split
      · rename_i hin
        have hpaid := (h.paid hin.2.2 hu.1).resolve_right (by rw [hu.2]; exact id)
        omega
      · omega
    · change a ≤ s.clock
      rw [sentIn_put] at hpos
      split at hpos
      · rename_i hin
        exact hin.2.1
      · exact h.started (by omega)
    · exact absurd howes (by simp [Senders.put])
  · have hsent : (s.put u).sentIn a T t = s.sentIn a T t := by
      rw [sentIn_put, if_neg (fun hin => hut hin.1), Nat.add_zero]
    have howes : (s.put u).owes t = s.owes t := Function.update_of_ne (Ne.symm hut) _ _
    refine ⟨hsent ▸ h.le_succ, fun hpos => ?_, fun ho => ?_, fun hclock ho => ?_⟩
    · exact h.started (hsent ▸ hpos)
    · exact h.outside (howes ▸ ho)
    · rw [hsent]
      exact h.paid hclock (howes ▸ ho)

/-! ### Waiting -/

/-- The slots of a thread in a window after a grant. -/
theorem grantedIn_grant (p : Pacer Thread) (g : Grant Thread) :
    grantedIn (p.grant intervalNanos g) a T t =
      grantedIn p a T t + if g.thread = t ∧ a ≤ g.slot ∧ g.slot ≤ a + T then 1 else 0 := by
  rw [grantedIn, Pacer.grant, List.countP_append, List.countP_singleton, grantedIn]
  simp only [decide_eq_true_eq]

/-- What another thread does in `wait` is of no account. -/
theorem grantedIn_of_ne {p : Pacer Thread} {act : Action} (hut : u ≠ t) {p' : Pacer Thread}
    (h : p.step intervalNanos u act = some p') :
    grantedIn p' a T t = grantedIn p a T t ∧ p'.stage t = p.stage t := by
  cases Pacer.step_effect h with
  | none => exact ⟨rfl, rfl⟩
  | move stage _ => exact ⟨rfl, Pacer.stage_move_of_ne (Ne.symm hut) _⟩
  | grant nowNs _ =>
      rw [grantedIn_grant, if_neg fun hin => hut hin.1, Nat.add_zero]
      exact ⟨rfl, Function.update_of_ne (Ne.symm hut) _ _⟩
  | ret slot nowNs _ _ => exact ⟨rfl, Pacer.stage_move_of_ne (Ne.symm hut) _⟩

/-- A look at the clock in the waiting loop, before the end of the window: the slot lies behind the
window, or is in it. -/
theorem pending_check {p : Pacer Thread} {slot clock n : ℕ} (hclock : clock ≤ a + T)
    (hcap : a + T < u64Max) (h : n ≤ grantedIn p a T t ∨ a + T < slot) :
    n ≤ grantedIn (p.check t slot (clock % u64Bound)) a T t ∨
      Pending a T ((p.check t slot (clock % u64Bound)).stage t) := by
  have hmod : clock % u64Bound = clock := Nat.mod_eq_of_lt (by simp only [u64Max] at hcap; omega)
  rw [hmod, Pacer.check]
  split
  · rw [Pacer.stage_move_self]
    exact h
  · exact h.imp id fun hlt => by omega

/-- An action of the thread itself, before the end of the window. -/
theorem pending_step {p p' : Pacer Thread} {act : Action} {clock n : ℕ}
    (hpos : 0 < intervalNanos) (hcap : a + T < u64Max) (hclock : clock ≤ a + T)
    (hreading : ∀ c ∈ act.reading?, c = clock) (hstart : 0 < n → a ≤ clock)
    (hle : n ≤ grantedIn p a T t + 1)
    (hpaid : p.stage t ≠ .outside → n ≤ grantedIn p a T t ∨ Pending a T (p.stage t))
    (h : p.step intervalNanos t act = some p') :
    n ≤ grantedIn p' a T t ∨ Pending a T (p'.stage t) := by
  cases hstage : p.stage t <;> cases act <;> simp only [Pacer.step, hstage, reduceCtorEq] at h
  case outside.call c =>
    obtain rfl : c = clock := hreading c rfl
    rw [if_neg (by omega)] at h
    obtain rfl := Option.some.inj h
    rw [Pacer.stage_move_self, Pending, Nat.mod_eq_of_lt (by simp only [u64Max] at hcap; omega)]
    rcases Nat.eq_zero_or_pos n with hn | hn
    · exact Or.inl (hn ▸ Nat.zero_le _)
    · exact Or.inr (hstart hn)
  case entered.load nowNs prev =>
    split at h
    · obtain rfl := Option.some.inj h
      rw [Pacer.stage_move_self]
      rw [hstage] at hpaid
      exact hpaid (by simp)
    · exact absurd h (by simp)
  case claiming.fail nowNs prev actual =>
    split at h
    · obtain rfl := Option.some.inj h
      rw [Pacer.stage_move_self]
      rw [hstage] at hpaid
      exact hpaid (by simp)
    · exact absurd h (by simp)
  case claiming.exchange nowNs prev =>
    split at h
    · obtain rfl := Option.some.inj h
      have hslot : nowNs ≤ (Grant.mk t nowNs prev).slot := le_max_right _ _
      rw [grantedIn_grant, show (p.grant intervalNanos ⟨t, nowNs, prev⟩).stage t =
        .granted (Grant.mk t nowNs prev).slot from Function.update_self _ _ _]
      rw [hstage] at hpaid
      rcases hpaid (by simp) with hpaid | hnow
      · exact Or.inl (hpaid.trans (Nat.le_add_right _ _))
      · -- the slot is in the window or behind it
        rcases Nat.lt_or_ge (a + T) (Grant.mk t nowNs prev).slot with hlt | hge
        · exact Or.inr hlt
        · rw [if_pos ⟨rfl, le_trans hnow hslot, hge⟩]
          exact Or.inl hle
    · exact absurd h (by simp)
  case granted.look slot c =>
    obtain rfl : c = clock := hreading c rfl
    obtain rfl := Option.some.inj h
    rw [hstage] at hpaid
    exact pending_check hclock hcap (hpaid (by simp))
  case pausing.look slot pause c =>
    obtain rfl : c = clock := hreading c rfl
    obtain rfl := Option.some.inj h
    rw [hstage] at hpaid
    exact pending_check hclock hcap (hpaid (by simp))

/-- Slots are not taken back. -/
theorem grantedIn_le {p p' : Pacer Thread} {act : Action}
    (h : p.step intervalNanos u act = some p') : grantedIn p a T t ≤ grantedIn p' a T t := by
  cases Pacer.step_effect h with
  | grant nowNs _ =>
      rw [grantedIn_grant]
      exact Nat.le_add_right _ _
  | none => exact le_rfl
  | move stage _ => exact le_rfl
  | ret slot nowNs _ _ => exact le_rfl

/-- An action in `wait`. -/
theorem Paid.paced (h : Paid a T s t) (hpos : 0 < intervalNanos) (hcap : a + T < u64Max)
    {act : Action} (hreading : ∀ c ∈ act.reading?, c = s.clock)
    {p : Pacer Thread} (hstep : s.pacer.step intervalNanos u act = some p) :
    Paid a T (s.paced u p) t := by
  have hle : s.sentIn a T t ≤ grantedIn p a T t + 1 :=
    h.le_succ.trans (Nat.succ_le_succ (grantedIn_le hstep))
  by_cases hut : u = t
  · subst hut
    refine ⟨hle, h.started, fun howes => absurd howes (by simp [Senders.paced]),
      fun hclock _ => ?_⟩
    refine pending_step hpos hcap hclock hreading h.started h.le_succ (fun hstage => ?_) hstep
    refine h.paid hclock ?_
    by_contra howes
    exact hstage (h.outside (by simpa using howes))
  · obtain ⟨hgranted, hstage⟩ := grantedIn_of_ne (a := a) (T := T) hut hstep
    have howes : (s.paced u p).owes t = s.owes t := Function.update_of_ne (Ne.symm hut) _ _
    refine ⟨hle, h.started, fun ho => ?_, fun hclock ho => ?_⟩
    · exact hstage.trans (h.outside (howes ▸ ho))
    · change _ ≤ grantedIn p a T t ∨ Pending a T (p.stage t)
      rw [hgranted, hstage]
      exact h.paid hclock (howes ▸ ho)

/-! ### Runs -/

/-- **Step lemma.** -/
theorem Paid.step (hpos : 0 < intervalNanos) (hcap : a + T < u64Max) (h : ∀ t, Paid a T s t)
    {e : Event Thread} (hstep : s.step intervalNanos e = some s') : ∀ t, Paid a T s' t := by
  intro t
  cases e with
  | tick nanos => exact Option.some.inj hstep ▸ (h t).pass nanos
  | send u =>
      rw [Senders.step] at hstep
      split at hstep
      · rename_i hu
        exact Option.some.inj hstep ▸ (h t).put hu
      · exact absurd hstep (by simp)
  | refuse u =>
      rw [Senders.step] at hstep
      split at hstep
      · exact Option.some.inj hstep ▸ h t
      · exact absurd hstep (by simp)
  | pace u act =>
      rw [Senders.step] at hstep
      split at hstep
      · exact absurd hstep (by simp)
      · rename_i hcan
        obtain ⟨p, hp, rfl⟩ := Option.map_eq_some_iff.mp hstep
        rw [not_or] at hcan
        exact (h t).paced hpos hcap
          (fun c hc => not_not.mp fun hne => hcan.2 ⟨c, hc, hne⟩) hp

/-- The pacer keeps its invariant. -/
theorem orderly_step (h : s.pacer.Orderly intervalNanos) {e : Event Thread}
    (hstep : s.step intervalNanos e = some s') : s'.pacer.Orderly intervalNanos := by
  cases e with
  | tick nanos => exact Option.some.inj hstep ▸ h
  | send u =>
      rw [Senders.step] at hstep
      split at hstep
      · exact Option.some.inj hstep ▸ h
      · exact absurd hstep (by simp)
  | refuse u =>
      rw [Senders.step] at hstep
      split at hstep
      · exact Option.some.inj hstep ▸ h
      · exact absurd hstep (by simp)
  | pace u act =>
      rw [Senders.step] at hstep
      split at hstep
      · exact absurd hstep (by simp)
      · obtain ⟨p, hp, rfl⟩ := Option.map_eq_some_iff.mp hstep
        exact h.effect (Pacer.step_effect hp)

/-- **Run lemma.** -/
theorem Paid.run (hpos : 0 < intervalNanos) (hcap : a + T < u64Max) {events : List (Event Thread)}
    (h : ∀ t, Paid a T s t) (horderly : s.pacer.Orderly intervalNanos)
    (hrun : Senders.run intervalNanos events s = some s') :
    (∀ t, Paid a T s' t) ∧ s'.pacer.Orderly intervalNanos := by
  induction events generalizing s with
  | nil => exact Option.some.inj hrun ▸ ⟨h, horderly⟩
  | cons e events ih =>
      obtain ⟨s₁, hstep, hrest⟩ := Option.bind_eq_some_iff.mp hrun
      exact ih (Paid.step hpos hcap h hstep) (orderly_step horderly hstep) hrest

/-- Items counted by their owners. -/
theorem sum_countP {Item Owner : Type*} [Fintype Owner] [DecidableEq Owner] (owner : Item → Owner)
    (P : Item → Prop) [DecidablePred P] (items : List Item) :
    ∑ t, items.countP (fun x => owner x = t ∧ P x) = items.countP fun x => P x := by
  induction items with
  | nil => simp
  | cons x items ih =>
      simp only [List.countP_cons, Finset.sum_add_distrib, ih, decide_eq_true_eq]
      congr 1
      by_cases hx : P x
      · simp [hx]
      · simp [hx]

/-- **The rate on the wire.** In every run of any threads, whatever the loads and the failing
exchanges of the pacer answer, however the threads are held up and whatever the socket refuses: a
window of length `T` holds at most `T / interval + 1` packets, and one more for each thread. -/
theorem wire_rate [Fintype Thread] (hpos : 0 < intervalNanos) {events : List (Event Thread)}
    (hrun : run intervalNanos events fresh = some s) {a T : ℕ} (hcap : a + T < u64Max) :
    s.sends.countP (fun p => a ≤ p.2 ∧ p.2 ≤ a + T) ≤
      T / intervalNanos + 1 + Fintype.card Thread := by
  obtain ⟨hpaid, horderly⟩ := Paid.run hpos hcap (fun t => fresh_paid) Pacer.fresh_orderly hrun
  have hslots : s.pacer.grants.countP (fun g => a ≤ g.slot ∧ g.slot ≤ a + T) ≤
      T / intervalNanos + 1 := by
    have hwindow := horderly.spacedUpTo.countP_window_le hpos hcap
    rwa [Pacer.slots, List.countP_map] at hwindow
  calc s.sends.countP (fun p => a ≤ p.2 ∧ p.2 ≤ a + T)
      = ∑ t, s.sentIn a T t := (sum_countP Prod.fst _ _).symm
    _ ≤ ∑ t, (grantedIn s.pacer a T t + 1) := Finset.sum_le_sum fun t _ => (hpaid t).le_succ
    _ = s.pacer.grants.countP (fun g => a ≤ g.slot ∧ g.slot ≤ a + T) + Fintype.card Thread := by
        rw [Finset.sum_add_distrib]
        congr 1
        · exact sum_countP Grant.thread _ _
        · simp
    _ ≤ T / intervalNanos + 1 + Fintype.card Thread := Nat.add_le_add_right hslots _

/-- Two threads at intervals of five: each sends a packet at once, waits for its slot, and sends
another. -/
def bothSend : List (Event Bool) :=
  [.send false, .send true, .pace false (.call 0), .pace false (.load 0), .pace false .exchange,
    .pace true (.call 0), .pace true (.load 5), .pace true .exchange, .pace false (.look 0),
    .send false, .tick 5, .pace true (.look 5), .send true]

/-- Two threads that send twice each. -/
theorem wire_rate_bothSend : ∃ s : Senders Bool,
    s.sends = [(false, 0), (true, 0), (false, 0), (true, 5)] ∧
      s.sends.countP (fun p => 0 ≤ p.2 ∧ p.2 ≤ 0 + 5) ≤ 5 / 5 + 1 + Fintype.card Bool := by
  obtain ⟨s, hrun, hsends⟩ : ∃ s : Senders Bool, run 5 bothSend fresh = some s ∧
      s.sends = [(false, 0), (true, 0), (false, 0), (true, 5)] := ⟨_, rfl, rfl⟩
  exact ⟨s, hsends, wire_rate (by decide) hrun (by decide)⟩

end Senders

end DataDiode
