import DataDiode.UdpTransfer

/-!
# Stray Packets

Two runs of the forwarding thread, one on the packets of a flow and whatever else arrives, one on
the same arrivals with stray packets in between while the flow is in progress: packets of other
flows, continuations that are not the next one or announce another length, packets without a
readable length. A stray changes nothing as long as the flow is not stale, and the flow is not
stale as long as its next fragment, which comes after the stray, is in time.

## Main results

* `Forwarder.handle_stray`: a stray leaves the flow and the forwarded datagrams as they are.
* `Completes.exists_next`: before a flow is completed, another fragment of it arrives in time.
* `forwardUdpPackets_strays`: both runs forward the same datagrams and end in the same state.
-/

namespace DataDiode

/-! ### Runs that differ in the log -/

/-- The same flow in progress and the same forwarded datagrams. -/
def Agree (f g : Forwarder) : Prop := f.fwd = g.fwd ∧ f.sent = g.sent

namespace Agree

variable {f g : Forwarder}

/-- Agreement may be put one behind the other. -/
theorem trans {k : Forwarder} (h : Agree f g) (h' : Agree g k) : Agree f k :=
  ⟨h.1.trans h'.1, h.2.trans h'.2⟩

/-- Warnings do not count. -/
theorem warn (h : Agree f g) (text text' : Text) : Agree (f.warn text) (g.warn text') := h

/-- What agrees goes on in agreement. -/
theorem proceed (h : Agree f g) (flow : UdpForwardState) (sendFault : Option IoError) :
    Agree (f.proceed flow sendFault) (g.proceed flow sendFault) := by
  rw [Forwarder.proceed, Forwarder.proceed]
  split
  · exact ⟨rfl, congrArg (· ++ [flow.fullPacket]) h.2⟩
  · exact ⟨rfl, h.2⟩

/-- A flow is started in agreement. -/
theorem startFlow (h : Agree f g) (a : Arrival) (declaredSize : ℕ) :
    Agree (f.startFlow a declaredSize) (g.startFlow a declaredSize) := by
  rw [Forwarder.startFlow, Forwarder.startFlow, h.1]
  exact h.proceed _ _

/-- A first fragment is handled in agreement. -/
theorem handleFirst (h : Agree f g) (a : Arrival) (declaredSize : ℕ) :
    Agree (f.handleFirst a declaredSize) (g.handleFirst a declaredSize) := by
  rw [Forwarder.handleFirst, Forwarder.handleFirst, h.1]
  split
  · exact h.warn _ _
  · split
    · exact h.warn _ _
    · split
      · exact h.startFlow _ _
      · split
        · exact h.startFlow _ _
        · split
          · exact h.warn _ _
          · exact (h.warn _ _).startFlow _ _

/-- A later fragment is handled in agreement. -/
theorem handleNext (h : Agree f g) (a : Arrival) (declaredSize : ℕ) :
    Agree (f.handleNext a declaredSize) (g.handleNext a declaredSize) := by
  rw [Forwarder.handleNext, Forwarder.handleNext, h.1]
  split
  · exact h
  · split
    · exact h.warn _ _
    · split
      · exact ⟨rfl, h.2⟩
      · exact h.proceed _ _

/-- **The log decides nothing**: threads that agree go on to agree. -/
theorem handle (h : Agree f g) (a : Arrival) : Agree (f.handle a) (g.handle a) := by
  rw [Forwarder.handle, Forwarder.handle]
  split
  · exact h.warn _ _
  · split
    · exact h.handleFirst _ _
    · exact h.handleNext _ _

/-- Any fragments are handled in agreement. -/
theorem forwardUdpPackets (h : Agree f g) (as : List Arrival) :
    Agree (forwardUdpPackets f as) (forwardUdpPackets g as) := by
  induction as generalizing f g with
  | nil => exact h
  | cons a as ih => exact ih (h.handle a)

end Agree

/-! ### Stray packets -/

/-- A packet that does not belong where it arrives, as the flow `id` stands at `fwd`. -/
inductive Stray (id : Bytes) (fwd : UdpForwardState) (p : Packet) : Prop
  /-- It belongs to another flow. -/
  | foreign (hid : p.flowId ≠ id)
  /-- It is a continuation, and not the next one. -/
  | notNext (hid : p.flowId = id) (hcount : p.count ≠ 0) (hnext : p.count ≠ fwd.previousCount + 1)
  /-- It is a continuation that announces another length. -/
  | resized (hid : p.flowId = id) (hcount : p.count ≠ 0)
      (hsize : p.declaredSize ≠ some fwd.expectedSize)
  /-- Its length cannot be read. -/
  | unparseable (hsize : p.declaredSize = none)

/-- **A stray changes nothing** while the flow in progress is not stale. -/
theorem Forwarder.handle_stray {id : Bytes} {f : Forwarder} {a : Arrival}
    (hid : f.fwd.currentId = some id) (hstray : Stray id f.fwd a.packet)
    (hlive : a.clock ≤ f.fwd.lastActivity + udpFlowTimeout) : Agree (f.handle a) f := by
  cases hstray with
  | foreign hother =>
      have hne : f.fwd.currentId ≠ some a.packet.flowId := by
        rw [hid]
        exact fun e => hother (Option.some.inj e).symm
      refine handle_shutOut (fun _ => ⟨?_, hne, by omega⟩) hne
      rw [hid]
      exact Option.some_ne_none _
  | notNext _ hcount hnext =>
      rw [handle]
      split
      · exact ⟨rfl, rfl⟩
      · rw [if_neg hcount, handleNext, if_pos (Or.inr hnext)]
        exact ⟨rfl, rfl⟩
  | resized _ hcount hsize =>
      rw [handle]
      split
      · exact ⟨rfl, rfl⟩
      · rename_i size hdeclared
        have hpinned : size ≠ f.fwd.expectedSize := fun e => hsize (e ▸ hdeclared)
        rw [if_neg hcount, handleNext]
        by_cases hflow : f.fwd.currentId ≠ some a.packet.flowId ∨
            a.packet.count ≠ f.fwd.previousCount + 1
        · rw [if_pos hflow]
          exact ⟨rfl, rfl⟩
        · rw [if_neg hflow, if_pos hpinned]
          exact ⟨rfl, rfl⟩
  | unparseable hsize =>
      rw [handle, hsize]
      exact ⟨rfl, rfl⟩

/-- Arrivals that are handled one after the other, by the clock. -/
structure Chronological (as : List Arrival) : Prop where
  handling : ∀ a ∈ as, a.clock ≤ a.stamp
  order : as.Pairwise fun a b => a.stamp ≤ b.clock

/-- `as'` are the arrivals `as` with stray packets put in while the flow `id` is in progress, where
`f` is the thread before `as`. -/
inductive Inserted (id : Bytes) : Forwarder → List Arrival → List Arrival → Prop
  | nil (f : Forwarder) : Inserted id f [] []
  | keep {f : Forwarder} {a : Arrival} {as as' : List Arrival}
      (h : Inserted id (f.handle a) as as') : Inserted id f (a :: as) (a :: as')
  | stray {f : Forwarder} {a : Arrival} {as as' : List Arrival}
      (hflight : f.fwd.currentId = some id) (hstray : Stray id f.fwd a.packet)
      (h : Inserted id f as as') : Inserted id f as (a :: as')

/-- The fragments of the datagram are all there. -/
theorem Inserted.subset {id : Bytes} {f : Forwarder} {as as' : List Arrival}
    (h : Inserted id f as as') : as ⊆ as' := by
  induction h with
  | nil f => exact List.Subset.refl _
  | keep h ih => exact List.cons_subset_cons _ ih
  | stray hflight hstray h ih => exact List.subset_cons_of_subset _ ih

/-- From the thread `f` on, the arrivals carry the flow `id` to its end, if it is not at its end:
it is in progress up to the last of them, which is a fragment of the flow that completes it, and
each of its fragments comes at most two seconds after the one before. Nothing is said of the other
arrivals. -/
structure Completes (id : Bytes) (f : Forwarder) (as : List Arrival) : Prop where
  inFlight : ∀ before after, as = before ++ after → after ≠ [] →
    (forwardUdpPackets f before).fwd.currentId = some id
  last : ∀ before a, as = before ++ [a] →
    a.packet.flowId = id ∧ ∃ flow, Accepts (forwardUdpPackets f before).fwd a flow
  ended : (forwardUdpPackets f as).fwd.currentId = none
  prompt : ∀ before a after flow, as = before ++ a :: after → a.packet.flowId = id →
    Accepts (forwardUdpPackets f before).fwd a flow →
    a.clock ≤ (forwardUdpPackets f before).fwd.lastActivity + udpFlowTimeout

namespace Completes

variable {id : Bytes} {f : Forwarder} {a : Arrival} {as : List Arrival}

/-- What completes a datagram, but for the first fragment. -/
theorem tail (h : Completes id f (a :: as)) : Completes id (f.handle a) as where
  inFlight before after e hne := h.inFlight (a :: before) after (by rw [e]; rfl) hne
  last before b e := h.last (a :: before) b (by rw [e]; rfl)
  ended := h.ended
  prompt before b after flow e := h.prompt (a :: before) b after flow (by rw [e]; rfl)

/-- An arrival that is no accepted fragment of the flow leaves it as it is. -/
theorem handle_of_not_accepts (h : Completes id f (a :: as))
    (hno : ∀ flow, a.packet.flowId = id → ¬Accepts f.fwd a flow) :
    as ≠ [] ∧ (f.handle a).fwd = f.fwd := by
  have hne : as ≠ [] := by
    rintro rfl
    obtain ⟨hid, flow, haccept⟩ := h.last [] a rfl
    exact hno flow hid haccept
  have hnext : (f.handle a).fwd.currentId = some id := h.inFlight [a] as rfl hne
  refine ⟨hne, ?_⟩
  cases f.handle_effect a with
  | ignored hfwd hsent => exact hfwd
  | dropped hid hfwd hsent =>
      rw [hfwd] at hnext
      exact absurd hnext (by simp [UdpForwardState.reset])
  | accepted haccept hpart hsent =>
      have hid := haccept.flow.1
      rw [hnext, Option.some.injEq] at hid
      exact absurd haccept (hno _ hid.symm)
  | completed flow haccept hfull hfwd hsent =>
      rw [hfwd] at hnext
      exact absurd hnext (by simp [UdpForwardState.reset])

/-- **The next fragment** of a flow in progress arrives in time. -/
theorem exists_next (h : Completes id f as) (hid : f.fwd.currentId = some id) :
    ∃ b ∈ as, b.clock ≤ f.fwd.lastActivity + udpFlowTimeout := by
  induction as generalizing f with
  | nil =>
      have hended : f.fwd.currentId = none := h.ended
      rw [hid] at hended
      exact absurd hended (Option.some_ne_none _)
  | cons a as ih =>
      by_cases haccept : a.packet.flowId = id ∧ ∃ flow, Accepts f.fwd a flow
      · obtain ⟨hsame, flow, haccept⟩ := haccept
        exact ⟨a, List.mem_cons_self, h.prompt [] a as flow rfl hsame haccept⟩
      · obtain ⟨hne, hfwd⟩ := h.handle_of_not_accepts
          fun flow hsame hacc => haccept ⟨hsame, flow, hacc⟩
        obtain ⟨b, hb, hclock⟩ := ih h.tail (by rw [hfwd, hid])
        exact ⟨b, List.mem_cons_of_mem _ hb, hfwd ▸ hclock⟩

/-- The last fragment alone. -/
theorem single {flow : UdpForwardState} (hflight : f.fwd.currentId = some id)
    (hsame : a.packet.flowId = id) (haccept : Accepts f.fwd a flow)
    (hended : (f.handle a).fwd.currentId = none)
    (hprompt : a.clock ≤ f.fwd.lastActivity + udpFlowTimeout) : Completes id f [a] where
  inFlight before after e hne := by
    rcases List.singleton_eq_append_iff.mp e with ⟨rfl, -⟩ | ⟨-, rfl⟩
    · exact hflight
    · exact absurd rfl hne
  last before b e := by
    obtain ⟨rfl, rfl⟩ : before = [] ∧ b = a := by
      simpa using (List.append_eq_singleton_iff.mp e.symm)
    exact ⟨hsame, flow, haccept⟩
  ended := hended
  prompt before b after flow' e _ _ := by
    obtain ⟨rfl, rfl, -⟩ : before = [] ∧ b = a ∧ after = [] := by
      simpa using (List.append_eq_singleton_iff.mp e.symm)
    exact hprompt

end Completes

/-- The runs with and without the strays agree. -/
theorem Inserted.agree {id : Bytes} {f : Forwarder} {as as' : List Arrival}
    (h : Inserted id f as as') (hcompletes : Completes id f as) (hchrono : Chronological as') :
    Agree (forwardUdpPackets f as') (forwardUdpPackets f as) := by
  induction h with
  | nil f => exact ⟨rfl, rfl⟩
  | keep h ih =>
      exact ih hcompletes.tail ⟨fun b hb => hchrono.handling b (List.mem_cons_of_mem _ hb),
        (List.pairwise_cons.mp hchrono.order).2⟩
  | @stray f a as as' hflight hstray h ih =>
      obtain ⟨horder, hrest⟩ := List.pairwise_cons.mp hchrono.order
      have hhandling := hchrono.handling a List.mem_cons_self
      obtain ⟨b, hb, hclock⟩ := hcompletes.exists_next hflight
      have hbefore : a.stamp ≤ b.clock := horder b (h.subset hb)
      have hstep := f.handle_stray hflight hstray (by omega)
      exact (hstep.forwardUdpPackets as').trans
        (ih hcompletes ⟨fun b hb => hchrono.handling b (List.mem_cons_of_mem _ hb), hrest⟩)

/-- **Stray traffic does not perturb a flow**: let `f` be the thread behind a fragment that opens
the flow `id`, whatever came before, and let the arrivals `as` carry the flow to its end, each of
its fragments at most two seconds after the one before. With any number of strays put in while the
flow is in progress, the thread has forwarded the same datagrams and is in the same state when the
flow has ended, and so it is whatever arrives afterwards. -/
theorem forwardUdpPackets_strays {id : Bytes} {f : Forwarder} {as as' : List Arrival}
    (hcompletes : Completes id f as) (hinserted : Inserted id f as as')
    (hchrono : Chronological as') (later : List Arrival) :
    (forwardUdpPackets f (as' ++ later)).fwd = (forwardUdpPackets f (as ++ later)).fwd ∧
      (forwardUdpPackets f (as' ++ later)).sent = (forwardUdpPackets f (as ++ later)).sent := by
  rw [forwardUdpPackets_append, forwardUdpPackets_append]
  exact (hinserted.agree hcompletes hchrono).forwardUdpPackets later

/-- A flow of two bytes, one in each fragment. -/
def twoBytes : UdpDatagram :=
  ⟨("c4ca4238a0b923820dcc509a6f75849b".toList.map fun c => UInt8.ofNat c.toNat), [1, 2]⟩

/-- The thread behind the first fragment. -/
def halfway : Forwarder := (Forwarder.new 0).handle (twoBytes.fragment 0 [1]).atOnce

/-- The flow half-way through the datagram. -/
theorem halfway_fwd : halfway.fwd = ⟨some twoBytes.flowId, [1], 0, 2, 0⟩ := by decide +kernel

/-- A first fragment of another flow between the two is a stray. -/
theorem forwardUdpPackets_strays_halfway :
    (forwardUdpPackets halfway [(shortDatagram.fragment 0 [121]).atOnce,
        (twoBytes.fragment 1 [2]).atOnce]).sent =
      (forwardUdpPackets halfway [(twoBytes.fragment 1 [2]).atOnce]).sent := by
  have hflight : halfway.fwd.currentId = some twoBytes.flowId := by rw [halfway_fwd]
  have haccept : Accepts halfway.fwd (twoBytes.fragment 1 [2]).atOnce
      ⟨some twoBytes.flowId, [1, 2], 1, 2, 0⟩ := by
    rw [halfway_fwd]
    exact Or.inr ⟨rfl, rfl, by decide, by decide, by decide, by decide, rfl⟩
  have hcompletes : Completes twoBytes.flowId halfway [(twoBytes.fragment 1 [2]).atOnce] :=
    .single hflight rfl haccept (by decide) (Nat.zero_le _)
  have hinserted : Inserted twoBytes.flowId halfway [(twoBytes.fragment 1 [2]).atOnce]
      [(shortDatagram.fragment 0 [121]).atOnce, (twoBytes.fragment 1 [2]).atOnce] :=
    .stray hflight (.foreign (by decide)) (.keep (.nil _))
  exact (forwardUdpPackets_strays hcompletes hinserted
    ⟨by simp [Packet.atOnce], by simp [Packet.atOnce]⟩ []).2

end DataDiode
