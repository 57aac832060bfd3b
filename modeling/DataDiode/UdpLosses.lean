import DataDiode.UdpTransfer

/-!
# Datagrams over a Lossy Line

A **copy** is one emission of a datagram as it arrives: some of its packets, in order, each at
its own time. The traffic is the concatenation of the copies, two for every datagram.

A copy of which only a part arrives leaves its flow in progress, and while that flow is alive
the forwarding thread ignores the first fragment of any other datagram. This is deliberate —
otherwise stray first fragments could destroy a reassembly — but it means that a loss in one
datagram can cost the next.

## Main results

* `forwardUdpPackets_shutOut`: a lost packet costs a datagram of which nothing was lost.
* `forwardUdpPackets_resilient`: a datagram with a complete copy is forwarded unless a packet
  of an incomplete copy of another datagram arrived at most two seconds before that copy; in
  particular the loss of one copy never costs its own datagram.
-/

namespace DataDiode

/-- One emission of a datagram, as it arrives. -/
structure UdpCopy where
  datagram : UdpDatagram
  arrivals : List Arrival

namespace UdpCopy

/-- The packets of the copy, as far as they are not lost. -/
structure Lossy (c : UdpCopy) : Prop where
  sendable : c.datagram.Sendable
  sublist : (c.arrivals.map fun a => some a.packet).Sublist
    ((udpFragments c.datagram).map decodePacket)

/-- No packet of the copy is lost. -/
def Complete (c : UdpCopy) : Prop :=
  (c.arrivals.map fun a => some a.packet) = (udpFragments c.datagram).map decodePacket

/-- Counting the packets decides it. -/
instance (c : UdpCopy) : Decidable c.Complete := inferInstanceAs (Decidable (_ = _))

/-- When the first packet of the copy arrives. -/
def clock (c : UdpCopy) : ℕ := (c.arrivals.head?.map Arrival.clock).getD 0

/-- Every packet of a copy belongs to the flow of its datagram. -/
theorem Lossy.flowId {c : UdpCopy} (h : c.Lossy) {a : Arrival} (ha : a ∈ c.arrivals) :
    a.packet.flowId = c.datagram.flowId := by
  have hmem := h.sublist.subset (List.mem_map_of_mem (f := fun a => some a.packet) ha)
  rw [map_decodePacket_udpFragments h.sendable, List.mem_map] at hmem
  obtain ⟨p, hp, hpa⟩ := hmem
  rw [← Option.some.inj hpa]
  exact UdpDatagram.flowId_of_mem hp

/-- A complete copy, taken apart. -/
theorem Complete.exists_cons {c : UdpCopy} (hc : c.Complete) (h : c.Lossy) :
    ∃ a as, c.arrivals = a :: as ∧ (a :: as).map Arrival.packet = c.datagram.packets := by
  rw [Complete, map_decodePacket_udpFragments h.sendable] at hc
  have hpackets : c.arrivals.map Arrival.packet = c.datagram.packets := by
    refine List.map_injective_iff.mpr (Option.some_injective Packet) ?_
    rw [List.map_map]
    exact hc
  obtain ⟨a, as, has⟩ := List.exists_cons_of_ne_nil fun hnil : c.arrivals = [] =>
    UdpDatagram.packets_ne_nil h.sendable (by rw [← hpackets, hnil, List.map_nil])
  exact ⟨a, as, has, has ▸ hpackets⟩

end UdpCopy

/-- The traffic of some copies. -/
def traffic (copies : List UdpCopy) : List Arrival := copies.flatMap UdpCopy.arrivals

/-! ### Where the flow in progress comes from -/

/-- A flow in progress stems from an incomplete copy, and its last accepted fragment is a packet
of that copy. -/
def Stems (copies : List UdpCopy) (fwd : UdpForwardState) : Prop :=
  ∀ id, fwd.currentId = some id → ∃ e ∈ copies, ¬e.Complete ∧ e.datagram.flowId = id ∧
    ∃ a ∈ e.arrivals, fwd.lastActivity = a.stamp

/-- A flow of one of these copies is one of more copies. -/
theorem Stems.mono {copies copies' : List UdpCopy} {fwd : UdpForwardState}
    (h : Stems copies fwd) (hsub : copies ⊆ copies') : Stems copies' fwd := by
  intro id hid
  obtain ⟨e, he, hrest⟩ := h id hid
  exact ⟨e, hsub he, hrest⟩

/-- A packet of an incomplete copy keeps the origin of the flow. -/
theorem Stems.handle {copies : List UdpCopy} {f : Forwarder} (h : Stems copies f.fwd)
    {c : UdpCopy} (hc : c ∈ copies) (hlossy : c.Lossy) (hpart : ¬c.Complete) {a : Arrival}
    (ha : a ∈ c.arrivals) : Stems copies (f.handle a).fwd := by
  cases f.handle_effect a with
  | ignored hfwd hsent => rwa [hfwd]
  | dropped hid hfwd hsent =>
      intro id hnew
      rw [hfwd] at hnew
      exact absurd hnew (by simp [UdpForwardState.reset])
  | accepted haccept hpart' hsent =>
      obtain ⟨hflow, hstamp⟩ := haccept.flow
      intro id hnew
      rw [hflow, Option.some.injEq, hlossy.flowId ha] at hnew
      exact ⟨c, hc, hpart, hnew, a, ha, hstamp⟩
  | completed flow haccept hfull hfwd hsent =>
      intro id hnew
      rw [hfwd] at hnew
      exact absurd hnew (by simp [UdpForwardState.reset])

/-- Packets of a copy that is not complete leave a flow of a copy. -/
theorem Stems.forwardUdpPackets {copies : List UdpCopy} {c : UdpCopy} (hc : c ∈ copies)
    (hlossy : c.Lossy) (hpart : ¬c.Complete) {as : List Arrival} (has : as ⊆ c.arrivals) :
    ∀ {f : Forwarder}, Stems copies f.fwd → Stems copies (forwardUdpPackets f as).fwd := by
  induction as with
  | nil => exact fun h => h
  | cons a as ih =>
      intro f h
      rw [List.cons_subset] at has
      exact ih has.2 (h.handle hc hlossy hpart has.1)

/-- A complete copy that is shut out leaves everything as it is. -/
theorem forwardUdpPackets_shutOut_rest {d : UdpDatagram} {ps : List Packet}
    (hps : ps ⊆ d.packets) : ∀ (f : Forwarder) (as : List Arrival),
      f.fwd.currentId ≠ some d.flowId → as.map Arrival.packet = ps →
      (∀ a ∈ as, a.packet.count = 0 → f.fwd.ShutsOut d.flowId a.clock) →
      (forwardUdpPackets f as).fwd = f.fwd := by
  induction ps with
  | nil =>
      intro f as _ has _
      rw [List.map_eq_nil_iff] at has
      rw [has]
      rfl
  | cons p ps ih =>
      intro f as hid has hout
      obtain ⟨a, as, rfl, ha, has⟩ := List.map_eq_cons_iff.mp has
      rw [List.cons_subset] at hps
      have hflow : a.packet.flowId = d.flowId := by
        rw [ha]
        exact UdpDatagram.flowId_of_mem hps.1
      obtain ⟨hfwd, -⟩ := Forwarder.handle_shutOut (f := f) (a := a)
        (fun h0 => by rw [hflow]; exact hout a List.mem_cons_self h0) (by rw [hflow]; exact hid)
      have hrec := ih hps.2 (f.handle a) as (by rw [hfwd]; exact hid) has
        fun b hb => by rw [hfwd]; exact hout b (List.mem_cons_of_mem _ hb)
      rw [hfwd] at hrec
      exact hrec

/-- Behind its first packet, a copy has no packet numbered zero. -/
theorem count_pos_of_mem_udpDecoded {dataLength pkgId : Bytes} {chunks : List Bytes}
    {p : Packet} : ∀ {count}, p ∈ udpDecoded dataLength pkgId count chunks → count ≤ p.count := by
  induction chunks with
  | nil => exact fun h => absurd h List.not_mem_nil
  | cons chunk chunks ih =>
      intro count h
      rw [udpDecoded] at h
      rcases List.mem_cons.mp h with rfl | h
      · exact le_rfl
      · exact le_trans (Nat.le_succ _) (ih h)

/-- **One copy** keeps the origin of the flow in progress. -/
theorem Stems.copy {copies : List UdpCopy} {f : Forwarder} (h : Stems copies f.fwd) {c : UdpCopy}
    (hlossy : c.Lossy) :
    Stems (copies ++ [c]) (DataDiode.forwardUdpPackets f c.arrivals).fwd := by
  have hmono : copies ⊆ copies ++ [c] := List.subset_append_left _ _
  by_cases hc : c.Complete
  · obtain ⟨a, as, hcs, has⟩ := hc.exists_cons hlossy
    rw [hcs]
    by_cases hout : f.fwd.ShutsOut c.datagram.flowId a.clock
    · have hlater : ∀ b ∈ as, b.packet.count ≠ 0 := by
        intro b hb
        have hchunks : Slices.chunks chunkSize c.datagram.data ≠ [] := by
          rw [Slices.chunks_eq_cons (by decide) hlossy.sendable.ne_nil]
          exact List.cons_ne_nil _ _
        obtain ⟨chunk, chunks, hcc⟩ := List.exists_cons_of_ne_nil hchunks
        rw [UdpDatagram.packets, hcc, udpDecoded, List.map_cons, List.cons.injEq] at has
        have hmem := List.mem_map_of_mem (f := Arrival.packet) hb
        rw [has.2] at hmem
        have := count_pos_of_mem_udpDecoded hmem
        omega
      rw [forwardUdpPackets_shutOut_rest (List.Subset.refl _) _ _ hout.2.1 has]
      · exact h.mono hmono
      · intro b hb h0
        rcases List.mem_cons.mp hb with rfl | hb
        · exact hout
        · exact absurd h0 (hlater b hb)
    · obtain ⟨hid, -⟩ := forwardUdpPackets_copy hlossy.sendable has hout
      intro id hnew
      rw [hid] at hnew
      exact absurd hnew (by simp)
  · exact Stems.forwardUdpPackets (List.mem_append_right _ List.mem_cons_self) hlossy hc
      (List.Subset.refl _) (h.mono hmono)

/-- All copies keep the origin of the flow in progress. -/
theorem stems_traffic {f : Forwarder} (hidle : f.fwd.currentId = none) {copies : List UdpCopy}
    (hlossy : ∀ c ∈ copies, c.Lossy) : Stems copies (forwardUdpPackets f (traffic copies)).fwd := by
  induction copies using List.reverseRecOn with
  | nil =>
      intro id hid
      have hnone : f.fwd.currentId = some id := hid
      rw [hidle] at hnone
      exact absurd hnone (by simp)
  | append_singleton copies c ih =>
      have h := ih fun e he => hlossy e (List.mem_append_left _ he)
      have hc := hlossy c (List.mem_append_right _ List.mem_cons_self)
      rw [traffic, List.flatMap_append, List.flatMap_singleton, forwardUdpPackets_append]
      exact h.copy hc

/-! ### Which datagrams get through -/

/-- A complete copy that is not shut out gets its datagram through. -/
theorem mem_sent_of_complete {f : Forwarder} {pre post : List UdpCopy} {c : UdpCopy}
    (hlossy : c.Lossy) (hc : c.Complete)
    (hfree : ¬(forwardUdpPackets f (traffic pre)).fwd.ShutsOut c.datagram.flowId c.clock) :
    c.datagram.data ∈ (forwardUdpPackets f (traffic (pre ++ c :: post))).sent := by
  obtain ⟨a, as, hcs, has⟩ := hc.exists_cons hlossy
  have hclock : c.clock = a.clock := by rw [UdpCopy.clock, hcs]; rfl
  rw [hclock] at hfree
  obtain ⟨-, hsent⟩ := forwardUdpPackets_copy hlossy.sendable has hfree
  have hsplit : traffic (pre ++ c :: post) = traffic pre ++ (a :: as) ++ traffic post := by
    rw [traffic, traffic, traffic, List.flatMap_append, List.flatMap_cons, hcs,
      List.append_assoc]
  rw [hsplit, forwardUdpPackets_append, forwardUdpPackets_append]
  refine (sent_prefix_forwardUdpPackets _ _).subset ?_
  rw [hsent]
  exact List.mem_append_right _ List.mem_cons_self

/-- Every emission of a datagram has a twin. -/
theorem exists_twin {ds : List UdpDatagram} : ∀ {pre post : List UdpCopy} {c : UdpCopy},
    (pre ++ c :: post).map UdpCopy.datagram = (ds.flatMap fun d => List.replicate udpResend d) →
      ∃ e, (e ∈ pre ∨ e ∈ post) ∧ e.datagram = c.datagram := by
  induction ds with
  | nil => intro pre post c h; simp at h
  | cons d ds ih =>
      intro pre post c h
      rw [List.flatMap_cons, udpResend, List.replicate_succ, List.replicate_one] at h
      rcases pre with _ | ⟨e, _ | ⟨e', pre⟩⟩
      · cases post with
        | nil => simp at h
        | cons e post =>
            simp only [List.nil_append, List.map_cons, List.cons_append, List.cons.injEq] at h
            exact ⟨e, Or.inr List.mem_cons_self, by rw [h.1, h.2.1]⟩
      · simp only [List.cons_append, List.nil_append, List.map_cons, List.cons.injEq] at h
        exact ⟨e, Or.inl List.mem_cons_self, by rw [h.1, h.2.1]⟩
      · simp only [List.cons_append, List.nil_append, List.map_cons, List.cons.injEq] at h
        obtain ⟨x, hx, hxc⟩ := ih h.2.2
        refine ⟨x, ?_, hxc⟩
        rcases hx with hx | hx
        · exact Or.inl (List.mem_cons_of_mem _ (List.mem_cons_of_mem _ hx))
        · exact Or.inr hx

/-- **Resilience**: some datagrams are sent twice each over a line that loses packets but keeps
their order, to a forwarding thread without a flow.

A datagram with a complete copy is forwarded, unless a live flow shuts that copy out when it
arrives; that flow belongs to an incomplete copy of another datagram, one of whose packets
arrived at most two seconds before. In particular, if one copy alone suffers losses, its own
datagram is forwarded all the same. -/
theorem forwardUdpPackets_resilient {ds : List UdpDatagram} {copies : List UdpCopy}
    (htwice : copies.map UdpCopy.datagram = ds.flatMap fun d => List.replicate udpResend d)
    (hlossy : ∀ c ∈ copies, c.Lossy) {f : Forwarder} (hidle : f.fwd.currentId = none) :
    (∀ pre c post, copies = pre ++ c :: post → c.Complete →
      c.datagram.data ∈ (forwardUdpPackets f (traffic copies)).sent ∨
        (forwardUdpPackets f (traffic pre)).fwd.ShutsOut c.datagram.flowId c.clock ∧
          ∃ e ∈ pre, ¬e.Complete ∧ e.datagram.flowId ≠ c.datagram.flowId ∧
            ∃ a ∈ e.arrivals, c.clock - a.stamp ≤ udpFlowTimeout) ∧
    ∀ pre c post, copies = pre ++ c :: post → (∀ e ∈ pre ++ post, e.Complete) →
      c.datagram.data ∈ (forwardUdpPackets f (traffic copies)).sent := by
  have hthrough : ∀ pre c post, copies = pre ++ c :: post → c.Complete →
      c.datagram.data ∈ (forwardUdpPackets f (traffic copies)).sent ∨
        (forwardUdpPackets f (traffic pre)).fwd.ShutsOut c.datagram.flowId c.clock ∧
          ∃ e ∈ pre, ¬e.Complete ∧ e.datagram.flowId ≠ c.datagram.flowId ∧
            ∃ a ∈ e.arrivals, c.clock - a.stamp ≤ udpFlowTimeout := by
    rintro pre c post rfl hc
    by_cases hout : (forwardUdpPackets f (traffic pre)).fwd.ShutsOut c.datagram.flowId c.clock
    · right
      have hstems := stems_traffic hidle fun e he => hlossy e (List.mem_append_left _ he)
      obtain ⟨id, hid⟩ := Option.ne_none_iff_exists'.mp hout.1
      obtain ⟨e, he, hpart, heid, a, ha, hstamp⟩ := hstems id hid
      exact ⟨hout, e, he, hpart, fun h => hout.2.1 (by rw [hid, ← heid, h]), a, ha,
        hstamp ▸ hout.2.2⟩
    · exact Or.inl (mem_sent_of_complete (hlossy c (by simp)) hc hout)
  refine ⟨hthrough, fun pre c post hsplit hothers => ?_⟩
  -- the twin of the copy is complete, and no other copy can shut it out
  obtain ⟨e, he, hec⟩ := exists_twin (hsplit ▸ htwice)
  have hcopies : e ∈ copies := by
    rw [hsplit]
    rcases he with he | he <;> simp [he]
  obtain ⟨pre', post', hsplit'⟩ := List.append_of_mem hcopies
  rw [← hec]
  rcases hthrough pre' e post' hsplit' (hothers e (List.mem_append.mpr he)) with
    hsent | ⟨-, x, hx, hpart, hdiff, -⟩
  · exact hsent
  · have hxc : x ∈ pre ++ c :: post := by
      rw [← hsplit, hsplit']
      exact List.mem_append_left _ hx
    rcases List.mem_append.mp hxc with hx' | hx'
    · exact absurd (hothers x (List.mem_append_left _ hx')) hpart
    · rcases List.mem_cons.mp hx' with rfl | hx'
      · exact absurd (by rw [hec]) hdiff
      · exact absurd (hothers x (List.mem_append_right _ hx')) hpart

/-! ### The cost of a lost packet -/

/-- Both datagrams, sent twice each; the second copy of the first loses its last packet. -/
def oneLoss : List UdpCopy :=
  [⟨longDatagram, [(longDatagram.fragment 0 fullChunk).atOnce,
      (longDatagram.fragment 1 [120]).atOnce]⟩,
    ⟨longDatagram, [(longDatagram.fragment 0 fullChunk).atOnce]⟩,
    ⟨shortDatagram, [(shortDatagram.fragment 0 [121]).atOnce]⟩,
    ⟨shortDatagram, [(shortDatagram.fragment 0 [121]).atOnce]⟩]

/-- A copy of which some packets arrive at once. -/
theorem UdpCopy.lossy_of_sublist {d : UdpDatagram} (hd : d.Sendable) {ps : List Packet}
    (h : ps.Sublist d.packets) : (⟨d, ps.map Packet.atOnce⟩ : UdpCopy).Lossy := by
  refine ⟨hd, ?_⟩
  rw [map_decodePacket_udpFragments hd, List.map_map]
  exact h.map some

/-- A copy of which all packets arrive at once. -/
theorem UdpCopy.complete_of_eq {d : UdpDatagram} (hd : d.Sendable) {ps : List Packet}
    (h : ps = d.packets) : (⟨d, ps.map Packet.atOnce⟩ : UdpCopy).Complete := by
  rw [Complete, map_decodePacket_udpFragments hd, List.map_map, h]
  rfl

/-- Each copy is a part of a datagram, in order. -/
theorem oneLoss_lossy : ∀ c ∈ oneLoss, c.Lossy := by
  have hlong := longDatagram_packets
  have hshort := shortDatagram_packets
  intro c hc
  rw [oneLoss, List.mem_cons, List.mem_cons, List.mem_cons, List.mem_singleton] at hc
  rcases hc with rfl | rfl | rfl | rfl
  · exact UdpCopy.lossy_of_sublist longDatagram_sendable (by rw [hlong])
  · have hfirst : [longDatagram.fragment 0 fullChunk].Sublist longDatagram.packets := by
      rw [hlong]
      exact List.sublist_append_left _ [longDatagram.fragment 1 [120]]
    exact UdpCopy.lossy_of_sublist longDatagram_sendable hfirst
  · exact UdpCopy.lossy_of_sublist shortDatagram_sendable (by rw [hshort])
  · exact UdpCopy.lossy_of_sublist shortDatagram_sendable (by rw [hshort])

/-- After the second copy of the long datagram, its flow is in progress. -/
theorem oneLoss_flow :
    (forwardUdpPackets (.new 0) (traffic (oneLoss.take 2))).fwd =
        ⟨some longDatagram.flowId, fullChunk, 0, 941, 0⟩ ∧
      (forwardUdpPackets (.new 0) (traffic (oneLoss.take 2))).sent = [longDatagram.data] := by
  have htraffic : traffic (oneLoss.take 2) =
      [(longDatagram.fragment 0 fullChunk).atOnce, (longDatagram.fragment 1 [120]).atOnce] ++
        [(longDatagram.fragment 0 fullChunk).atOnce] := rfl
  have hlen : fullChunk.length = 940 := by
    rw [fullChunk]
    exact List.length_replicate
  have hsize : longDatagram.data.length = 941 := by decide +kernel
  have hpackets : [(longDatagram.fragment 0 fullChunk).atOnce,
      (longDatagram.fragment 1 [120]).atOnce].map Arrival.packet = longDatagram.packets :=
    longDatagram_packets.symm
  obtain ⟨hid, hsent⟩ := forwardUdpPackets_copy longDatagram_sendable (f := .new 0) hpackets
    (fun h => h.1 rfl)
  rw [htraffic, forwardUdpPackets_append]
  set f := forwardUdpPackets (.new 0)
    [(longDatagram.fragment 0 fullChunk).atOnce, (longDatagram.fragment 1 [120]).atOnce]
  have hdeclared : (longDatagram.fragment 0 fullChunk).declaredSize = some 941 :=
    hsize ▸ longDatagram_sendable.declaredSize rfl
  have hstep := Forwarder.handle_first (f := f)
    (a := (longDatagram.fragment 0 fullChunk).atOnce) rfl hdeclared (by decide)
    (fun h => absurd (congrArg List.length h)
      (by rw [Packet.atOnce, UdpDatagram.fragment, hlen]; decide))
    (by rw [Packet.atOnce, UdpDatagram.fragment, hlen]; decide)
    (by rw [Packet.atOnce, UdpDatagram.fragment, hlen]; decide) (fun h => h.1 hid)
  rw [Advanced, if_neg (by rw [Packet.atOnce, UdpDatagram.fragment, hlen]; decide)] at hstep
  exact ⟨hstep.1, hstep.2.trans hsent⟩

/-- The loss of one packet of the first datagram costs the second, of which nothing is lost. -/
theorem forwardUdpPackets_shutOut :
    (oneLoss.map UdpCopy.datagram =
        [longDatagram, shortDatagram].flatMap fun d => List.replicate udpResend d) ∧
      (∀ c ∈ oneLoss, c.Lossy) ∧ longDatagram.flowId ≠ shortDatagram.flowId ∧
      (∀ c ∈ oneLoss.drop 2, c.datagram = shortDatagram ∧ c.Complete) ∧
      (traffic oneLoss).length + 1 = (udpEmitted [longDatagram, shortDatagram]).length ∧
      shortDatagram.data ∉ (forwardUdpPackets (.new 0) (traffic oneLoss)).sent := by
  refine ⟨rfl, oneLoss_lossy, by decide, ?_, ?_, ?_⟩
  · intro c hc
    rw [oneLoss, List.drop_succ_cons, List.drop_succ_cons, List.drop_zero, List.mem_cons,
      List.mem_singleton, or_self] at hc
    rw [hc]
    exact ⟨rfl, UdpCopy.complete_of_eq shortDatagram_sendable shortDatagram_packets.symm⟩
  · have hsendable : ∀ d ∈ [longDatagram, shortDatagram], d.Sendable :=
      List.forall_mem_cons.mpr ⟨longDatagram_sendable,
        List.forall_mem_singleton.mpr shortDatagram_sendable⟩
    have hemitted := congrArg List.length (map_decodePacket_udpEmitted hsendable)
    rw [List.length_map, List.length_map, List.flatMap_cons, List.flatMap_singleton,
      longDatagram_packets, shortDatagram_packets] at hemitted
    rw [hemitted]
    rfl
  · obtain ⟨hfwd, hsent⟩ := oneLoss_flow
    have hsplit : traffic oneLoss = traffic (oneLoss.take 2) ++
        [(shortDatagram.fragment 0 [121]).atOnce, (shortDatagram.fragment 0 [121]).atOnce] := rfl
    rw [hsplit, forwardUdpPackets_append]
    set f := forwardUdpPackets (.new 0) (traffic (oneLoss.take 2))
    have hignore : ∀ {g : Forwarder}, g.fwd = f.fwd → g.sent = f.sent →
        (g.handle (shortDatagram.fragment 0 [121]).atOnce).fwd = f.fwd ∧
          (g.handle (shortDatagram.fragment 0 [121]).atOnce).sent = f.sent := by
      intro g hg hgs
      have hid : g.fwd.currentId ≠ some (shortDatagram.pkgId.take 8) := by
        rw [hg, hfwd]
        decide
      rw [← hg, ← hgs]
      refine Forwarder.handle_shutOut (fun _ => ⟨?_, hid, ?_⟩) hid
      · rw [hg, hfwd]
        exact Option.some_ne_none _
      · exact Nat.le_trans (Nat.sub_le _ _) (Nat.zero_le _)
    obtain ⟨h1, h1s⟩ := hignore rfl rfl
    obtain ⟨-, h2s⟩ := hignore h1 h1s
    have hnew : shortDatagram.data ∉ [longDatagram.data] := by decide +kernel
    rw [← hsent, ← h2s] at hnew
    exact hnew

/-- The datagram that lost the packet is forwarded. -/
theorem forwardUdpPackets_resilient_oneLoss :
    longDatagram.data ∈ (forwardUdpPackets (.new 0) (traffic oneLoss)).sent :=
  (@forwardUdpPackets_resilient [longDatagram, shortDatagram] _ rfl oneLoss_lossy (.new 0) rfl).2
    (oneLoss.take 1) ⟨longDatagram, [(longDatagram.fragment 0 fullChunk).atOnce]⟩
    (oneLoss.drop 2) rfl (List.forall_mem_cons.mpr
      ⟨UdpCopy.complete_of_eq longDatagram_sendable longDatagram_packets.symm,
        List.forall_mem_cons.mpr
          ⟨UdpCopy.complete_of_eq shortDatagram_sendable shortDatagram_packets.symm,
            List.forall_mem_singleton.mpr
              (UdpCopy.complete_of_eq shortDatagram_sendable shortDatagram_packets.symm)⟩⟩)

end DataDiode
