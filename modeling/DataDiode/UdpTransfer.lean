import DataDiode.Reference
import DataDiode.UdpForward
import DataDiode.UdpSender

/-!
# Datagrams End to End

The fragmenting thread of the sender against the forwarding thread of the receiver.

A complete copy of a datagram that meets no live flow of another datagram is forwarded, and
leaves no flow behind; so without losses one copy follows the other.

## Main results

* `Midway.handle`, `Midway.forward`: the next fragment of a copy, and the rest of it.
* `forwardUdpPackets_copy`: a complete copy that no live flow shuts out is forwarded, once,
  and leaves no flow.
* `forwardUdpPackets_lossless`: without losses every datagram is forwarded exactly as often
  as it was sent, in order.
-/

namespace DataDiode

/-! ### Single fragments -/

/-- The thread after accepting a fragment that leads to `flow`. -/
def Advanced (f f' : Forwarder) (flow : UdpForwardState) : Prop :=
  if flow.fullPacket.length = flow.expectedSize then
    f'.fwd = flow.reset ∧ f'.sent = f.sent ++ [flow.fullPacket]
  else f'.fwd = flow ∧ f'.sent = f.sent

namespace Forwarder

/-- Going on with a flow, and giving a datagram to the target socket if it is complete. -/
theorem proceed_advanced {f g : Forwarder} (hsent : g.sent = f.sent) (flow : UdpForwardState)
    (sendFault : Option IoError) : Advanced f (g.proceed flow sendFault) flow := by
  rw [Advanced, proceed]
  split
  · exact ⟨rfl, by rw [← hsent]; rfl⟩
  · exact ⟨rfl, hsent⟩

/-- A first fragment that is not shut out opens its flow. -/
theorem handle_first {f : Forwarder} {a : Arrival} {size : ℕ} (hcount : a.packet.count = 0)
    (hsize : a.packet.declaredSize = some size) (hcap : size ≤ udpMaxForwardBytes)
    (hne : a.packet.data ≠ []) (hchunk : a.packet.data.length ≤ chunkSize)
    (hfits : a.packet.data.length ≤ size) (hfree : ¬f.fwd.ShutsOut a.packet.flowId a.clock) :
    Advanced f (f.handle a)
      ⟨some a.packet.flowId, a.packet.data, 0, size, a.stamp⟩ := by
  have hpos := List.length_pos_iff.mpr hne
  have hrange : ¬(size = 0 ∨ udpMaxForwardBytes < size) := by omega
  have hfrag : ¬(a.packet.data = [] ∨ chunkSize < a.packet.data.length ∨
      size < a.packet.data.length) := by
    simp only [hne, false_or]
    omega
  simp only [handle, hsize, if_pos hcount, handleFirst, if_neg hrange, if_neg hfrag]
  split
  · exact proceed_advanced rfl _ _
  · rename_i current hid
    by_cases hsame : current = a.packet.flowId
    · rw [if_pos hsame]
      exact proceed_advanced rfl _ _
    · have hstale : ¬(a.clock - f.fwd.lastActivity ≤ udpFlowTimeout) := fun h =>
        hfree ⟨by rw [hid]; exact Option.some_ne_none _,
          by rw [hid]; exact fun e => hsame (Option.some.inj e), h⟩
      rw [if_neg hsame, if_neg hstale]
      exact proceed_advanced rfl _ _

/-- The next fragment of the flow in progress continues it. -/
theorem handle_next {f : Forwarder} {a : Arrival} (hid : f.fwd.currentId = some a.packet.flowId)
    (hcount : a.packet.count = f.fwd.previousCount + 1)
    (hsize : a.packet.declaredSize = some f.fwd.expectedSize) (hne : a.packet.data ≠ [])
    (hchunk : a.packet.data.length ≤ chunkSize)
    (hfits : a.packet.data.length ≤ f.fwd.expectedSize - f.fwd.fullPacket.length) :
    Advanced f (f.handle a) ⟨some a.packet.flowId, f.fwd.fullPacket ++ a.packet.data,
      a.packet.count, f.fwd.expectedSize, a.stamp⟩ := by
  have hflow : ¬(f.fwd.currentId ≠ some a.packet.flowId ∨
      a.packet.count ≠ f.fwd.previousCount + 1) := by simp [hid, hcount]
  have hfrag : ¬(a.packet.data = [] ∨ chunkSize < a.packet.data.length ∨
      f.fwd.expectedSize - f.fwd.fullPacket.length < a.packet.data.length) := by
    simp only [hne, false_or]
    omega
  have hlater : a.packet.count ≠ 0 := by omega
  simp only [handle, hsize, if_neg hlater, handleNext]
  rw [if_neg hflow, if_neg (not_not_intro rfl), if_neg hfrag, ← hid]
  exact proceed_advanced rfl _ _

/-- While a live flow shuts a flow out, its fragments do nothing. -/
theorem handle_shutOut {f : Forwarder} {a : Arrival}
    (hout : a.packet.count = 0 → f.fwd.ShutsOut a.packet.flowId a.clock)
    (hid : f.fwd.currentId ≠ some a.packet.flowId) :
    (f.handle a).fwd = f.fwd ∧ (f.handle a).sent = f.sent := by
  cases f.handle_effect a with
  | ignored hfwd hsent => exact ⟨hfwd, hsent⟩
  | dropped hid' hfwd hsent => exact absurd hid' hid
  | accepted haccept hpart hsent =>
      rcases haccept with h | h
      · exact absurd (hout h.count) h.free
      · exact absurd h.id hid
  | completed flow haccept hfull hfwd hsent =>
      rcases haccept with h | h
      · exact absurd (hout h.count) h.free
      · exact absurd h.id hid

/-- What is forwarded stays forwarded. -/
theorem sent_prefix_handle (f : Forwarder) (a : Arrival) : f.sent <+: (f.handle a).sent := by
  cases f.handle_effect a with
  | ignored hfwd hsent | dropped hid hfwd hsent | accepted haccept hpart hsent =>
      rw [hsent]
  | completed flow haccept hfull hfwd hsent =>
      rw [hsent]
      exact List.prefix_append _ _

end Forwarder

/-- What has been sent stays sent. -/
theorem sent_prefix_forwardUdpPackets (f : Forwarder) (as : List Arrival) :
    f.sent <+: (forwardUdpPackets f as).sent := by
  induction as generalizing f with
  | nil => exact List.prefix_refl _
  | cons a as ih => exact (f.sent_prefix_handle a).trans (ih (f.handle a))

/-! ### Whole copies -/

/-- The fields of the packets of a copy. -/
theorem mem_udpDecoded {dataLength pkgId : Bytes} {chunks : List Bytes} {p : Packet} :
    ∀ {count}, p ∈ udpDecoded dataLength pkgId count chunks →
      p.pkgType = pkgTypeUdp ∧ p.pathHash = dataLength ∧ p.dataHash = pkgId := by
  induction chunks with
  | nil => exact fun h => absurd h List.not_mem_nil
  | cons chunk chunks ih =>
      intro count h
      rw [udpDecoded] at h
      rcases List.mem_cons.mp h with rfl | h
      · exact ⟨rfl, rfl, rfl⟩
      · exact ih h

/-- The identifier of the flow of a datagram. -/
def UdpDatagram.flowId (d : UdpDatagram) : Bytes := d.pkgId.take 8

/-- The packets of a datagram belong to its flow. -/
theorem UdpDatagram.flowId_of_mem {d : UdpDatagram} {p : Packet} (h : p ∈ d.packets) :
    p.flowId = d.flowId := by
  rw [Packet.flowId, (mem_udpDecoded h).2.2, UdpDatagram.flowId]

/-- The length of a byte string is read back from every packet that carries it. -/
theorem Packet.declaredSize_of_pathHash {p : Packet} {data : Bytes} (h : data.length < u64Bound)
    (hp : p.pathHash = udpDataLength data) : p.declaredSize = some data.length := by
  rw [Packet.declaredSize, hp]
  exact parseText_zeroPadded h

/-- The length of a datagram is read back from its packets. -/
theorem UdpDatagram.Sendable.declaredSize {d : UdpDatagram} (h : d.Sendable) {p : Packet}
    (hp : p.pathHash = udpDataLength d.data) : p.declaredSize = some d.data.length := by
  have hle := h.length_le
  exact Packet.declaredSize_of_pathHash (by simp only [u64Bound]; omega) hp

/-- **The decimal fields round-trip.** The parity field of every 64-bit count and the length
field of every byte string the sender can hold are 32 digits, the receiver reads the number
back, and different numbers have different fields. -/
theorem decimalFields_roundTrip :
    (∀ n < u64Bound, (encodeParityField n).length = 32 ∧
      (encodeParityField n).all Decimal.isDigit = true ∧
      decodeParityField (encodeParityField n) = some n) ∧
    (∀ m n, m ≠ n → encodeParityField m ≠ encodeParityField n) ∧
    (∀ data : Bytes, data.length < u64Bound → (udpDataLength data).length = 32 ∧
      (udpDataLength data).all Decimal.isDigit = true ∧
      ∀ p : Packet, p.pathHash = udpDataLength data → p.declaredSize = some data.length) ∧
    (∀ data data' : Bytes, data.length ≠ data'.length →
      udpDataLength data ≠ udpDataLength data') := by
  refine ⟨fun n hn => ⟨?_, ?_, ?_⟩, fun m n hmn h => ?_, fun data hdata => ⟨?_, ?_, ?_⟩,
    fun data data' hlen h => ?_⟩
  · exact length_zeroPadded_of_lt_u64Bound hn
  · exact Decimal.all_isDigit_zeroPadded 32 n
  · exact decodeParityField_encodeParityField hn
  · exact hmn (Decimal.zeroPadded_injective 32 h)
  · exact length_zeroPadded_of_lt_u64Bound hdata
  · exact Decimal.all_isDigit_zeroPadded 32 data.length
  · intro p hp
    exact Packet.declaredSize_of_pathHash hdata hp
  · exact hlen (Decimal.zeroPadded_injective 32 h)

/-- The thread in the middle of a copy: the flow of the datagram is in progress, and `chunks`
are what is missing. -/
structure Midway (d : UdpDatagram) (chunks : List Bytes) (f : Forwarder) : Prop where
  id : f.fwd.currentId = some d.flowId
  size : f.fwd.expectedSize = d.data.length
  data : f.fwd.fullPacket ++ chunks.flatten = d.data
  short : f.fwd.fullPacket.length < d.data.length
  chunks_length : ∀ c ∈ chunks, 0 < c.length ∧ c.length ≤ chunkSize

/-- **The next fragment** of a copy completes the datagram if it is the last one, and brings the
flow further otherwise. -/
theorem Midway.handle {d : UdpDatagram} (hd : d.Sendable) {chunk : Bytes} {chunks : List Bytes}
    {f : Forwarder} (h : Midway d (chunk :: chunks) f) {a : Arrival}
    (ha : a.packet = ⟨pkgTypeUdp, f.fwd.previousCount + 1, udpDataLength d.data, d.pkgId, chunk⟩) :
    (chunks = [] ∧ (f.handle a).fwd.currentId = none ∧ (f.handle a).sent = f.sent ++ [d.data]) ∨
      (Midway d chunks (f.handle a) ∧ (f.handle a).sent = f.sent ∧
        (f.handle a).fwd.previousCount = f.fwd.previousCount + 1) := by
  obtain ⟨hpos, hle⟩ := h.chunks_length chunk List.mem_cons_self
  have hdata : f.fwd.fullPacket ++ chunk ++ chunks.flatten = d.data := by
    rw [List.append_assoc, ← List.flatten_cons]
    exact h.data
  have hlen := congrArg List.length hdata
  simp only [List.length_append] at hlen
  have hflow : a.packet.flowId = d.flowId := by rw [ha]; rfl
  have hchunk : a.packet.data = chunk := by rw [ha]
  have hcount : a.packet.count = f.fwd.previousCount + 1 := by rw [ha]
  have hstep := Forwarder.handle_next (f := f) (a := a) (by rw [h.id, hflow]) hcount
    (by rw [h.size]; exact hd.declaredSize (by rw [ha]))
    (by rw [hchunk]; exact List.length_pos_iff.mp hpos) (by rw [hchunk]; exact hle)
    (by rw [hchunk, h.size]; omega)
  rw [Advanced] at hstep
  split at hstep
  · -- the datagram is complete, so no chunk can be left
    rename_i hfull
    simp only [List.length_append, h.size, hchunk] at hfull
    have hrest : chunks = [] := by
      cases chunks with
      | nil => rfl
      | cons c cs =>
          have hc := (h.chunks_length c (List.mem_cons_of_mem _ List.mem_cons_self)).1
          simp only [List.flatten_cons, List.length_append] at hlen
          omega
    rw [hrest, List.flatten_nil, List.append_nil] at hdata
    left
    refine ⟨hrest, ?_, ?_⟩
    · rw [hstep.1]
      rfl
    · rw [hstep.2, hchunk, hdata]
  · rename_i hpart
    simp only [List.length_append, h.size, hchunk] at hpart
    obtain ⟨hfwd, hsent⟩ := hstep
    right
    refine ⟨⟨?_, ?_, ?_, ?_, fun c hc => h.chunks_length c (List.mem_cons_of_mem _ hc)⟩, hsent, ?_⟩
    · rw [hfwd, hflow]
    · rw [hfwd]
      exact h.size
    · rw [hfwd, hchunk]
      exact hdata
    · rw [hfwd]
      simp only [List.length_append, hchunk]
      omega
    · rw [hfwd, hcount]

/-- The rest of a copy completes the flow it belongs to. -/
theorem Midway.forward {d : UdpDatagram} (hd : d.Sendable) {chunks : List Bytes} :
    ∀ {f : Forwarder} {as : List Arrival}, Midway d chunks f →
      as.map Arrival.packet =
        udpDecoded (udpDataLength d.data) d.pkgId (f.fwd.previousCount + 1) chunks →
      (forwardUdpPackets f as).fwd.currentId = none ∧
        (forwardUdpPackets f as).sent = f.sent ++ [d.data] := by
  induction chunks with
  | nil =>
      intro f as h has
      have hdata := h.data
      have hshort := h.short
      rw [List.flatten_nil, List.append_nil] at hdata
      rw [hdata] at hshort
      exact absurd hshort (lt_irrefl _)
  | cons chunk chunks ih =>
      intro f as h has
      rw [udpDecoded] at has
      obtain ⟨a, as, rfl, ha, has⟩ := List.map_eq_cons_iff.mp has
      rcases h.handle hd ha with ⟨rfl, hnone, hsent⟩ | ⟨hmid, hsent, hcount⟩
      · rw [udpDecoded, List.map_eq_nil_iff] at has
        rw [has]
        exact ⟨hnone, hsent⟩
      · have hrec := ih hmid (by rw [hcount]; exact has)
        rw [hsent] at hrec
        exact hrec

/-- **A complete copy that is not shut out** is forwarded once and leaves no flow. -/
theorem forwardUdpPackets_copy {d : UdpDatagram} (hd : d.Sendable) {f : Forwarder} {a : Arrival}
    {as : List Arrival} (has : (a :: as).map Arrival.packet = d.packets)
    (hfree : ¬f.fwd.ShutsOut d.flowId a.clock) :
    (forwardUdpPackets f (a :: as)).fwd.currentId = none ∧
      (forwardUdpPackets f (a :: as)).sent = f.sent ++ [d.data] := by
  have hcs : Slices.chunks chunkSize d.data =
      d.data.take chunkSize :: Slices.chunks chunkSize (d.data.drop chunkSize) :=
    Slices.chunks_eq_cons (by decide) hd.ne_nil
  rw [UdpDatagram.packets, hcs, udpDecoded, List.map_cons, List.cons.injEq] at has
  obtain ⟨ha, has⟩ := has
  have hpos := List.length_pos_iff.mpr hd.ne_nil
  have hle := hd.length_le
  have hflow : a.packet.flowId = d.flowId := by rw [ha]; rfl
  have hchunk : a.packet.data = d.data.take chunkSize := by rw [ha]
  have hlen : a.packet.data.length = min chunkSize d.data.length := by
    rw [hchunk, List.length_take]
  have hne : a.packet.data ≠ [] := by
    rw [← List.length_pos_iff, hlen]
    simp only [chunkSize]
    omega
  have hstep := Forwarder.handle_first (f := f) (a := a) (by rw [ha])
    (hd.declaredSize (by rw [ha])) (by simp only [udpMaxForwardBytes]; omega) hne
    (by rw [hlen]; exact min_le_left _ _) (by rw [hlen]; exact min_le_right _ _)
    (by rw [hflow]; exact hfree)
  rw [Advanced] at hstep
  split at hstep
  · rename_i hfull
    simp only [hlen] at hfull
    have hshort : d.data.length ≤ chunkSize := by omega
    rw [List.drop_of_length_le hshort, Slices.chunks_nil _ (by decide), udpDecoded,
      List.map_eq_nil_iff] at has
    rw [has]
    refine ⟨?_, ?_⟩
    · change (f.handle a).fwd.currentId = none
      rw [hstep.1]
      rfl
    · change (f.handle a).sent = _
      rw [hstep.2, hchunk, List.take_of_length_le hshort]
  · rename_i hpart
    simp only [hlen] at hpart
    obtain ⟨hfwd, hsent⟩ := hstep
    have hmid : Midway d (Slices.chunks chunkSize (d.data.drop chunkSize)) (f.handle a) := by
      refine ⟨by rw [hfwd, hflow], by rw [hfwd], ?_, by rw [hfwd, hlen]; omega,
        fun c hc => Slices.length_of_mem_chunks (by decide) hc⟩
      rw [hfwd, hchunk, Slices.flatten_chunks (by decide), List.take_append_drop]
    have hrest : as.map Arrival.packet = udpDecoded (udpDataLength d.data) d.pkgId
        ((f.handle a).fwd.previousCount + 1)
        (Slices.chunks chunkSize (d.data.drop chunkSize)) := by
      rw [hfwd]
      exact has
    have hrec := hmid.forward hd hrest
    rw [hsent] at hrec
    exact hrec

/-! ### Without losses -/

/-- The worker passes every UDP packet on, in order. -/
theorem run_udp {env : Env} (henv : env.udpForwardingEnabled = true) {raws : List Bytes}
    {ps : List Packet} (h : raws.map decodePacket = ps.map some)
    (hps : ∀ p ∈ ps, p.pkgType = pkgTypeUdp) (wk : Worker) :
    (run env wk raws).udpTx = wk.udpTx ++ ps := by
  induction raws generalizing ps wk with
  | nil =>
      rw [List.map_nil, eq_comm, List.map_eq_nil_iff] at h
      simp [h, run]
  | cons raw raws ih =>
      cases ps with
      | nil => simp at h
      | cons p ps =>
          rw [List.map_cons, List.map_cons, List.cons.injEq] at h
          have htype := hps p List.mem_cons_self
          have hstep : handlePacket env wk raw = handleUdp wk p := by
            simp [handlePacket, h.1, dispatch, htype, henv, pkgTypeStart, pkgTypeData,
              pkgTypeParity, pkgTypeEnd, pkgTypeUdp]
          have hrec := ih h.2 (fun q hq => hps q (List.mem_cons_of_mem _ hq)) (handleUdp wk p)
          have hcons : run env wk (raw :: raws) = run env (handlePacket env wk raw) raws := rfl
          rw [hcons, hstep, hrec, handleUdp, List.append_assoc, List.singleton_append]

/-- A datagram that can be sent has a packet. -/
theorem UdpDatagram.packets_ne_nil {d : UdpDatagram} (hd : d.Sendable) : d.packets ≠ [] := by
  rw [packets, Slices.chunks_eq_cons (by decide) hd.ne_nil, udpDecoded]
  exact List.cons_ne_nil _ _

/-- Two copies in a row, both complete, without a flow before them. -/
theorem forwardUdpPackets_twice {d : UdpDatagram} (hd : d.Sendable) {f : Forwarder}
    (hidle : f.fwd.currentId = none) {as : List Arrival}
    (has : as.map Arrival.packet = d.packets ++ d.packets) :
    (forwardUdpPackets f as).fwd.currentId = none ∧
      (forwardUdpPackets f as).sent = f.sent ++ [d.data, d.data] := by
  obtain ⟨first, second, rfl, hfirst, hsecond⟩ := List.map_eq_append_iff.mp has
  have hfree : ∀ {g : Forwarder} {clock : ℕ}, g.fwd.currentId = none →
      ¬g.fwd.ShutsOut d.flowId clock := fun h hout => hout.1 h
  obtain ⟨a, as, rfl⟩ : ∃ a as, first = a :: as := List.exists_cons_of_ne_nil fun h =>
    d.packets_ne_nil hd (by rw [← hfirst, h, List.map_nil])
  obtain ⟨b, bs, rfl⟩ : ∃ b bs, second = b :: bs := List.exists_cons_of_ne_nil fun h =>
    d.packets_ne_nil hd (by rw [← hsecond, h, List.map_nil])
  obtain ⟨hid, hsent⟩ := forwardUdpPackets_copy hd hfirst (hfree hidle)
  obtain ⟨hid', hsent'⟩ := forwardUdpPackets_copy hd hsecond (hfree hid)
  rw [forwardUdpPackets_append]
  exact ⟨hid', by rw [hsent', hsent, List.append_assoc]; rfl⟩

/-- All copies of all datagrams, complete, without a flow before them. -/
theorem forwardUdpPackets_all {ds : List UdpDatagram} (hds : ∀ d ∈ ds, d.Sendable) :
    ∀ {f : Forwarder} {as : List Arrival}, f.fwd.currentId = none →
      as.map Arrival.packet = (ds.flatMap fun d => d.packets ++ d.packets) →
      (forwardUdpPackets f as).fwd.currentId = none ∧
        (forwardUdpPackets f as).sent = f.sent ++ ds.flatMap fun d => [d.data, d.data] := by
  induction ds with
  | nil =>
      intro f as hidle has
      rw [List.flatMap_nil, List.map_eq_nil_iff] at has
      rw [has]
      exact ⟨hidle, by simp [forwardUdpPackets]⟩
  | cons d ds ih =>
      intro f as hidle has
      rw [List.flatMap_cons] at has
      obtain ⟨these, rest, rfl, hthese, hrest⟩ := List.map_eq_append_iff.mp has
      obtain ⟨hid, hsent⟩ := forwardUdpPackets_twice (hds d List.mem_cons_self) hidle hthese
      obtain ⟨hid', hsent'⟩ := ih (fun e he => hds e (List.mem_cons_of_mem _ he)) hid hrest
      rw [forwardUdpPackets_append]
      exact ⟨hid', by rw [hsent', hsent, List.flatMap_cons, List.append_assoc]⟩

/-- The receiver decodes all that the fragmenting thread emits. -/
theorem map_decodePacket_udpEmitted {ds : List UdpDatagram} (hds : ∀ d ∈ ds, d.Sendable) :
    (udpEmitted ds).map decodePacket =
      (ds.flatMap fun d => d.packets ++ d.packets).map some := by
  rw [udpEmitted_eq, List.map_flatMap, List.map_flatMap]
  refine List.flatMap_congr fun d hd => ?_
  rw [List.map_append, List.map_append, map_decodePacket_udpFragments (hds d hd)]

/-- Two copies of some datagrams are UDP packets. -/
theorem pkgType_of_mem_copies {ds : List UdpDatagram} {p : Packet}
    (hp : p ∈ ds.flatMap fun d => d.packets ++ d.packets) : p.pkgType = pkgTypeUdp := by
  obtain ⟨d, -, hp⟩ := List.mem_flatMap.mp hp
  exact (mem_udpDecoded ((List.mem_append.mp hp).elim id id)).1

/-- **Loss-free forwarding is exact**: if the worker receives everything the fragmenting
thread emits for some datagrams, and the forwarding thread, without a flow at first, handles
what the worker passes on, at whatever times, then it hands on each datagram twice, in order,
and is left without a flow. -/
theorem forwardUdpPackets_lossless {env : Env} (henv : env.udpForwardingEnabled = true)
    {ds : List UdpDatagram} (hds : ∀ d ∈ ds, d.Sendable) (wk : Worker) {f : Forwarder}
    (hidle : f.fwd.currentId = none) {as : List Arrival}
    (has : (run env wk (udpEmitted ds)).udpTx = wk.udpTx ++ as.map Arrival.packet) :
    (forwardUdpPackets f as).sent = f.sent ++ (ds.flatMap fun d => [d.data, d.data]) ∧
      (forwardUdpPackets f as).fwd.currentId = none := by
  rw [run_udp henv (map_decodePacket_udpEmitted hds) fun p => pkgType_of_mem_copies] at has
  obtain ⟨hid, hsent⟩ := forwardUdpPackets_all hds hidle (List.append_cancel_left has).symm
  exact ⟨hsent, hid⟩

/-- A datagram of one fragment. -/
def shortDatagram : UdpDatagram :=
  ⟨("c81e728d9d4c2f636f067f89cdc14862".toList.map fun c => UInt8.ofNat c.toNat), [121]⟩

/-- A fragment of a datagram. -/
def UdpDatagram.fragment (d : UdpDatagram) (count : ℕ) (chunk : Bytes) : Packet :=
  ⟨pkgTypeUdp, count, udpDataLength d.data, d.pkgId, chunk⟩

/-- The one packet of the short datagram. -/
theorem shortDatagram_packets : shortDatagram.packets = [shortDatagram.fragment 0 [121]] := by
  decide

/-- The short datagram can be sent. -/
theorem shortDatagram_sendable : shortDatagram.Sendable := ⟨by decide, by decide, by decide⟩

/-- A packet that arrives at time zero. -/
def Packet.atOnce (p : Packet) : Arrival := ⟨p, 0, 0, none⟩

/-- A chunk of full length. -/
@[irreducible] def fullChunk : Bytes := List.replicate 940 120

/-- A datagram of two fragments. -/
def longDatagram : UdpDatagram :=
  ⟨("c4ca4238a0b923820dcc509a6f75849b".toList.map fun c => UInt8.ofNat c.toNat),
    fullChunk ++ [120]⟩

/-- The two packets of the long datagram. -/
theorem longDatagram_packets :
    longDatagram.packets = [longDatagram.fragment 0 fullChunk, longDatagram.fragment 1 [120]] := by
  decide +kernel

/-- The long datagram can be sent. -/
theorem longDatagram_sendable : longDatagram.Sendable :=
  ⟨by decide, by decide +kernel, by decide +kernel⟩

/-- What the worker hands on of the two datagrams, all at time zero. -/
def bothArrive : List Arrival :=
  ([shortDatagram, longDatagram].flatMap fun d => d.packets ++ d.packets).map Packet.atOnce

/-- Both datagrams come out twice, one after the other. -/
theorem forwardUdpPackets_lossless_both :
    (forwardUdpPackets (.new 0) bothArrive).sent =
        [shortDatagram.data, shortDatagram.data, longDatagram.data, longDatagram.data] ∧
      (forwardUdpPackets (.new 0) bothArrive).fwd.currentId = none := by
  have hds : ∀ d ∈ [shortDatagram, longDatagram], d.Sendable := List.forall_mem_cons.mpr
    ⟨shortDatagram_sendable, List.forall_mem_singleton.mpr longDatagram_sendable⟩
  have hpackets : bothArrive.map Arrival.packet =
      [shortDatagram, longDatagram].flatMap fun d => d.packets ++ d.packets := by
    rw [bothArrive, List.map_map]
    exact List.map_id _
  have harrived : (run referenceEnv (.new referenceTree)
      (udpEmitted [shortDatagram, longDatagram])).udpTx = [] ++ bothArrive.map Arrival.packet := by
    rw [run_udp rfl (map_decodePacket_udpEmitted hds) fun p => pkgType_of_mem_copies, hpackets]
    rfl
  exact forwardUdpPackets_lossless rfl hds (.new referenceTree) rfl harrived

end DataDiode
