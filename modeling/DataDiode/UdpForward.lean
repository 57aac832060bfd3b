import DataDiode.Packet
import DataDiode.World

/-!
# The UDP Forwarding Thread

The receiving side of the UDP forwarder: a thread that puts the fragments of a datagram
together again and hands the datagram on. One flow is in progress at a time. Its first
fragment pins the identifier and the length; every later one has to be its immediate
successor; a first fragment of another flow is ignored while the flow in progress is alive.

Time enters as input: each arrival carries the clock, in nanoseconds, as it is read when the
age of the flow is checked and when the fragment is accepted.

## Main results

* `handle_effect`: everything one arrival can do.
* `UdpForwardState.wellFormed_handle`, `History.handle`: the invariants of the flow and of
  the history, arrival by arrival.
* `forwardUdpPackets_integrity`: whatever arrives, each forwarded datagram is made of the
  consecutive fragments of one flow, and no packet serves two datagrams.
-/

namespace DataDiode

/-- A flow whose most recent fragment arrived longer ago than this many nanoseconds is
treated as abandoned. -/
def udpFlowTimeout : ℕ := 2 * 1000000000

/-- The flow in progress. -/
structure UdpForwardState where
  /-- First eight bytes of the sender's per-datagram identifier. -/
  currentId : Option Bytes
  fullPacket : Bytes
  previousCount : ℕ
  /-- The length parsed off the first fragment of the flow. -/
  expectedSize : ℕ
  /-- When the most recently accepted fragment arrived. -/
  lastActivity : ℕ
  deriving DecidableEq, Repr

namespace UdpForwardState

/-- The state without a flow. -/
def new (now : ℕ) : UdpForwardState := ⟨none, [], 0, 0, now⟩

/-- Drop every trace of the flow in progress. -/
def reset (fwd : UdpForwardState) : UdpForwardState :=
  { fwd with currentId := none, fullPacket := [], previousCount := 0, expectedSize := 0 }

/-- Whether the flow in progress shuts out the first fragment of a flow: it is another flow,
and not stale. -/
def ShutsOut (fwd : UdpForwardState) (id : Bytes) (clock : ℕ) : Prop :=
  fwd.currentId ≠ none ∧ fwd.currentId ≠ some id ∧ clock - fwd.lastActivity ≤ udpFlowTimeout

/-- The clock decides it. -/
instance (fwd : UdpForwardState) (id : Bytes) (clock : ℕ) : Decidable (fwd.ShutsOut id clock) :=
  inferInstanceAs (Decidable (_ ∧ _))

end UdpForwardState

/-- A packet reaching the thread. -/
structure Arrival where
  packet : Packet
  /-- The clock when the age of the flow is checked. -/
  clock : ℕ
  /-- The clock when the fragment is accepted. -/
  stamp : ℕ
  /-- The error of the target socket, if the packet completes a datagram. -/
  sendFault : Option IoError
  deriving DecidableEq

/-- The length of the datagram a packet belongs to. -/
def Packet.declaredSize (p : Packet) : Option ℕ := parseText u64Bound p.pathHash

/-- The identifier of the flow a packet belongs to. -/
def Packet.flowId (p : Packet) : Bytes := p.dataHash.take 8

/-- The thread: the flow in progress, the datagrams handed to the target socket, the log. -/
structure Forwarder where
  fwd : UdpForwardState
  sent : List Bytes
  log : List (Level × Text)

namespace Forwarder

/-- The thread at its start. -/
def new (now : ℕ) : Forwarder := ⟨.new now, [], []⟩

/-- A warning in the log. -/
def warn (f : Forwarder) (text : Text) : Forwarder := { f with log := f.log ++ [(.warn, text)] }

/-- Emit the reassembled datagram and drop the flow. -/
def forward (f : Forwarder) (sendFault : Option IoError) : Forwarder :=
  { fwd := f.fwd.reset
    sent := f.sent ++ [f.fwd.fullPacket]
    log := match sendFault with
      | some e => f.log ++ [(.error, [.lit "UDP forward send error: ", .io e])]
      | none => f.log }

/-- Go on with a flow: emit the datagram if this completes it. -/
def proceed (f : Forwarder) (flow : UdpForwardState) (sendFault : Option IoError) : Forwarder :=
  if flow.fullPacket.length = flow.expectedSize then
    forward { f with fwd := flow } sendFault
  else { f with fwd := flow }

/-- Take up the flow of a first fragment. -/
def startFlow (f : Forwarder) (a : Arrival) (declaredSize : ℕ) : Forwarder :=
  f.proceed
    { f.fwd.reset with
      currentId := some a.packet.flowId
      expectedSize := declaredSize
      fullPacket := f.fwd.reset.fullPacket ++ a.packet.data
      lastActivity := a.stamp } a.sendFault

/-- Handle a first fragment. -/
def handleFirst (f : Forwarder) (a : Arrival) (declaredSize : ℕ) : Forwarder :=
  if declaredSize = 0 ∨ udpMaxForwardBytes < declaredSize then
    f.warn [.lit "UDP: declared size ", .nat declaredSize, .lit " outside [1, ",
      .nat udpMaxForwardBytes, .lit "], ignoring flow"]
  else if a.packet.data = [] ∨ chunkSize < a.packet.data.length ∨
      declaredSize < a.packet.data.length then
    f.warn [.lit "UDP: first fragment of ", .nat a.packet.data.length,
      .lit " bytes invalid for declared size ", .nat declaredSize]
  else
    match f.fwd.currentId with
    | none => f.startFlow a declaredSize
    | some current =>
        if current = a.packet.flowId then f.startFlow a declaredSize
        else if a.clock - f.fwd.lastActivity ≤ udpFlowTimeout then
          f.warn [.lit "UDP: count==0 from a different id while ", .nat f.fwd.fullPacket.length,
            .lit " of ", .nat f.fwd.expectedSize,
            .lit " bytes are still in flight; ignoring the new flow"]
        else
          (f.warn [.lit "UDP: abandoning stale flow (", .nat f.fwd.fullPacket.length,
            .lit " of ", .nat f.fwd.expectedSize,
            .lit " bytes) in favour of a new one"]).startFlow a declaredSize

/-- Handle a continuation fragment. -/
def handleNext (f : Forwarder) (a : Arrival) (declaredSize : ℕ) : Forwarder :=
  if f.fwd.currentId ≠ some a.packet.flowId ∨ a.packet.count ≠ f.fwd.previousCount + 1 then f
  else if declaredSize ≠ f.fwd.expectedSize then
    f.warn [.lit "UDP: fragment ", .nat a.packet.count, .lit " declares size ",
      .nat declaredSize, .lit " but flow is pinned to ", .nat f.fwd.expectedSize,
      .lit "; dropping it"]
  else if a.packet.data = [] ∨ chunkSize < a.packet.data.length ∨
      f.fwd.expectedSize - f.fwd.fullPacket.length < a.packet.data.length then
    { f.warn [.lit "UDP: fragment ", .nat a.packet.count, .lit " of ",
        .nat a.packet.data.length, .lit " bytes invalid for ",
        .nat (f.fwd.expectedSize - f.fwd.fullPacket.length),
        .lit " remaining; dropping flow"] with fwd := f.fwd.reset }
  else
    f.proceed
      { f.fwd with
        fullPacket := f.fwd.fullPacket ++ a.packet.data
        previousCount := a.packet.count
        lastActivity := a.stamp } a.sendFault

/-- Handle one packet. -/
def handle (f : Forwarder) (a : Arrival) : Forwarder :=
  match a.packet.declaredSize with
  | none => f.warn [.lit "UDP: unparseable size field, dropping packet"]
  | some declaredSize =>
      if a.packet.count = 0 then f.handleFirst a declaredSize else f.handleNext a declaredSize

end Forwarder

/-- The thread's loop on a sequence of arrivals. -/
def forwardUdpPackets (f : Forwarder) (as : List Arrival) : Forwarder := as.foldl .handle f

/-- Some packets, and some more. -/
theorem forwardUdpPackets_append (f : Forwarder) (as bs : List Arrival) :
    forwardUdpPackets f (as ++ bs) = forwardUdpPackets (forwardUdpPackets f as) bs :=
  List.foldl_append

/-! ### What one arrival can do -/

/-- The fragment opens `flow`. -/
structure Opens (fwd : UdpForwardState) (a : Arrival) (flow : UdpForwardState) : Prop where
  count : a.packet.count = 0
  size : a.packet.declaredSize = some flow.expectedSize
  size_le : flow.expectedSize ≤ udpMaxForwardBytes
  ne_nil : a.packet.data ≠ []
  length_le : a.packet.data.length ≤ chunkSize
  fits : a.packet.data.length ≤ flow.expectedSize
  free : ¬fwd.ShutsOut a.packet.flowId a.clock
  flow_eq : flow = ⟨some a.packet.flowId, a.packet.data, 0, flow.expectedSize, a.stamp⟩

/-- The fragment continues the flow in progress to `flow`. -/
structure Continues (fwd : UdpForwardState) (a : Arrival) (flow : UdpForwardState) : Prop where
  id : fwd.currentId = some a.packet.flowId
  count : a.packet.count = fwd.previousCount + 1
  size : a.packet.declaredSize = some fwd.expectedSize
  ne_nil : a.packet.data ≠ []
  length_le : a.packet.data.length ≤ chunkSize
  fits : a.packet.data.length ≤ fwd.expectedSize - fwd.fullPacket.length
  flow_eq : flow = ⟨fwd.currentId, fwd.fullPacket ++ a.packet.data, a.packet.count,
    fwd.expectedSize, a.stamp⟩

/-- The fragment is accepted, with `flow` behind it. -/
def Accepts (fwd : UdpForwardState) (a : Arrival) (flow : UdpForwardState) : Prop :=
  Opens fwd a flow ∨ Continues fwd a flow

/-- What accepting a fragment leaves in the state. -/
theorem Accepts.flow {fwd flow : UdpForwardState} {a : Arrival} (h : Accepts fwd a flow) :
    flow.currentId = some a.packet.flowId ∧ flow.lastActivity = a.stamp := by
  rcases h with h | h
  · rw [h.flow_eq]
    exact ⟨rfl, rfl⟩
  · rw [h.flow_eq]
    exact ⟨h.id, rfl⟩

/-- What one arrival can do to the thread, its log apart. -/
inductive Effect (f : Forwarder) (a : Arrival) (f' : Forwarder) : Prop
  /-- Nothing. -/
  | ignored (hfwd : f'.fwd = f.fwd) (hsent : f'.sent = f.sent)
  /-- The flow in progress is dropped. -/
  | dropped (hid : f.fwd.currentId = some a.packet.flowId) (hfwd : f'.fwd = f.fwd.reset)
      (hsent : f'.sent = f.sent)
  /-- The fragment is accepted and the flow goes on. -/
  | accepted (haccept : Accepts f.fwd a f'.fwd)
      (hpart : f'.fwd.fullPacket.length ≠ f'.fwd.expectedSize) (hsent : f'.sent = f.sent)
  /-- The fragment is accepted and completes the datagram. -/
  | completed (flow : UdpForwardState) (haccept : Accepts f.fwd a flow)
      (hfull : flow.fullPacket.length = flow.expectedSize) (hfwd : f'.fwd = flow.reset)
      (hsent : f'.sent = f.sent ++ [flow.fullPacket])

/-- What going on with a flow does. -/
theorem Forwarder.proceed_effect {f g : Forwarder} {a : Arrival} {flow : UdpForwardState}
    (hsent : g.sent = f.sent) (h : Accepts f.fwd a flow) :
    Effect f a (g.proceed flow a.sendFault) := by
  rw [proceed]
  split
  · rename_i hfull
    exact .completed flow h hfull rfl (by rw [← hsent]; rfl)
  · rename_i hpart
    exact .accepted h hpart hsent

/-- What starting a flow does. -/
theorem Forwarder.startFlow_effect {f g : Forwarder} {a : Arrival} {size : ℕ}
    (hsent : g.sent = f.sent) (hcount : a.packet.count = 0)
    (hsize : a.packet.declaredSize = some size) (hle : size ≤ udpMaxForwardBytes)
    (hne : a.packet.data ≠ []) (hchunk : a.packet.data.length ≤ chunkSize)
    (hfits : a.packet.data.length ≤ size) (hfree : ¬f.fwd.ShutsOut a.packet.flowId a.clock) :
    Effect f a (g.startFlow a size) :=
  proceed_effect hsent (Or.inl ⟨hcount, hsize, hle, hne, hchunk, hfits, hfree, rfl⟩)

/-- What a first fragment does. -/
theorem Forwarder.handleFirst_effect {f : Forwarder} {a : Arrival} {size : ℕ}
    (hcount : a.packet.count = 0) (hsize : a.packet.declaredSize = some size) :
    Effect f a (f.handleFirst a size) := by
  rw [handleFirst]
  split
  · exact .ignored rfl rfl
  rename_i hrange
  split
  · exact .ignored rfl rfl
  rename_i hfrag
  simp only [not_or, not_lt] at hrange hfrag
  obtain ⟨hne, hchunk, hfits⟩ := hfrag
  split
  · rename_i hid
    exact startFlow_effect rfl hcount hsize hrange.2 hne hchunk hfits fun h => h.1 hid
  · rename_i current hid
    split
    · rename_i hsame
      exact startFlow_effect rfl hcount hsize hrange.2 hne hchunk hfits
        fun h => h.2.1 (by rw [hid, hsame])
    · split
      · exact .ignored rfl rfl
      · rename_i hstale
        exact startFlow_effect rfl hcount hsize hrange.2 hne hchunk hfits
          fun h => hstale h.2.2

/-- What a later fragment does. -/
theorem Forwarder.handleNext_effect {f : Forwarder} {a : Arrival} {size : ℕ}
    (hsize : a.packet.declaredSize = some size) : Effect f a (f.handleNext a size) := by
  rw [handleNext]
  split
  · exact .ignored rfl rfl
  rename_i hflow
  split
  · exact .ignored rfl rfl
  rename_i hpinned
  simp only [not_or, ne_eq, not_not] at hflow hpinned
  obtain ⟨hid, hcount⟩ := hflow
  split
  · exact .dropped hid rfl rfl
  · rename_i hfrag
    simp only [not_or, not_lt] at hfrag
    exact proceed_effect rfl
      (Or.inr ⟨hid, hcount, hpinned ▸ hsize, hfrag.1, hfrag.2.1, hfrag.2.2, rfl⟩)

/-- **Everything one arrival can do.** -/
theorem Forwarder.handle_effect (f : Forwarder) (a : Arrival) : Effect f a (f.handle a) := by
  rw [handle]
  split
  · exact .ignored rfl rfl
  · rename_i size hsize
    split
    · rename_i hcount
      exact handleFirst_effect hcount hsize
    · exact handleNext_effect hsize

/-! ### The invariant of the flow -/

/-- Without a flow nothing is kept; a flow in progress is neither empty nor complete, and
within the cap. -/
structure UdpForwardState.WellFormed (fwd : UdpForwardState) : Prop where
  idle : fwd.currentId = none →
    fwd.fullPacket = [] ∧ fwd.previousCount = 0 ∧ fwd.expectedSize = 0
  active : fwd.currentId ≠ none → 0 < fwd.fullPacket.length ∧
    fwd.fullPacket.length < fwd.expectedSize ∧ fwd.expectedSize ≤ udpMaxForwardBytes

/-- Without a flow the state is well formed. -/
theorem UdpForwardState.wellFormed_reset (fwd : UdpForwardState) : fwd.reset.WellFormed :=
  ⟨fun _ => ⟨rfl, rfl, rfl⟩, fun h => absurd rfl h⟩

/-- An accepted fragment leaves at most the announced length, and at most the cap. -/
theorem Accepts.bounds {fwd flow : UdpForwardState} {a : Arrival} (h : Accepts fwd a flow)
    (hwf : fwd.WellFormed) : flow.currentId ≠ none ∧ 0 < flow.fullPacket.length ∧
      flow.fullPacket.length ≤ flow.expectedSize ∧ flow.expectedSize ≤ udpMaxForwardBytes := by
  rcases h with h | h
  · have hpos := List.length_pos_iff.mpr h.ne_nil
    have hfits := h.fits
    have hle := h.size_le
    rw [h.flow_eq]
    exact ⟨Option.some_ne_none _, hpos, hfits, hle⟩
  · obtain ⟨hpos, hlt, hle⟩ := hwf.active (by rw [h.id]; exact Option.some_ne_none _)
    have hfits := h.fits
    rw [h.flow_eq]
    refine ⟨by rw [h.id]; exact Option.some_ne_none _, ?_, ?_, hle⟩
    · rw [List.length_append]
      omega
    · simp only [List.length_append]
      omega

/-- An arrival keeps the flow well formed. -/
theorem UdpForwardState.wellFormed_handle {f : Forwarder} (h : f.fwd.WellFormed) (a : Arrival) :
    (f.handle a).fwd.WellFormed := by
  cases f.handle_effect a with
  | ignored hfwd hsent => rwa [hfwd]
  | dropped hid hfwd hsent =>
      rw [hfwd]
      exact wellFormed_reset _
  | accepted haccept hpart hsent =>
      obtain ⟨hid, hpos, hle, hcap⟩ := haccept.bounds h
      exact ⟨fun hnone => absurd hnone hid, fun _ => ⟨hpos, by omega, hcap⟩⟩
  | completed flow haccept hfull hfwd hsent =>
      rw [hfwd]
      exact wellFormed_reset _

/-! ### The invariant of the history -/

/-- `ps` are the fragments `0, 1, …` of one flow of length `size`, and `payload` is what they
carry. -/
structure Fragments (ps : List Packet) (id : Bytes) (size : ℕ) (payload : Bytes) : Prop where
  count : ps.map Packet.count = List.range ps.length
  flowId : ∀ p ∈ ps, p.flowId = id
  declaredSize : ∀ p ∈ ps, p.declaredSize = some size
  length : ∀ p ∈ ps, 1 ≤ p.data.length ∧ p.data.length ≤ chunkSize
  payload_eq : payload = ps.flatMap Packet.data

/-- The next fragment of a flow. -/
theorem Fragments.append {ps : List Packet} {id : Bytes} {size : ℕ} {payload : Bytes}
    (h : Fragments ps id size payload) {p : Packet} (hcount : p.count = ps.length)
    (hid : p.flowId = id) (hsize : p.declaredSize = some size) (hne : p.data ≠ [])
    (hle : p.data.length ≤ chunkSize) :
    Fragments (ps ++ [p]) id size (payload ++ p.data) where
  count := by
    rw [List.map_append, h.count, List.length_append, List.length_singleton, List.range_succ,
      List.map_singleton, hcount]
  flowId := by
    intro q hq
    rcases List.mem_append.mp hq with hq | hq
    · exact h.flowId q hq
    · rwa [List.mem_singleton.mp hq]
  declaredSize := by
    intro q hq
    rcases List.mem_append.mp hq with hq | hq
    · exact h.declaredSize q hq
    · rwa [List.mem_singleton.mp hq]
  length := by
    intro q hq
    rcases List.mem_append.mp hq with hq | hq
    · exact h.length q hq
    · rw [List.mem_singleton.mp hq]
      exact ⟨List.length_pos_iff.mpr hne, hle⟩
  payload_eq := by rw [List.flatMap_append, ← h.payload_eq, List.flatMap_singleton]

/-- The fragments of one flow make up a datagram in full. -/
def Assembles (ps : List Packet) (payload : Bytes) : Prop :=
  (∃ id, Fragments ps id payload.length payload) ∧ 1 ≤ payload.length ∧
    payload.length ≤ udpMaxForwardBytes

/-- The packets behind the thread's output and behind its flow: they are different packets
of the traffic so far, in order of arrival. -/
def History (traffic : List Packet) (f : Forwarder) : Prop :=
  ∃ (groups : List (List Packet)) (current : List Packet),
    (groups.flatten ++ current).Sublist traffic ∧ List.Forall₂ Assembles groups f.sent ∧
    ∀ id, f.fwd.currentId = some id →
      Fragments current id f.fwd.expectedSize f.fwd.fullPacket ∧
        f.fwd.previousCount + 1 = current.length

/-- The packets behind an accepted fragment. -/
theorem Accepts.fragments {fwd flow : UdpForwardState} {a : Arrival} {groups : List (List Packet)}
    {current traffic : List Packet} (h : Accepts fwd a flow)
    (hsub : (groups.flatten ++ current).Sublist traffic)
    (hflow : ∀ id, fwd.currentId = some id →
      Fragments current id fwd.expectedSize fwd.fullPacket ∧
        fwd.previousCount + 1 = current.length) :
    ∃ current', (groups.flatten ++ current').Sublist (traffic ++ [a.packet]) ∧
      ∃ id, flow.currentId = some id ∧
        Fragments current' id flow.expectedSize flow.fullPacket ∧
          flow.previousCount + 1 = current'.length := by
  rcases h with h | h
  · refine ⟨[a.packet], ((List.sublist_append_left _ _).trans hsub).append (.refl _),
      a.packet.flowId, by rw [h.flow_eq], ?_, by rw [h.flow_eq]; rfl⟩
    have hempty : Fragments [] a.packet.flowId flow.expectedSize [] := by
      constructor <;> simp
    have hone := hempty.append h.count rfl h.size h.ne_nil h.length_le
    rw [h.flow_eq]
    exact hone
  · obtain ⟨hfrag, hprev⟩ := hflow _ h.id
    refine ⟨current ++ [a.packet], ?_, a.packet.flowId, by rw [h.flow_eq]; exact h.id, ?_, ?_⟩
    · rw [← List.append_assoc]
      exact hsub.append (.refl _)
    · have hmore := hfrag.append (by rw [h.count, hprev]) rfl h.size h.ne_nil h.length_le
      rw [h.flow_eq]
      exact hmore
    · rw [h.flow_eq, List.length_append, List.length_singleton, h.count, hprev]

/-- An arrival keeps the history. -/
theorem History.handle {traffic : List Packet} {f : Forwarder} (h : History traffic f)
    (hwf : f.fwd.WellFormed) (a : Arrival) : History (traffic ++ [a.packet]) (f.handle a) := by
  obtain ⟨groups, current, hsub, hsent, hflow⟩ := h
  have hkeep : (groups.flatten ++ current).Sublist (traffic ++ [a.packet]) :=
    hsub.trans (List.sublist_append_left _ _)
  cases f.handle_effect a with
  | ignored hfwd hsent' =>
      refine ⟨groups, current, hkeep, by rwa [hsent'], ?_⟩
      rwa [hfwd]
  | dropped hid hfwd hsent' =>
      refine ⟨groups, current, hkeep, by rwa [hsent'], fun id hnew => ?_⟩
      rw [hfwd] at hnew
      exact absurd hnew (by simp [UdpForwardState.reset])
  | accepted haccept hpart hsent' =>
      obtain ⟨current', hsub', id, hid, hfrag⟩ := haccept.fragments hsub hflow
      refine ⟨groups, current', hsub', by rwa [hsent'], fun id' hid' => ?_⟩
      rw [hid, Option.some.injEq] at hid'
      exact hid' ▸ hfrag
  | completed flow haccept hfull hfwd hsent' =>
      obtain ⟨current', hsub', id, hid, hfrag, -⟩ := haccept.fragments hsub hflow
      obtain ⟨-, hpos, hle, hcap⟩ := haccept.bounds hwf
      have hdone : Assembles current' flow.fullPacket :=
        ⟨⟨id, by rw [hfull]; exact hfrag⟩, hpos, hle.trans hcap⟩
      refine ⟨groups ++ [current'], [], by simpa using hsub', ?_, fun id hnew => ?_⟩
      · rw [hsent']
        exact List.rel_append hsent (.cons hdone .nil)
      · rw [hfwd] at hnew
        exact absurd hnew (by simp [UdpForwardState.reset])

/-- Both invariants hold after any traffic. -/
theorem forwardUdpPackets_inv (now : ℕ) (as : List Arrival) :
    (forwardUdpPackets (.new now) as).fwd.WellFormed ∧
      History (as.map Arrival.packet) (forwardUdpPackets (.new now) as) := by
  induction as using List.reverseRecOn with
  | nil =>
      refine ⟨⟨fun _ => ⟨rfl, rfl, rfl⟩, fun h => absurd rfl h⟩, [], [], .refl _, .nil, ?_⟩
      intro id h
      exact absurd h (by simp [forwardUdpPackets, Forwarder.new, UdpForwardState.new])
  | append_singleton as a ih =>
      obtain ⟨hwf, hhist⟩ := ih
      rw [forwardUdpPackets_append, List.map_append, List.map_singleton]
      exact ⟨UdpForwardState.wellFormed_handle hwf a, hhist.handle hwf a⟩

/-- **Reassembly integrity**: whatever packets arrive and whenever, every datagram handed on
is the concatenation of the fragments `0, 1, …, k` of one flow, each of `1` to `940` bytes, in
the announced total length within the cap; the fragments of all datagrams together are
different packets of the traffic, in order of arrival; and between packets the flow in
progress is well formed. -/
theorem forwardUdpPackets_integrity (now : ℕ) (as : List Arrival) :
    (∃ groups : List (List Packet), groups.flatten.Sublist (as.map Arrival.packet) ∧
      List.Forall₂ Assembles groups (forwardUdpPackets (.new now) as).sent) ∧
    (forwardUdpPackets (.new now) as).fwd.WellFormed := by
  obtain ⟨hwf, groups, current, hsub, hsent, -⟩ := forwardUdpPackets_inv now as
  exact ⟨⟨groups, (List.sublist_append_left _ _).trans hsub, hsent⟩, hwf⟩

end DataDiode
