import DataDiode.Pipeline
import DataDiode.Separation

/-!
# The Threads of the Receiver

`main` starts a thread that listens on the socket, the worker thread, and the thread that forwards
datagrams; they hand their items on through two unbounded channels. The operating system schedules
them as it likes. The receiver is the pipeline of the three, and its schedules are all of theirs.

A turn of the forwarding thread comes with what its surroundings answer: the clock, and what the
target socket does.

## Main results

* `receiver_run`: at every moment, under every schedule, the worker has handled the front of what
  arrived, and the forwarding thread the front of what the worker handed on.
* `ReceiverAt.drained`: once the channels are empty, all of it.
* `receiver_phases`: what the threads can do at any moment, one after the other.
* `receiver_drain`, `receiver_schedules`: turns of the two threads empty the channels, whatever the
  moment.
-/

namespace DataDiode

/-! ### The three threads -/

/-- The listening thread puts every datagram it receives into the channel of the worker. -/
def listener : Agent Bytes Unit Bytes := ⟨fun s raw => some (s, [raw])⟩

/-- The worker thread, with the packets it hands on in one turn of its loop. -/
def workerThread (env : Env) : Consumer Bytes Unit Worker Packet :=
  ⟨fun wk raw _ =>
    (handlePacket env wk raw, (handlePacket env wk raw).udpTx.drop wk.udpTx.length)⟩

/-- What the surroundings of the forwarding thread answer in one turn of its loop: the clock when
the age of the flow is checked, the clock when the fragment is accepted, and an error of the target
socket. -/
structure ForwardTurn where
  clock : ℕ
  stamp : ℕ
  sendFault : Option IoError
  deriving DecidableEq

/-- A packet with the answers of the turn in which it is handled. -/
def ForwardTurn.arrival (packet : Packet) (turn : ForwardTurn) : Arrival :=
  ⟨packet, turn.clock, turn.stamp, turn.sendFault⟩

/-- The forwarding thread, with the datagrams it gives to the target socket in one turn. -/
def forwarderThread : Consumer Packet ForwardTurn Forwarder Bytes :=
  ⟨fun f packet turn =>
    (f.handle (turn.arrival packet), (f.handle (turn.arrival packet)).sent.drop f.sent.length)⟩

/-- The receiver: the three threads and the two channels. -/
def receiver (env : Env) : Agent ((Bytes ⊕ Unit) ⊕ ForwardTurn)
    (Agent.Link (Agent.Link Unit Bytes Worker) Packet Forwarder) Bytes :=
  (listener.into (workerThread env)).into forwarderThread

/-- The receiver with nothing in its channels. -/
def receiverWith (wk : Worker) (f : Forwarder) :
    Agent.Link (Agent.Link Unit Bytes Worker) Packet Forwarder := ⟨⟨(), [], wk⟩, [], f⟩

/-! ### One thread by itself -/

/-- The listening thread gives out what arrives. -/
theorem listener_run (raws : List Bytes) : listener.run raws () = some ((), raws) := by
  induction raws with
  | nil => rfl
  | cons raw raws ih => exact Agent.run_cons_eq_some_iff _ |>.mpr ⟨(), [raw], raws, rfl, ih, rfl⟩

/-- The worker hands packets on in addition to those before. -/
theorem prefix_udpTx_handlePacket (env : Env) (wk : Worker) (raw : Bytes) :
    wk.udpTx <+: (handlePacket env wk raw).udpTx := by
  by_cases hfile : isFileTraffic raw = true
  · rw [handlePacket_udpTx env wk hfile]
  · obtain ⟨packet, hpacket⟩ : ∃ packet, udpPacket? raw = some packet := by
      simpa [isFileTraffic, Option.ne_none_iff_exists'] using hfile
    obtain ⟨hdecode, hudp⟩ := udpPacket?_eq_some_iff.mp hpacket
    by_cases henv : env.udpForwardingEnabled = true
    · rw [handlePacket_udp henv wk hpacket]
      exact List.prefix_append _ _
    · simp [handlePacket, hdecode, dispatch, hudp, henv, pkgTypeStart, pkgTypeData, pkgTypeParity,
        pkgTypeEnd, pkgTypeUdp]

/-- A run hands packets on in addition to those before. -/
theorem prefix_udpTx_run (env : Env) (wk : Worker) (raws : List Bytes) :
    wk.udpTx <+: (run env wk raws).udpTx := by
  induction raws generalizing wk with
  | nil => exact List.prefix_rfl
  | cons raw raws ih =>
      rw [run_cons]
      exact (prefix_udpTx_handlePacket env wk raw).trans (ih _)

/-- One turn of the worker thread. -/
theorem workerThread_step (env : Env) (wk : Worker) (raw : Bytes) (turn : Unit) :
    (workerThread env).step wk raw turn =
      (handlePacket env wk raw, (handlePacket env wk raw).udpTx.drop wk.udpTx.length) := rfl

/-- The worker thread is the worker's loop. -/
theorem workerThread_run (env : Env) (turns : List Unit) : ∀ (raws : List Bytes) (wk : Worker),
    (workerThread env).run (raws.zip turns) wk =
      (run env wk (raws.take turns.length),
        (run env wk (raws.take turns.length)).udpTx.drop wk.udpTx.length) := by
  induction turns with
  | nil =>
      intro raws wk
      simp [run]
  | cons turn turns ih =>
      intro raws wk
      cases raws with
      | nil => simp [run]
      | cons raw raws =>
          rw [List.zip_cons_cons, Consumer.run_cons, workerThread_step, ih, List.length_cons,
            List.take_succ_cons, run_cons]
          obtain ⟨front, hfront⟩ := prefix_udpTx_handlePacket env wk raw
          obtain ⟨rest, hrest⟩ :=
            prefix_udpTx_run env (handlePacket env wk raw) (raws.take turns.length)
          rw [← hrest, ← hfront]
          simp

/-- One turn of the forwarding thread. -/
theorem forwarderThread_step (f : Forwarder) (packet : Packet) (turn : ForwardTurn) :
    forwarderThread.step f packet turn =
      (f.handle (turn.arrival packet),
        (f.handle (turn.arrival packet)).sent.drop f.sent.length) := rfl

/-- The forwarding thread is the loop of the forwarder. -/
theorem forwarderThread_run (turns : List ForwardTurn) : ∀ (packets : List Packet) (f : Forwarder),
    forwarderThread.run (packets.zip turns) f =
      (forwardUdpPackets f (List.zipWith ForwardTurn.arrival packets turns),
        (forwardUdpPackets f (List.zipWith ForwardTurn.arrival packets turns)).sent.drop
          f.sent.length) := by
  induction turns with
  | nil =>
      intro packets f
      simp [forwardUdpPackets]
  | cons turn turns ih =>
      intro packets f
      cases packets with
      | nil => simp [forwardUdpPackets]
      | cons packet packets =>
          rw [List.zip_cons_cons, Consumer.run_cons, forwarderThread_step, ih,
            List.zipWith_cons_cons]
          obtain ⟨front, hfront⟩ := Forwarder.sent_prefix_handle f (turn.arrival packet)
          obtain ⟨rest, hrest⟩ := sent_prefix_forwardUdpPackets (f.handle (turn.arrival packet))
            (List.zipWith ForwardTurn.arrival packets turns)
          rw [show forwardUdpPackets f (turn.arrival packet ::
              List.zipWith ForwardTurn.arrival packets turns) =
            forwardUdpPackets (f.handle (turn.arrival packet))
              (List.zipWith ForwardTurn.arrival packets turns) from rfl, ← hrest, ← hfront]
          simp

/-! ### All three together -/

/-- The datagrams that arrive in a schedule of the receiver. -/
def arrived (sched : List ((Bytes ⊕ Unit) ⊕ ForwardTurn)) : List Bytes := lefts (lefts sched)

/-- The number of turns the worker has. -/
def workerTurns (sched : List ((Bytes ⊕ Unit) ⊕ ForwardTurn)) : ℕ := (rights (lefts sched)).length

/-- What the worker hands on for some datagrams. -/
def handedOn (env : Env) (wk : Worker) (raws : List Bytes) : List Packet :=
  (run env wk raws).udpTx.drop wk.udpTx.length

/-- With forwarding, the worker hands on the UDP packets. -/
theorem handedOn_eq {env : Env} (henv : env.udpForwardingEnabled = true) (wk : Worker)
    (raws : List Bytes) : handedOn env wk raws = udpTraffic raws := by
  obtain ⟨total, h⟩ := run_eq_withUdp henv wk raws
  rw [handedOn, h, Worker.udpTx_withUdp, List.drop_left]

/-- The receiver after some datagrams `raws` have arrived, the worker has had `n` turns and the
forwarding thread the turns `turns`. -/
structure ReceiverAt (env : Env) (wk : Worker) (f : Forwarder) (raws : List Bytes) (n : ℕ)
    (turns : List ForwardTurn)
    (l : Agent.Link (Agent.Link Unit Bytes Worker) Packet Forwarder) : Prop where
  le : n ≤ raws.length
  /-- the worker is where its loop is after the front of what has arrived -/
  worker : l.front.back = run env wk (raws.take n)
  /-- the rest is in its channel -/
  waiting : l.front.queue = raws.drop n
  turns_le : turns.length ≤ (handedOn env wk (raws.take n)).length
  /-- the forwarding thread is where its loop is after the front of what was handed on -/
  forwarder : l.back = forwardUdpPackets f
    (List.zipWith ForwardTurn.arrival (handedOn env wk (raws.take n)) turns)
  /-- the rest is in its channel -/
  handed : l.queue = (handedOn env wk (raws.take n)).drop turns.length

/-- **The receiver at any moment**, under any schedule of its threads, whatever arrives: the worker
and the forwarding thread are where their loops are after the front of what was put into their
channels, and the rest is still there, in order. What was given to the target socket is what the
forwarding thread has sent. -/
theorem receiver_run {env : Env} {wk : Worker} {f : Forwarder}
    {sched : List ((Bytes ⊕ Unit) ⊕ ForwardTurn)}
    {r : Agent.Link (Agent.Link Unit Bytes Worker) Packet Forwarder × List Bytes}
    (h : (receiver env).run sched (receiverWith wk f) = some r) :
    ReceiverAt env wk f (arrived sched) (workerTurns sched) (rights sched) r.1 ∧
      r.1.back.sent = f.sent ++ r.2 := by
  obtain ⟨given, hfront, hle, hqueue, hback⟩ := Agent.run_into h
  obtain ⟨raws, hlisten, hle', hqueue', hback'⟩ := Agent.run_into hfront
  rw [listener_run, Option.some.injEq, Prod.mk.injEq] at hlisten
  obtain ⟨-, rfl⟩ := hlisten
  simp only [receiverWith, List.nil_append] at hle hqueue hback hle' hqueue' hback'
  rw [workerThread_run, Prod.mk.injEq] at hback'
  obtain ⟨hworker, rfl⟩ := hback'
  rw [forwarderThread_run, Prod.mk.injEq] at hback
  obtain ⟨hforwarder, hsent⟩ := hback
  refine ⟨⟨hle', hworker, hqueue', hle, hforwarder, hqueue⟩, ?_⟩
  obtain ⟨more, hmore⟩ := sent_prefix_forwardUdpPackets f (List.zipWith ForwardTurn.arrival
    ((run env wk ((lefts (lefts sched)).take (rights (lefts sched)).length)).udpTx.drop
      wk.udpTx.length) (rights sched))
  rw [hsent, hforwarder, ← hmore, List.drop_left]

/-- **With empty channels** everything that has arrived is handled. -/
theorem ReceiverAt.drained {env : Env} {wk : Worker} {f : Forwarder} {raws : List Bytes} {n : ℕ}
    {turns : List ForwardTurn} {l : Agent.Link (Agent.Link Unit Bytes Worker) Packet Forwarder}
    (h : ReceiverAt env wk f raws n turns l) (hwaiting : l.front.queue = [])
    (hhanded : l.queue = []) :
    l.front.back = run env wk raws ∧ turns.length = (handedOn env wk raws).length ∧
      l.back = forwardUdpPackets f
        (List.zipWith ForwardTurn.arrival (handedOn env wk raws) turns) := by
  have htake : raws.take n = raws := by
    refine List.take_of_length_le (List.drop_eq_nil_iff.mp ?_)
    rw [← h.waiting, hwaiting]
  have hturns := h.turns_le
  have hrest := h.handed
  rw [hhanded, htake, eq_comm, List.drop_eq_nil_iff] at hrest
  rw [htake] at hturns
  refine ⟨?_, by omega, ?_⟩
  · rw [h.worker, htake]
  · rw [h.forwarder, htake]

/-- Turns that empty the channels: `n` of the worker, and those of the forwarding thread. -/
def finish (n : ℕ) (turns : List ForwardTurn) : List ((Bytes ⊕ Unit) ⊕ ForwardTurn) :=
  ((List.replicate n ()).map Sum.inr).map Sum.inl ++ turns.map Sum.inr

/-- Nothing arrives in the turns that empty the channels. -/
theorem arrived_append_finish (sched : List ((Bytes ⊕ Unit) ⊕ ForwardTurn)) (n : ℕ)
    (turns : List ForwardTurn) : arrived (sched ++ finish n turns) = arrived sched := by
  simp [arrived, finish, lefts_append, -List.map_replicate, -List.map_map]

/-- The turns of the forwarding thread among those that empty the channels. -/
theorem rights_append_finish (sched : List ((Bytes ⊕ Unit) ⊕ ForwardTurn)) (n : ℕ)
    (turns : List ForwardTurn) : rights (sched ++ finish n turns) = rights sched ++ turns := by
  simp [finish, rights_append, -List.map_replicate, -List.map_map]

/-- Datagrams that arrive one after the other. -/
def arrivals (raws : List Bytes) : List ((Bytes ⊕ Unit) ⊕ ForwardTurn) :=
  (raws.map Sum.inl).map Sum.inl

/-- What arrives, arrives. -/
theorem arrived_append_arrivals (sched : List ((Bytes ⊕ Unit) ⊕ ForwardTurn)) (raws : List Bytes) :
    arrived (sched ++ arrivals raws) = arrived sched ++ raws := by
  rw [arrived, arrivals, lefts_append, lefts_append, lefts_map_inl, lefts_map_inl, ← arrived]

/-- The forwarding thread has no turn in the meantime. -/
theorem rights_append_arrivals (sched : List ((Bytes ⊕ Unit) ⊕ ForwardTurn)) (raws : List Bytes) :
    rights (sched ++ arrivals raws) = rights sched := by
  rw [arrivals, rights_append, rights_map_inl, List.append_nil]

/-- The worker has no turn while datagrams arrive. -/
theorem workerTurns_append_arrivals (sched : List ((Bytes ⊕ Unit) ⊕ ForwardTurn))
    (raws : List Bytes) : workerTurns (sched ++ arrivals raws) = workerTurns sched := by
  rw [workerTurns, arrivals, lefts_append, lefts_map_inl, rights_append, rights_map_inl,
    List.append_nil, ← workerTurns]

/-- The worker has the turns that empty its channel. -/
theorem workerTurns_append_finish (sched : List ((Bytes ⊕ Unit) ⊕ ForwardTurn)) (n : ℕ)
    (turns : List ForwardTurn) : workerTurns (sched ++ finish n turns) = workerTurns sched + n := by
  simp [workerTurns, finish, lefts_append, rights_append, -List.map_replicate, -List.map_map]

/-- **Thread by thread**: whatever the moment, some datagrams may arrive, then the worker may have
turns for some of what is in its channel, and then the forwarding thread for some of what it finds
in its own. -/
theorem receiver_phases (env : Env)
    (l : Agent.Link (Agent.Link Unit Bytes Worker) Packet Forwarder) (raws : List Bytes) (n : ℕ)
    (turns : List ForwardTurn) (hn : n ≤ (l.front.queue ++ raws).length)
    (hturns : turns.length ≤ (l.queue ++
      handedOn env l.front.back ((l.front.queue ++ raws).take n)).length) :
    ∃ f out, (receiver env).run (arrivals raws ++ finish n turns) l =
      some (⟨⟨(), (l.front.queue ++ raws).drop n,
          run env l.front.back ((l.front.queue ++ raws).take n)⟩,
        (l.queue ++ handedOn env l.front.back ((l.front.queue ++ raws).take n)).drop turns.length,
        f⟩, out) := by
  have hworker := Agent.run_into_of_parts (workerThread env) (List.replicate n ())
    (listener_run raws) (by rwa [List.length_replicate]) (l := l.front)
  rw [workerThread_run, List.length_replicate] at hworker
  have hboth := Agent.run_into_of_parts forwarderThread turns hworker hturns
  rw [List.map_append, List.append_assoc] at hboth
  exact ⟨_, _, hboth⟩

/-- **The channels can always be emptied**: at any moment, the worker's turns for what is in its
channel, and turns of the forwarding thread for what it then finds in its own, with whatever
answers, leave both channels empty and everything that has arrived handled. -/
theorem receiver_drain {env : Env} {wk : Worker} {f : Forwarder}
    {sched : List ((Bytes ⊕ Unit) ⊕ ForwardTurn)}
    {r : Agent.Link (Agent.Link Unit Bytes Worker) Packet Forwarder × List Bytes}
    (h : (receiver env).run sched (receiverWith wk f) = some r) {turns : List ForwardTurn}
    (hturns : turns.length = r.1.queue.length +
      (handedOn env r.1.front.back r.1.front.queue).length) :
    ∃ r', (receiver env).run (sched ++ finish r.1.front.queue.length turns)
        (receiverWith wk f) = some r' ∧
      r'.1.front.queue = [] ∧ r'.1.queue = [] ∧
      r'.1.front.back = run env wk (arrived sched) ∧
      r'.1.back = forwardUdpPackets f
        (List.zipWith ForwardTurn.arrival (handedOn env wk (arrived sched))
          (rights sched ++ turns)) := by
  obtain ⟨f', out, hboth⟩ := receiver_phases env r.1 [] r.1.front.queue.length turns
    (by simp) (by simp [hturns])
  rw [List.append_nil, List.drop_length, List.take_length,
    List.drop_of_length_le (by rw [List.length_append, hturns])] at hboth
  have hrun : (receiver env).run (sched ++ finish r.1.front.queue.length turns)
      (receiverWith wk f) = some _ := (receiver env).run_append_eq_some h hboth
  obtain ⟨hat, -⟩ := receiver_run hrun
  obtain ⟨hback, -, hforwarder⟩ := hat.drained rfl rfl
  rw [arrived_append_finish] at hback hforwarder
  rw [rights_append_finish] at hforwarder
  exact ⟨_, hrun, rfl, rfl, hback, hforwarder⟩

/-- Whatever arrives, there is a schedule that ends with empty channels. -/
theorem exists_schedule (env : Env) (wk : Worker) (f : Forwarder) (raws : List Bytes) :
    ∃ sched r, (receiver env).run sched (receiverWith wk f) = some r ∧ arrived sched = raws ∧
      r.1.front.queue = [] ∧ r.1.queue = [] := by
  obtain ⟨f', out, hrun⟩ := receiver_phases env (receiverWith wk f) raws raws.length
    (List.replicate (handedOn env wk raws).length ⟨0, 0, none⟩)
    (by simp [receiverWith]) (by simp [receiverWith])
  refine ⟨_, _, hrun, ?_, ?_, ?_⟩
  · rw [arrived_append_finish, ← List.nil_append (arrivals raws), arrived_append_arrivals]
    rfl
  · simp [receiverWith]
  · simp [receiverWith]

/-- **The receiver under every schedule**: at every moment, whatever arrives and whatever the
operating system fails, the worker and the forwarding thread are where their loops are after the
front of what was put into their channels, and the rest is still there, in order; the datagrams
given to the target socket are those that the forwarding thread has sent; and turns of the two
threads, with whatever answers, empty the channels. -/
theorem receiver_schedules {env : Env} {wk : Worker} {f : Forwarder}
    {sched : List ((Bytes ⊕ Unit) ⊕ ForwardTurn)}
    {r : Agent.Link (Agent.Link Unit Bytes Worker) Packet Forwarder × List Bytes}
    (h : (receiver env).run sched (receiverWith wk f) = some r) :
    ReceiverAt env wk f (arrived sched) (workerTurns sched) (rights sched) r.1 ∧
      r.1.back.sent = f.sent ++ r.2 ∧
      ∀ turns : List ForwardTurn, turns.length = r.1.queue.length +
          (handedOn env r.1.front.back r.1.front.queue).length →
        ∃ r', (receiver env).run (sched ++ finish r.1.front.queue.length turns)
            (receiverWith wk f) = some r' ∧
          r'.1.front.queue = [] ∧ r'.1.queue = [] ∧
          r'.1.front.back = run env wk (arrived sched) ∧
          r'.1.back = forwardUdpPackets f (List.zipWith ForwardTurn.arrival
            (handedOn env wk (arrived sched)) (rights sched ++ turns)) :=
  ⟨(receiver_run h).1, (receiver_run h).2, fun _ hturns => receiver_drain h hturns⟩

/-- Both copies of a short datagram arrive; the worker hands on the packet of the first, and it is
forwarded; something else arrives; and the worker hands on the packet of the second. -/
def busySchedule : List ((Bytes ⊕ Unit) ⊕ ForwardTurn) :=
  arrivals (udpEmitted [shortDatagram]) ++ finish 1 [⟨0, 0, none⟩] ++ arrivals [[120]] ++
    finish 1 []

/-- The packets of the short datagram, as they are sent and as they are handed on. -/
theorem udpEmitted_shortDatagram :
    udpEmitted [shortDatagram] = udpFragments shortDatagram ++ udpFragments shortDatagram ∧
      (udpFragments shortDatagram).length = 1 ∧ shortDatagram.packets.length = 1 ∧
      udpTraffic (udpEmitted [shortDatagram]) =
        shortDatagram.packets ++ shortDatagram.packets := by
  have hcopies : udpEmitted [shortDatagram] =
      udpFragments shortDatagram ++ udpFragments shortDatagram := by
    rw [udpEmitted_eq, List.flatMap_singleton]
  have hone : shortDatagram.packets.length = 1 := by
    rw [shortDatagram_packets, List.length_singleton]
  have hlen : (udpFragments shortDatagram).length = 1 := by
    rw [← List.length_map, map_decodePacket_udpFragments shortDatagram_sendable, List.length_map,
      hone]
  refine ⟨hcopies, hlen, hone, ?_⟩
  rw [hcopies, udpTraffic, List.filterMap_append, ← udpTraffic, shortDatagram_sendable.traffic.1]

/-- No thread takes from an empty channel in it. -/
theorem exists_run_busySchedule : ∃ r, (receiver referenceEnv).run busySchedule
    (receiverWith (.new referenceTree) (.new 0)) = some r := by
  obtain ⟨hcopies, hlen, hone, -⟩ := udpEmitted_shortDatagram
  -- the packet of the first copy is in the channel of the forwarding thread
  have hpacket : (handedOn referenceEnv (.new referenceTree)
      ((udpEmitted [shortDatagram]).take 1)).length = 1 := by
    rw [hcopies, List.take_left' hlen, handedOn_eq rfl, shortDatagram_sendable.traffic.1, hone]
  obtain ⟨f, out, hfront⟩ := receiver_phases referenceEnv
    (receiverWith (.new referenceTree) (.new 0)) (udpEmitted [shortDatagram]) 1
    [⟨0, 0, none⟩] (by simp [receiverWith, hcopies, hlen])
    (by simp only [receiverWith, List.nil_append, hpacket, List.length_singleton, le_refl])
  obtain ⟨f', out', hback⟩ := receiver_phases referenceEnv _ [[120]] 1 []
    (by simp) (Nat.zero_le _)
  have hboth := (receiver referenceEnv).run_append_eq_some hfront hback
  rw [← List.append_assoc] at hboth
  exact ⟨_, hboth⟩

/-- At a moment when all threads have had turns the channels of two hold something, and can be
emptied. -/
theorem receiver_schedules_busy : ∃ r r', (receiver referenceEnv).run busySchedule
      (receiverWith (.new referenceTree) (.new 0)) = some r ∧
    ReceiverAt referenceEnv (.new referenceTree) (.new 0) (udpEmitted [shortDatagram] ++ [[120]]) 2
      [⟨0, 0, none⟩] r.1 ∧
    r.1.front.queue = [[120]] ∧ r.1.queue = shortDatagram.packets ∧
    (receiver referenceEnv).run (busySchedule ++ finish 1 [⟨0, 0, none⟩])
      (receiverWith (.new referenceTree) (.new 0)) = some r' ∧
    r'.1.front.queue = [] ∧ r'.1.queue = [] := by
  obtain ⟨hcopies, hlen, hone, htraffic⟩ := udpEmitted_shortDatagram
  obtain ⟨r, hrun⟩ := exists_run_busySchedule
  obtain ⟨hat, -, hdrain⟩ := receiver_schedules hrun
  have harrived : arrived busySchedule = udpEmitted [shortDatagram] ++ [[120]] := by
    rw [busySchedule, arrived_append_finish, arrived_append_arrivals, arrived_append_finish,
      ← List.nil_append (arrivals _), arrived_append_arrivals]
    rfl
  have hworker : workerTurns busySchedule = 2 := by
    rw [busySchedule, workerTurns_append_finish, workerTurns_append_arrivals,
      workerTurns_append_finish, ← List.nil_append (arrivals _), workerTurns_append_arrivals]
    rfl
  have hforward : rights busySchedule = [⟨0, 0, none⟩] := by
    rw [busySchedule, rights_append_finish, rights_append_arrivals, rights_append_finish,
      ← List.nil_append (arrivals _), rights_append_arrivals]
    rfl
  rw [harrived, hworker, hforward] at hat
  have htwo : (udpEmitted [shortDatagram]).length = 2 := by
    rw [hcopies, List.length_append, hlen]
  have hwaiting : r.1.front.queue = [[120]] := by
    rw [hat.waiting, List.drop_left' htwo]
  have hhanded : r.1.queue = shortDatagram.packets := by
    rw [hat.handed, List.take_left' htwo, handedOn_eq rfl, htraffic, List.length_singleton,
      List.drop_left' hone]
  have hnone : udpTraffic [[120]] = [] := by decide
  obtain ⟨r', hrun', hempty, hempty', -⟩ := hdrain [⟨0, 0, none⟩]
    (by rw [hwaiting, hhanded, hone, handedOn_eq rfl, hnone]; rfl)
  rw [hwaiting] at hrun'
  exact ⟨r, r', hrun, hat, hwaiting, hhanded, hrun', hempty, hempty'⟩

end DataDiode
