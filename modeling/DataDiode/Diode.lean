import DataDiode.Mirror
import DataDiode.Threads
import DataDiode.Truncation
import DataDiode.Watching

/-!
# From Directory to Directory

The whole way of files and datagrams: the sender scans its directory and sends what it finds; its
second thread cuts datagrams into fragments; both give their packets to one socket, in any
interleaving. The line may lose packets of files, but does not change their order. Behind it are the
three threads of the receiver, scheduled in any way.

If of every transfer an announcement, an END and enough of every batch get through, then the output
directory mirrors what was put into the source directory, and every datagram is handed on, twice.

## Main results

* `Transfer.GetsThrough.tolerable`: what a line that keeps the order has to let through.
* `diode_mirrors`: from directory to directory, for every schedule.
* `diode_forwards`: from datagrams to datagrams, for every schedule.
-/

namespace DataDiode

open UnixPath (Path)

/-! ### The line -/

/-- What gets through of a transfer: some packets of the file in their order, among them an
announcement, an END, and enough of every batch. -/
structure Transfer.GetsThrough (libs : Libs) (t : Transfer) (raws : List Bytes) : Prop where
  sublist : raws.Sublist (t.emitted libs)
  start : t.startPacket libs ∈ raws
  finish : t.endPacket ∈ raws
  enough : ∀ b < t.batchCount, t.Restorable libs b raws

/-- **What a line has to let through** if it keeps the order. -/
theorem Transfer.GetsThrough.tolerable {libs : Libs} {t : Transfer} (ht : t.Small)
    {raws : List Bytes} (h : t.GetsThrough libs raws) : t.Tolerable libs raws := by
  have hordered := (Transfer.tolerable_emitted libs ht).ordered.sublist h.sublist
  refine ⟨?_, hordered, h.enough⟩
  obtain ⟨k, ids, m, rfl, hids⟩ := Transfer.exists_of_sublist libs h.sublist
  have hchunks : ∀ c ∈ ids, t.HasChunk c := fun c hc => Transfer.mem_allIds.mp (hids.subset hc)
  -- the announcement is one of the first packets, and the END one of the last
  obtain ⟨k, rfl⟩ := Nat.exists_eq_succ_of_ne_zero
    ((Transfer.startPacket_mem_left_iff libs ht.length_lt hchunks).mp h.start)
  obtain ⟨m, rfl⟩ := Nat.exists_eq_succ_of_ne_zero
    ((Transfer.endPacket_mem_left_iff libs ht.length_lt hchunks).mp h.finish)
  refine ⟨List.replicate k (t.startPacket libs) ++ ids.map (t.chunkPacket libs), m, ?_,
    fun raw hraw => ?_⟩
  · rw [Transfer.left, List.replicate_succ, List.cons_append, ← List.append_assoc]
    rfl
  · refine (List.mem_append.mp hraw).imp List.eq_of_mem_replicate fun hmem => ?_
    obtain ⟨c, hc, rfl⟩ := List.mem_map.mp hmem
    exact (Transfer.mem_chunkPackets_iff libs).mpr ⟨c, hchunks c hc, rfl⟩

/-- All packets of a file. -/
theorem Transfer.getsThrough_emitted (libs : Libs) {t : Transfer} (ht : t.Small) :
    t.GetsThrough libs (t.emitted libs) where
  sublist := .refl _
  start := by simp [t.emitted_eq, controlResend]
  finish := by simp [t.emitted_eq, controlResend]
  enough := (Transfer.tolerable_emitted libs ht).enough

/-- The datagrams on the line are UDP packets. -/
theorem udpEmitted_traffic {ds : List UdpDatagram} (hds : ∀ d ∈ ds, d.Sendable) :
    udpTraffic (udpEmitted ds) = (ds.flatMap fun d => d.packets ++ d.packets) ∧
      fileTraffic (udpEmitted ds) = [] := by
  refine udpTraffic_of_map (map_decodePacket_udpEmitted hds) fun p hp => ?_
  obtain ⟨d, -, hp⟩ := List.mem_flatMap.mp hp
  rcases List.mem_append.mp hp with hp | hp <;> exact (mem_udpDecoded hp).1

/-- **Both kinds of traffic on the line**, however they are mixed. -/
theorem traffic_of_interleaves {files datagrams wire : List Bytes}
    (h : Interleaves files datagrams wire) (hfiles : ∀ raw ∈ files, isFileTraffic raw = true)
    (hdatagrams : fileTraffic datagrams = []) :
    fileTraffic wire = files ∧ udpTraffic wire = udpTraffic datagrams := by
  have hudp : ∀ raw ∈ datagrams, isFileTraffic raw = false := by
    intro raw hraw
    simpa using List.filter_eq_nil_iff.mp hdatagrams raw hraw
  refine ⟨h.filter_left hfiles hudp, h.filterMap_right fun raw hraw => ?_⟩
  simpa [isFileTraffic] using hfiles raw hraw

/-- Packets with as many turns of the forwarding thread. -/
theorem map_packet_zipWith_arrival {packets : List Packet} {turns : List ForwardTurn}
    (h : packets.length = turns.length) :
    (List.zipWith ForwardTurn.arrival packets turns).map Arrival.packet = packets := by
  induction packets generalizing turns with
  | nil => rfl
  | cons packet packets ih =>
      cases turns with
      | nil => exact absurd h (by simp)
      | cons turn turns =>
          rw [List.zipWith_cons_cons, List.map_cons, ih (Nat.succ.inj h)]
          rfl

/-- Parts of the items that are given out one after the other. -/
theorem sublist_flatMap {α β : Type*} {as : List α} {f g : α → List β}
    (h : ∀ a ∈ as, (f a).Sublist (g a)) : (as.flatMap f).Sublist (as.flatMap g) := by
  induction as with
  | nil => exact .refl _
  | cons a as ih =>
      rw [List.flatMap_cons, List.flatMap_cons]
      exact (h a List.mem_cons_self).append (ih fun b hb => h b (List.mem_cons_of_mem _ hb))

/-! ### Files -/

/-- Transfers that do not get in each other's way, to an output directory with nothing in the way of
any of them. -/
structure Deliverable (env : Env) (fs : Tree) (ts : List Transfer) : Prop where
  small : ∀ t ∈ ts, t.Small
  ordinary : ∀ t ∈ ts, Ordinary t.path
  /-- no file is a directory of another -/
  branches : ∀ t ∈ ts, ∀ u ∈ ts, t.path ≠ u.path →
    ¬UnixPath.names t.path <+: UnixPath.names u.path
  free : ∀ t ∈ ts, Unobstructed env fs t.path

/-- **From directory to directory.** The sender watches a directory where nothing is at first;
nobody touches a file while it is being sent, and every listing shows what is there. The line lets
enough of every transfer through, in order, mixed in any way with any part of the packets of some
datagrams. The threads of the receiver run in any order, and have emptied their channels. Then what
arrived of the files is a part of what the sender sent, and the receiver, idle, holds under each
path the version that was put into the source directory last, has counted every transfer, and no
failure. -/
theorem diode_mirrors {env : Env} (henv : env.NoFaults) (hudp : env.udpForwardingEnabled = true)
    {sourceDir : Path} {srcs : Path → Source} (hsrcs : ∀ full, (srcs full).Gone)
    {turns : List Turn} (hlists : Lists env.toLibs sourceDir turns (.ideal, srcs)) {fs : Tree}
    (hts : Deliverable env fs (turns.flatMap (Turn.transfers · sourceDir)))
    {arrivals : List Reception}
    (harrivals : arrivals.map Prod.fst = turns.flatMap (Turn.transfers · sourceDir))
    (hthrough : ∀ a ∈ arrivals, a.1.GetsThrough env.toLibs a.2) {ds : List UdpDatagram}
    (hds : ∀ d ∈ ds, d.Sendable) {datagrams wire : List Bytes}
    (hdatagrams : datagrams.Sublist (udpEmitted ds))
    (hwire : Interleaves (arrivals.flatMap Prod.snd) datagrams wire) {f : Forwarder}
    {sched : List ((Bytes ⊕ Unit) ⊕ ForwardTurn)}
    {r : Agent.Link (Agent.Link Unit Bytes Worker) Packet Forwarder × List Bytes}
    (hrun : (receiver env).run sched (receiverWith (.new fs) f) = some r)
    (harrived : arrived sched = wire) (hwaiting : r.1.front.queue = [])
    (hhanded : r.1.queue = []) :
    (arrivals.flatMap Prod.snd).Sublist
        (watch env.toLibs sourceDir turns (.ideal, srcs)).1.sent ∧
      Mirrors env (turns.flatMap (Turn.transfers · sourceDir)) (.new fs) r.1.front.back := by
  rw [← harrivals] at hts ⊢
  have hmem : ∀ a ∈ arrivals, a.1 ∈ arrivals.map Prod.fst := fun a ha => List.mem_map_of_mem ha
  have hsmall : ∀ a ∈ arrivals, a.1.Small := fun a ha => hts.small a.1 (hmem a ha)
  constructor
  · have hswept : Swept sourceDir (.ideal, srcs) :=
      ⟨rfl, fun full => Or.inl (hsrcs full), fun full _ => hsrcs full⟩
    rw [(watch_spec hswept hlists).2, ← harrivals, List.flatMap_map, Net.ideal, List.nil_append]
    exact sublist_flatMap fun a ha => (hthrough a ha).sublist
  · have hpart : fileTraffic datagrams = [] := by
      have hnone := List.Sublist.filter isFileTraffic hdatagrams
      rw [← fileTraffic, ← fileTraffic, (udpEmitted_traffic hds).2] at hnone
      exact List.sublist_nil.mp hnone
    have hfiles : ∀ raw ∈ arrivals.flatMap Prod.snd, isFileTraffic raw = true := by
      intro raw hraw
      obtain ⟨a, ha, hraw⟩ := List.mem_flatMap.mp hraw
      exact Transfer.isFileTraffic_of_mem_emitted (hsmall a ha).length_lt
        ((hthrough a ha).sublist.subset hraw)
    obtain ⟨hat, -⟩ := receiver_run hrun
    rw [(hat.drained hwaiting hhanded).1, harrived]
    obtain ⟨hmirrors, -⟩ := Mirrors.of_round henv hsmall
      (fun a ha => (hthrough a ha).tolerable (hsmall a ha))
      (fun a ha b hb => spares_of_ordinary (hts.ordinary b.1 (hmem b hb))
        (hts.branches a.1 (hmem a ha) b.1 (hmem b hb)))
      (show (Worker.new fs).state = .new from rfl) fun a ha => hts.free a.1 (hmem a ha)
    obtain ⟨total, hworker⟩ := run_eq_withUdp hudp (.new fs) wire
    rw [(traffic_of_interleaves hwire hfiles hpart).1] at hworker
    rw [hworker]
    exact ⟨hmirrors.idle, hmirrors.contents, hmirrors.tidy, hmirrors.filesTransferred,
      hmirrors.filesFailed⟩

/-- The three transfers can be delivered. -/
theorem deliverable_versions :
    Deliverable referenceEnv referenceTree (versions.map Prod.fst) where
  small := List.forall_mem_map.mpr versions_small
  ordinary := List.forall_mem_map.mpr (forall_mem_versions (by decide) (by decide) (by decide))
  branches := by
    have hpaths : ∀ p ∈ [['a'], ['b']], ∀ q ∈ [['a'], ['b']], p ≠ q →
        ¬UnixPath.names p <+: UnixPath.names q := by decide
    exact List.forall_mem_map.mpr fun a ha => List.forall_mem_map.mpr fun b hb =>
      hpaths _ (versions_path a ha) _ (versions_path b hb)
  free := List.forall_mem_map.mpr versions_unobstructed

/-- Enough of the two versions gets through, and all of the other file. -/
theorem getsThrough_versions : ∀ a ∈ versions, a.1.GetsThrough referenceEnv.toLibs a.2 := by
  refine forall_mem_versions ⟨?_, ?_, ?_, oneByte_tolerable.enough⟩
    (Transfer.getsThrough_emitted _ otherEmptied_small) ⟨?_, ?_, ?_, twoChunks_tolerable.enough⟩
  · have hids : [ChunkId.parity 0 0].Sublist oneByte.allIds :=
      List.singleton_sublist.mpr (Transfer.mem_allIds.mpr ⟨by decide, by decide⟩)
    exact Transfer.left_sublist_emitted _ (k := 1) (m := 1) (by decide) hids (by decide)
  · exact List.mem_cons_self
  · simp [restoredByte]
  · have hids : restoringIds.Sublist twoChunks.allIds := by decide +kernel
    exact Transfer.left_sublist_emitted _ (k := 1) (m := 1) (by decide) hids (by decide)
  · exact List.mem_cons_self
  · simp

/-- The three transfers on the line, mixed with one copy of a datagram. -/
theorem interleaves_versionsRaws :
    Interleaves (versions.flatMap Prod.snd) (udpFragments longDatagram) versionsRaws := by
  have hfront := Interleaves.of_append restoredByte (udpFragments longDatagram)
  have hback := Interleaves.of_append
    (otherEmptied.emitted referenceLibs ++ (restoredChunk ++ [twoChunks.endPacket])) []
  have hboth := hfront.append hback
  simp only [List.append_nil, List.append_assoc] at hboth
  simpa [versions, versionsRaws] using hboth

/-- Three scans, losses that parity makes up for, and one copy of a datagram. -/
theorem diode_mirrors_versions : ∃ sched r,
    (receiver referenceEnv).run sched (receiverWith (.new referenceTree) (.new 0)) = some r ∧
      arrived sched = versionsRaws ∧
      Mirrors referenceEnv [oneByte, otherEmptied, twoChunks] (.new referenceTree)
        r.1.front.back := by
  obtain ⟨sched, r, hrun, harrived, hwaiting, hhanded⟩ := exists_schedule referenceEnv
    (.new referenceTree) (.new 0) versionsRaws
  refine ⟨sched, r, hrun, harrived, ?_⟩
  have hsent : versions.map Prod.fst = versionTurns.flatMap (Turn.transfers · ['s']) :=
    transfers_versionTurns.symm
  have hcopy : (udpFragments longDatagram).Sublist (udpEmitted [longDatagram]) := by
    rw [udpEmitted_eq, List.flatMap_singleton]
    exact List.sublist_append_left _ _
  have hmirrors := (diode_mirrors referenceEnv_noFaults rfl (fun _ => ⟨rfl, rfl⟩)
    (versionTurns_lists _) (hsent ▸ deliverable_versions) hsent getsThrough_versions
    (List.forall_mem_singleton.mpr longDatagram_sendable) hcopy interleaves_versionsRaws hrun
    harrived hwaiting hhanded).2
  rwa [← hsent] at hmirrors

/-! ### Datagrams -/

/-- **From datagrams to datagrams.** The line lets through the packets of some datagrams, mixed in
any way with any other traffic. The threads of the receiver run in any order, whatever the operating
system fails, and have emptied their channels. Then every datagram has been given to the target
socket twice, all of them in their order, and nothing else. -/
theorem diode_forwards {env : Env} (hudp : env.udpForwardingEnabled = true)
    {ds : List UdpDatagram} (hds : ∀ d ∈ ds, d.Sendable) {files wire : List Bytes}
    (hfiles : ∀ raw ∈ files, isFileTraffic raw = true)
    (hwire : Interleaves files (udpEmitted ds) wire) {wk : Worker} {f : Forwarder}
    (hidle : f.fwd.currentId = none) {sched : List ((Bytes ⊕ Unit) ⊕ ForwardTurn)}
    {r : Agent.Link (Agent.Link Unit Bytes Worker) Packet Forwarder × List Bytes}
    (hrun : (receiver env).run sched (receiverWith wk f) = some r)
    (harrived : arrived sched = wire) (hwaiting : r.1.front.queue = [])
    (hhanded : r.1.queue = []) :
    r.2 = (ds.flatMap fun d => [d.data, d.data]) ∧ r.1.back.fwd.currentId = none := by
  obtain ⟨htraffic, hnone⟩ := udpEmitted_traffic hds
  obtain ⟨hat, hsent⟩ := receiver_run hrun
  obtain ⟨-, hlen, hback⟩ := hat.drained hwaiting hhanded
  rw [harrived, handedOn_eq hudp, (traffic_of_interleaves hwire hfiles hnone).2,
    htraffic] at hlen hback
  obtain ⟨hid, hall⟩ := forwardUdpPackets_all hds hidle
    (map_packet_zipWith_arrival hlen.symm)
  rw [← hback] at hid hall
  rw [hall] at hsent
  exact ⟨(List.append_cancel_left hsent).symm, hid⟩

/-- A datagram of two fragments and one of a single fragment, with a file in front of them. -/
theorem diode_forwards_both : ∃ sched r,
    (receiver referenceEnv).run sched (receiverWith (.new referenceTree) (.new 0)) = some r ∧
      arrived sched = restoredByte ++ udpEmitted [longDatagram, shortDatagram] ∧
      r.2 = [longDatagram.data, longDatagram.data, [121], [121]] := by
  obtain ⟨sched, r, hrun, harrived, hwaiting, hhanded⟩ := exists_schedule referenceEnv
    (.new referenceTree) (.new 0) (restoredByte ++ udpEmitted [longDatagram, shortDatagram])
  have hfiles : ∀ raw ∈ restoredByte, isFileTraffic raw = true :=
    List.filter_eq_self.mp (oneByte_tolerable.fileTraffic_eq oneByte_small)
  exact ⟨sched, r, hrun, harrived, (diode_forwards rfl
    (List.forall_mem_cons.mpr ⟨longDatagram_sendable,
      List.forall_mem_singleton.mpr shortDatagram_sendable⟩)
    hfiles (.of_append _ _) rfl hrun harrived hwaiting hhanded).1⟩

end DataDiode
