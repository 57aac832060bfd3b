import DataDiode.Chunks
import DataDiode.Reference

/-!
# One File over a Failing Socket

What leaves the sender of a file whose contents stand still, however the file is read and whatever
the socket fails to take. The sender tries the packets of the file in order. PARITY packets that
fail are passed over, the first other failure ends the transfer, and the file is removed only if
nothing but PARITY packets failed.

## Main results

* `filter_packets`: what the packets of a file are without the PARITY packets.
* `sendFileChunks_transmits`: what is sent of a file, and when it is removed.
-/

namespace DataDiode

/-! ### Packets that are not PARITY -/

/-- A packet of any type but PARITY. -/
def isPlainPacket (packet : Bytes) : Bool := !isParityPacket packet

/-- None of the PARITY packets is a plain packet. -/
theorem filter_isPlainPacket_parityPackets (libs : Libs) (relPathHash : Bytes)
    (recovery : List Bytes) (parityCount batchIdx : ℕ) :
    (parityPackets libs relPathHash recovery parityCount batchIdx).filter isPlainPacket = [] := by
  refine List.filter_eq_nil_iff.mpr fun packet hpacket => ?_
  rw [isPlainPacket, isParityPacket_of_mem_parityPackets hpacket]
  decide

/-- A packet of another type is one, however often it is sent. -/
theorem filter_isPlainPacket_replicate {packet : Bytes} (h : isParityPacket packet = false)
    (n : ℕ) : (List.replicate n packet).filter isPlainPacket = List.replicate n packet := by
  refine List.filter_eq_self.mpr fun p hp => ?_
  rw [(List.mem_replicate.mp hp).2, isPlainPacket, h]
  rfl

namespace Transfer

variable (libs : Libs) (t : Transfer)

/-- The DATA packets of a file. -/
def fileDataPackets (n : ℕ) : List Bytes :=
  (List.range n).map fun i => dataPacket libs (t.pathHash libs) (t.chunkAt i) i

/-- Without parity, the packets up to a chunk are the DATA packets up to it. -/
theorem filter_packetsBefore {i : ℕ} (hi : i ≤ t.chunkCount) :
    (t.packetsBefore libs i).filter isPlainPacket = t.fileDataPackets libs i := by
  induction i with
  | zero =>
      rw [packetsBefore_zero]
      rfl
  | succ i ih =>
      have hdata : ([dataPacket libs (t.pathHash libs) (t.chunkAt i) i]).filter isPlainPacket =
          [dataPacket libs (t.pathHash libs) (t.chunkAt i) i] :=
        filter_isPlainPacket_replicate (isParityPacket_dataPacket ..) 1
      have hbehind : (t.parityBehind libs i).filter isPlainPacket = [] := by
        rw [parityBehind]
        split
        · exact filter_isPlainPacket_parityPackets ..
        · rfl
      rw [t.packetsBefore_succ libs hi, List.filter_append, List.filter_append, hdata, hbehind,
        ih (by omega), List.append_nil, fileDataPackets, fileDataPackets, List.range_succ,
        List.map_append, List.map_singleton]

/-- **Without parity**, the packets of a file are START packets, its chunks in order, and END
packets. -/
theorem filter_packets : (t.packets libs).filter isPlainPacket =
    List.replicate controlResend (t.startPacket libs) ++ t.fileDataPackets libs t.chunkCount ++
      List.replicate controlResend t.endPacket := by
  have hlast : (t.lastParity libs).filter isPlainPacket = [] := by
    rw [lastParity]
    split
    · rfl
    · exact filter_isPlainPacket_parityPackets ..
  have hstart : isParityPacket (t.startPacket libs) = false := isParityPacket_startPacket ..
  have hend : isParityPacket t.endPacket = false := isParityPacket_endPacket ..
  rw [packets, List.filter_append, List.filter_append, chunkPackets_eq, List.filter_append, hlast,
    List.append_nil, t.filter_packetsBefore libs le_rfl, filter_isPlainPacket_replicate hstart,
    filter_isPlainPacket_replicate hend]

/-! ### One batch among the packets -/

/-- The PARITY packets of a batch. -/
def batchParity (b : ℕ) : List Bytes :=
  parityPackets libs (t.pathHash libs) (t.recovery libs b) batchParityChunks b

/-- The packets of a file up to the last chunk of a batch. -/
def packetsToParity (b : ℕ) : List Bytes :=
  List.replicate controlResend (t.startPacket libs) ++
    (List.range b).flatMap (t.batchPackets libs) ++ t.dataPackets libs b (t.batchSize b)

/-- The parity of a batch comes right behind its chunks. -/
theorem exists_packets_eq {b : ℕ} (hb : b < t.batchCount) :
    ∃ rest, t.packets libs = t.packetsToParity libs b ++ (t.batchParity libs b ++ rest) := by
  obtain ⟨k, hk⟩ := Nat.exists_eq_add_of_lt hb
  have hrange : List.range t.batchCount = List.range b ++ [b] ++
      (List.range k).map (b + 1 + ·) := by
    rw [hk, show b + k + 1 = b + 1 + k by omega, List.range_add, List.range_succ]
  refine ⟨((List.range k).map (b + 1 + ·)).flatMap (t.batchPackets libs) ++
    List.replicate controlResend t.endPacket, ?_⟩
  rw [packets, chunkPackets, hrange, List.flatMap_append, List.flatMap_append,
    List.flatMap_singleton, batchPackets, packetsToParity, batchParity]
  simp only [List.append_assoc]

/-- A batch has the chunks from its first one up to the next batch or the end of the file. -/
theorem batch_end {b : ℕ} (hb : b < t.batchCount) :
    b * batchDataChunks + t.batchSize b = min ((b + 1) * batchDataChunks) t.chunkCount := by
  have hpos := t.batchSize_pos_iff.mpr hb
  rw [batchSize_eq, batchDataChunks] at *
  omega

end Transfer

/-! ### What was tried -/

/-- Where only PARITY packets failed, the others were all taken. -/
theorem filter_taken {tried : List (Bytes × Bool)} (h : OnlyParityFailed tried) :
    (taken tried).filter isPlainPacket = (tried.map Prod.fst).filter isPlainPacket := by
  induction tried with
  | nil => rfl
  | cons attempt tried ih =>
      obtain ⟨packet, ok⟩ := attempt
      obtain ⟨hfailed, hrest⟩ := onlyParityFailed_cons.mp h
      rw [taken_cons, List.map_cons, List.filter_cons]
      cases ok with
      | true => rw [if_pos rfl, List.filter_cons, ih hrest]
      | false =>
          rw [if_neg (by decide), if_neg (by rw [isPlainPacket, hfailed rfl]; decide), ih hrest]

/-- What is sent of a file: the packets tried, each with whether the socket took it. -/
structure Transmits (libs : Libs) (t : Transfer) (net : Net) (src : Source)
    (result : Bool × Net × Source) (tried : List (Bytes × Bool)) : Prop where
  /-- The packets of the file are tried in order. -/
  order : tried.map Prod.fst <+: t.packets libs
  /-- All of them are tried, unless a call on the file or a packet that is not PARITY fails. -/
  complete : src.Faultless → OnlyParityFailed tried → tried.map Prod.fst = t.packets libs
  /-- Every attempt turns out as the socket has it. -/
  outcomes : tried = attempts net.outcomes (tried.map Prod.fst)
  /-- What is sent are the attempts that succeed. -/
  sent : result.2.1.sent = net.sent ++ taken tried
  /-- Apart from PARITY packets, what is sent is the front of START packets, chunks in order and
  END packets. -/
  plain : (taken tried).filter isPlainPacket <+:
    List.replicate controlResend (t.startPacket libs) ++ t.fileDataPackets libs t.chunkCount ++
      List.replicate controlResend t.endPacket
  /-- Behind the chunks of a batch, once they are sent, all its PARITY packets are tried. -/
  parity : src.Faultless → ∀ b < t.batchCount, ∀ tried₁ tried₂, tried = tried₁ ++ tried₂ →
    tried₁.map Prod.fst = t.packetsToParity libs b → OnlyParityFailed tried₁ →
    t.batchParity libs b <+: tried₂.map Prod.fst
  /-- The file is removed only if all packets are tried and only PARITY packets fail. -/
  removed : result.1 = true ∨ result.2.2.present ≠ some t.contents →
    tried.map Prod.fst = t.packets libs ∧ OnlyParityFailed tried

section Transmits

variable {libs : Libs} {t : Transfer} {net : Net} {src : Source} {result : Bool × Net × Source}

/-- A sending without a failure that ends it. -/
theorem SentInOrder.transmits {front : List Bytes}
    (h : SentInOrder libs t net src result front true) :
    Transmits libs t net src result (attempts net.outcomes front) := by
  obtain ⟨hsent, hfailed⟩ := sendInOrder_of_true h.net
  refine ⟨?_, fun hfaultless _ => ?_, ?_, hsent, ?_,
    fun hfaultless b hb tried₁ tried₂ heq hfirst _ => ?_, fun hremoved => ?_⟩
  · rw [map_fst_attempts]
    exact h.isPrefix
  · rw [map_fst_attempts]
    exact (h.complete rfl).resolve_right (not_not.mpr hfaultless)
  · rw [map_fst_attempts]
  · rw [filter_taken hfailed, map_fst_attempts, ← t.filter_packets libs]
    exact h.isPrefix.filter _
  · obtain ⟨rest, hpackets⟩ := t.exists_packets_eq libs hb
    have hfront := (h.complete rfl).resolve_right (not_not.mpr hfaultless)
    have htried := congrArg (List.map Prod.fst) heq
    rw [map_fst_attempts, hfront, hpackets, List.map_append, hfirst] at htried
    rw [← List.append_cancel_left htried]
    exact List.prefix_append _ _
  · rw [map_fst_attempts]
    exact ⟨(h.removed hremoved).2, hfailed⟩

/-- A sending that a failure ends. -/
theorem SentInOrder.exists_transmits {front : List Bytes}
    (h : SentInOrder libs t net src result front false) :
    ∃ tried, Transmits libs t net src result tried := by
  obtain ⟨before, packet, after, rfl, hplain, hattempts, hsent, hfailed⟩ :=
    sendInOrder_of_false h.net
  have hprefix : before ++ [packet] <+: t.packets libs := by
    refine List.IsPrefix.trans ⟨after, ?_⟩ h.isPrefix
    rw [List.append_assoc, List.singleton_append]
  have hmap : (attempts net.outcomes before ++ [(packet, false)]).map Prod.fst =
      before ++ [packet] := by
    rw [List.map_append, map_fst_attempts, List.map_singleton]
  have htaken : taken (attempts net.outcomes before ++ [(packet, false)]) =
      taken (attempts net.outcomes before) := by
    rw [taken_append]
    exact List.append_nil _
  refine ⟨attempts net.outcomes before ++ [(packet, false)], ?_, fun _ honly => ?_, ?_, ?_, ?_, ?_,
    fun hremoved => absurd (h.removed hremoved).1 (by simp)⟩
  · rw [hmap]
    exact hprefix
  · -- the last attempt failed, and not at a PARITY packet
    rw [honly (packet, false) (by simp) rfl] at hplain
    exact absurd hplain (by simp)
  · rw [hmap, hattempts]
  · rw [htaken]
    exact hsent
  · rw [htaken, filter_taken hfailed, map_fst_attempts, ← t.filter_packets libs]
    exact ((List.prefix_append _ _).trans hprefix).filter _
  · intro _ b hb tried₁ tried₂ heq hfirst honly
    obtain ⟨rest, hpackets⟩ := t.exists_packets_eq libs hb
    have hlater : tried₂.map Prod.fst <+: t.batchParity libs b ++ rest := by
      rw [← hmap, heq, List.map_append, hfirst, hpackets] at hprefix
      exact (List.prefix_append_right_inj _).mp hprefix
    refine (List.prefix_or_prefix_of_prefix hlater (List.prefix_append _ _)).resolve_left
      fun hshort => ?_
    -- the failure that ends the sending is not among the PARITY packets, nor before them
    have hmem : (packet, false) ∈ tried₁ ++ tried₂ := heq ▸ by simp
    rcases List.mem_append.mp hmem with hmem | hmem
    · rw [honly _ hmem rfl] at hplain
      exact absurd hplain (by simp)
    · have hparity := hshort.subset (List.mem_map_of_mem hmem)
      rw [isParityPacket_of_mem_parityPackets hparity] at hplain
      exact absurd hplain (by simp)

end Transmits

/-- **What is sent of a file**, and when it is removed: for every file whose contents stand still
during the call, every way its reads turn out, and every socket. -/
theorem sendFileChunks_transmits (libs : Libs) (t : Transfer) (net : Net) (src : Source)
    (hvalid : src.Valid) (hpresent : src.present = some t.contents)
    (hsteady : ∀ used, src.schedule = used ++
      (sendFileChunks libs net src t.path).2.2.schedule → Steady t.contents used) :
    (∃ tried, Transmits libs t net src (sendFileChunks libs net src t.path) tried) ∧
      ∀ b < t.batchCount,
        b * batchDataChunks + batchDataSize b t.contents.length =
          min ((b + 1) * batchDataChunks) t.chunkCount ∧
        (t.recovery libs b).length = batchParityChunks := by
  refine ⟨?_, fun b hb => ⟨t.batch_end hb, t.length_recovery libs hb⟩⟩
  obtain ⟨used, hused, himp⟩ := sendFileChunks_inOrder libs t net hvalid hpresent
  obtain ⟨front, ok, hfile⟩ := himp (hsteady used hused)
  cases ok with
  | true => exact ⟨_, hfile.transmits⟩
  | false => exact hfile.exists_transmits

/-- A file of two bytes, read one by one after an interruption, and replaced by its like while it
is open. -/
def fragmentedSource : Source :=
  ⟨[[1, 2]], some 0, [⟨[], .ok⟩, ⟨[], .ok⟩, ⟨[.replace [1, 2]], .interrupted⟩, ⟨[], .short 0⟩]⟩

/-- The file is sent over a socket that fails to take the fifth packet, the first PARITY packet. -/
theorem sendFileChunks_transmits_fragmentedSource :
    (∃ tried, Transmits referenceLibs ⟨['a'], [1, 2]⟩ ⟨[.ok, .enobufs, .ok, .ok, .ok, .failed], []⟩
      fragmentedSource (sendFileChunks referenceLibs ⟨[.ok, .enobufs, .ok, .ok, .ok, .failed], []⟩
        fragmentedSource ['a']) tried) ∧
      ∀ b < (⟨['a'], [1, 2]⟩ : Transfer).batchCount,
        b * batchDataChunks + batchDataSize b 2 =
          min ((b + 1) * batchDataChunks) (⟨['a'], [1, 2]⟩ : Transfer).chunkCount ∧
        ((⟨['a'], [1, 2]⟩ : Transfer).recovery referenceLibs b).length = batchParityChunks := by
  refine sendFileChunks_transmits referenceLibs ⟨['a'], [1, 2]⟩ _ fragmentedSource ?_ rfl ?_
  · intro j hj
    obtain rfl : 0 = j := Option.some.inj hj
    exact Nat.one_pos
  · intro used hused plan hplan a ha
    have hmem : plan ∈ fragmentedSource.schedule := by
      rw [hused]
      exact List.mem_append_left _ hplan
    have hall : ∀ plan ∈ fragmentedSource.schedule, ∀ a ∈ plan.actions, a.contents = [1, 2] := by
      simp [fragmentedSource, WriterAction.contents]
    exact hall plan hmem a ha

end DataDiode
