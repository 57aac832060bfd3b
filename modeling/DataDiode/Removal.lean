import DataDiode.Emission
import DataDiode.InOrder
import DataDiode.Packet
import DataDiode.Reference
import DataDiode.Steady

/-!
# Removing a Sent File

The sender looks at a source file through separate calls: two lengths to see whether it is stable,
a third for the START packet, an open, the reads, the removal. Other programs may write to the file
or replace it before each of them. The file that is removed is the one that was sent if from the
third length on every such action leaves the contents as that length found them; an upload that
goes on any later is removed unsent.

## Main results

* `SendLoop.loop_undisturbed`: the sending loop sends all of them.
* `sendFile_removes_sent`: a steady source is removed only as it was sent.
* `sendFile_appended`: an upload that goes on after the last read is removed unsent.
-/

namespace DataDiode

/-! ### Sending -/

/-- The socket took packets satisfying `P`, and nothing else. -/
def Emits (P : Bytes → Prop) (net net' : Net) : Prop :=
  ∃ more, net'.sent = net.sent ++ more ∧ ∀ packet ∈ more, P packet

/-- Nothing is emitted. -/
theorem Emits.refl (P : Bytes → Prop) (net : Net) : Emits P net net :=
  ⟨[], by rw [List.append_nil], by simp⟩

/-- A weaker property of what is emitted. -/
theorem Emits.mono {P Q : Bytes → Prop} {net net' : Net} (h : Emits P net net')
    (hPQ : ∀ packet, P packet → Q packet) : Emits Q net net' := by
  obtain ⟨more, hsent, hP⟩ := h
  exact ⟨more, hsent, fun packet hpacket => hPQ packet (hP packet hpacket)⟩

/-- One step after the other. -/
theorem Emits.trans {P : Bytes → Prop} {net net' net'' : Net} (h : Emits P net net')
    (h' : Emits P net' net'') : Emits P net net'' := by
  obtain ⟨more, hsent, hP⟩ := h
  obtain ⟨more', hsent', hP'⟩ := h'
  refine ⟨more ++ more', by rw [hsent', hsent, List.append_assoc], fun packet hpacket => ?_⟩
  rcases List.mem_append.mp hpacket with hpacket | hpacket
  · exact hP packet hpacket
  · exact hP' packet hpacket

/-- A packet is taken just when sending it succeeds. -/
theorem sendToBlocking_sent (net : Net) (packet : Bytes) :
    (sendToBlocking net packet).2.sent =
      if (sendToBlocking net packet).1 then net.sent ++ [packet] else net.sent := by
  rw [sendToBlocking]
  split <;> rfl

/-- A packet that is sent is emitted once. -/
theorem sendToBlocking_emits {P : Bytes → Prop} (net : Net) {packet : Bytes} (h : P packet) :
    Emits P net (sendToBlocking net packet).2 := by
  have hsent := sendToBlocking_sent net packet
  split at hsent
  · exact ⟨[packet], hsent, fun p hp => by rwa [List.mem_singleton.mp hp]⟩
  · exact ⟨[], by rw [hsent, List.append_nil], by simp⟩

/-- A packet sent `n` times is taken `n` times, or fails. -/
theorem sendTimes_sent (packet : Bytes) (n : ℕ) : ∀ net : Net,
    (sendTimes packet n net).1 = true →
      (sendTimes packet n net).2.sent = net.sent ++ List.replicate n packet := by
  induction n with
  | zero => exact fun net _ => (List.append_nil _).symm
  | succ n ih =>
      intro net h
      have hsent := sendToBlocking_sent net packet
      rw [sendTimes] at h ⊢
      generalize sendToBlocking net packet = r at h hsent ⊢
      obtain ⟨ok, net'⟩ := r
      cases ok with
      | false => exact absurd h (by simp)
      | true =>
          rw [ih net' h, List.replicate_succ]
          rw [show net'.sent = net.sent ++ [packet] from hsent, List.append_assoc,
            List.singleton_append]

/-- A packet that is repeated is emitted again. -/
theorem sendTimes_emits {P : Bytes → Prop} {packet : Bytes} (h : P packet) (n : ℕ) (net : Net) :
    Emits P net (sendTimes packet n net).2 := by
  induction n generalizing net with
  | zero => exact .refl P net
  | succ n ih =>
      have hstep := sendToBlocking_emits net h
      rw [sendTimes]
      generalize sendToBlocking net packet = r at hstep ⊢
      obtain ⟨_ | _, net'⟩ := r
      · exact hstep
      · exact hstep.trans (ih net')

/-- The parity of a batch adds PARITY packets only. -/
theorem sendParityPackets_emits {P : Bytes → Prop}
    (hP : ∀ packet, isParityPacket packet = true → P packet) (libs : Libs) (net : Net)
    (relPathHash : Bytes) (dataPayloads : List Bytes) (parityCount batchIdx : ℕ) :
    Emits P net (sendParityPackets libs net relPathHash dataPayloads parityCount batchIdx).2 := by
  have hfold : ∀ (packets : List Bytes), (∀ packet ∈ packets, P packet) →
      ∀ net : Net, Emits P net
        (packets.foldl (fun net packet => (sendToBlocking net packet).2) net) := by
    intro packets
    induction packets with
    | nil => exact fun _ net => .refl _ net
    | cons packet packets ih =>
        intro h net
        exact (sendToBlocking_emits net (h packet List.mem_cons_self)).trans
          (ih (fun p hp => h p (List.mem_cons_of_mem _ hp)) _)
  rw [sendParityPackets]
  split
  · exact .refl _ net
  · split
    · exact .refl _ net
    · exact hfold _ (fun packet hp => hP packet (isParityPacket_of_mem_parityPackets hp)) net

/-- A PARITY packet is no DATA packet. -/
theorem isDataPacket_of_isParityPacket {packet : Bytes} (h : isParityPacket packet = true) :
    isDataPacket packet = false := by
  rw [isParityPacket, decide_eq_true_eq] at h
  rw [isDataPacket, h]
  decide

namespace SendLoop

/-- The DATA packets among the packets are those of the chunks, in order. -/
def Carry (libs : Libs) (relPathHash : Bytes) (packets chunks : List Bytes) : Prop :=
  packets.filter isDataPacket =
    chunks.mapIdx fun i chunk => dataPacket libs relPathHash chunk i

/-- The loop after some chunks: behind `base` their DATA packets have been sent, and they make up
what has been read of the contents `c`. -/
structure Carries (libs : Libs) (relPathHash : Bytes) (base : List Bytes) (c : Bytes)
    (chunks : List Bytes) (st : SendLoop) : Prop where
  sent : ∃ packets, st.net.sent = base ++ packets ∧ Carry libs relPathHash packets chunks
  count : st.count = chunks.length
  contents : chunks.flatten ++ st.reader.rest c = c

variable {libs : Libs} {relPathHash : Bytes} {base : List Bytes} {c : Bytes}
  {chunks : List Bytes} {st : SendLoop}

/-- Packets of other types leave the DATA packets as they are. -/
theorem exists_carry_of_emits {net net' : Net}
    (h : ∃ packets, net.sent = base ++ packets ∧ Carry libs relPathHash packets chunks)
    (hemits : Emits (fun packet => isDataPacket packet = false) net net') :
    ∃ packets, net'.sent = base ++ packets ∧ Carry libs relPathHash packets chunks := by
  obtain ⟨packets, hsent, hcarry⟩ := h
  obtain ⟨more, hmore, hother⟩ := hemits
  refine ⟨packets ++ more, by rw [hmore, hsent, List.append_assoc], ?_⟩
  have hnone : more.filter isDataPacket = [] :=
    List.filter_eq_nil_iff.mpr fun packet hpacket => by simp [hother packet hpacket]
  rw [Carry, List.filter_append, hnone, List.append_nil]
  exact hcarry

/-- What has been read stays what has been read. -/
theorem Carries.flushBatch (h : Carries libs relPathHash base c chunks st) :
    Carries libs relPathHash base c chunks (st.flushBatch libs relPathHash) :=
  ⟨exists_carry_of_emits h.sent (sendParityPackets_emits
    (fun _ => isDataPacket_of_isParityPacket) libs st.net relPathHash _ _ _), h.count, h.contents⟩

/-- **One chunk** is sent as the next DATA packet. -/
theorem Carries.sendChunk (h : Carries libs relPathHash base c chunks st) {r : Reader}
    {s : Source} {chunk : Bytes} (hrest : st.reader.rest c = chunk ++ r.rest c)
    (hsend : (({ st with reader := r, src := s } : SendLoop).sendChunk libs relPathHash
      chunk).1 = true) :
    Carries libs relPathHash base c (chunks ++ [chunk])
      (({ st with reader := r, src := s } : SendLoop).sendChunk libs relPathHash chunk).2 := by
  have hsent := sendToBlocking_sent st.net (dataPacket libs relPathHash chunk st.count)
  rw [SendLoop.sendChunk] at hsend ⊢
  dsimp only at hsend ⊢
  rw [sendDataPacket] at hsend ⊢
  generalize sendToBlocking st.net (dataPacket libs relPathHash chunk st.count) = result
    at hsent hsend ⊢
  obtain ⟨ok, net⟩ := result
  cases ok with
  | false => exact absurd hsend (by simp)
  | true =>
      obtain ⟨packets, hbase, hcarry⟩ := h.sent
      have hstep : Carries libs relPathHash base c (chunks ++ [chunk])
          { st with
            net := net, src := s, reader := r, count := st.count + 1
            batchPayloads := st.batchPayloads ++ [chunk] } := by
        refine ⟨⟨packets ++ [dataPacket libs relPathHash chunk st.count], ?_, ?_⟩, ?_, ?_⟩
        · rw [← List.append_assoc, ← hbase]
          exact hsent
        · have hdata : isDataPacket (dataPacket libs relPathHash chunk st.count) = true := by
            rw [dataPacket, isDataPacket_encodePacketInto (by decide)]
            decide
          rw [Carry, List.filter_append, List.filter_cons_of_pos hdata, List.filter_nil,
            List.mapIdx_concat, h.count]
          exact congrArg (· ++ _) hcarry
        · rw [List.length_append, List.length_singleton]
          exact congrArg (· + 1) h.count
        · rw [List.flatten_append, List.flatten_singleton, List.append_assoc, ← hrest]
          exact h.contents
      dsimp only
      split
      · exact hstep.flushBatch
      · exact hstep

/-- **The loop**, once it ends well, has sent all of the contents that the writers left in
place. -/
theorem loop_undisturbed (libs : Libs) (relPathHash : Bytes) (base : List Bytes) (c : Bytes)
    (st : SendLoop) :
    Source.Undisturbed c st.src (st.loop libs relPathHash).2.src
      (∀ chunks, st.src.Keeps c st.reader.inode → Carries libs relPathHash base c chunks st →
        (st.loop libs relPathHash).1 = true →
          (∃ i, (st.loop libs relPathHash).2.src.Keeps c i) ∧
          ∃ chunks', Carries libs relPathHash base c chunks' (st.loop libs relPathHash).2 ∧
            chunks'.flatten = c) := by
  fun_induction loop libs relPathHash st with
  | case1 st r s hread =>
      have hstep := readChunk_undisturbed c st.src st.reader chunkSize []
      rw [hread] at hstep
      exact hstep.mono fun _ _ _ _ h => absurd h (by simp)
  | case2 st r s hread =>
      have hstep := readChunk_undisturbed c st.src st.reader chunkSize []
      rw [hread] at hstep
      refine hstep.mono fun himp chunks hkeeps hcarries _ => ?_
      obtain ⟨hkeeps', -, hdata⟩ := himp hkeeps
      obtain ⟨htake, hdrop⟩ := hdata [] rfl
      have hnone : st.reader.rest c = [] :=
        (List.take_eq_nil_iff.mp htake.symm).resolve_left (by decide)
      rw [hnone, List.drop_nil] at hdrop
      have hcontents := hcarries.contents
      rw [hnone] at hcontents
      exact ⟨⟨_, hkeeps'⟩, chunks, ⟨hcarries.sent, hcarries.count, hdrop ▸ hcontents⟩,
        (List.append_nil _).symm.trans hcontents⟩
  | case3 st chunk r s hread hne st' hsend =>
      have hstep := readChunk_undisturbed c st.src st.reader chunkSize []
      rw [hread] at hstep
      have hsrc := (sendChunk_src libs relPathHash { st with reader := r, src := s } chunk).1
      rw [hsend] at hsrc
      refine Source.Undisturbed.mono (P := True) ?_ fun _ _ _ _ h => absurd h (by simp)
      obtain ⟨used, hused, -⟩ := hstep
      exact ⟨used, by rw [hused, hsrc], fun _ => trivial⟩
  | case4 st chunk r s hread hne st' hsend ih =>
      have hstep := readChunk_undisturbed c st.src st.reader chunkSize []
      rw [hread] at hstep
      obtain ⟨hsrc, hreader⟩ :=
        sendChunk_src libs relPathHash { st with reader := r, src := s } chunk
      rw [hsend] at hsrc hreader
      obtain rfl : st'.src = s := hsrc
      obtain rfl : st'.reader = r := hreader
      refine hstep.trans ih fun himp himp' chunks hkeeps hcarries hok => ?_
      obtain ⟨hkeeps', hinode, hdata⟩ := himp hkeeps
      obtain ⟨hchunk, hdrop⟩ := hdata chunk rfl
      rw [List.nil_append] at hchunk
      have hrest : st.reader.rest c = chunk ++ st'.reader.rest c := by
        rw [hchunk, hdrop, List.take_append_drop]
      have hnext := hcarries.sendChunk (s := st'.src) hrest (by rw [hsend])
      rw [hsend] at hnext
      exact himp' (chunks ++ [chunk]) (hinode ▸ hkeeps') hnext hok

end SendLoop

/-! ### One file of a round -/

/-- Whether the length of a file stands still between two looks at it. -/
def isFileStable (src : Source) : Bool × Source :=
  match src.metadataLen with
  | (none, src) => (false, src)
  | (some initial, src) =>
      match src.metadataLen with
      | (none, src) => (false, src)
      | (some len, src) => (len = initial, src)

/-- Send one file of a round of `send_files`, if it is stable: whether it was sent and removed, and
what the socket and the source have become. -/
def sendFile (libs : Libs) (net : Net) (src : Source) (relPath : Str) : Bool × Net × Source :=
  match isFileStable src with
  | (false, src) => (false, net, src)
  | (true, src) => sendFileChunks libs net src relPath

/-- `sendFileChunks` up to the END packets: the announced size, and the state of the loop. -/
def sendBody (libs : Libs) (net : Net) (src : Source) (relPath : Str) :
    Except (Net × Source) (ℕ × SendLoop) :=
  let relPathHash := libs.md5.hex (Utf8.encode relPath)
  match src.metadataLen with
  | (none, src) => .error (net, src)
  | (some filesize, src) =>
      match sendStartPacket libs net filesize relPath batchParityChunks with
      | (false, net) => .error (net, src)
      | (true, net) =>
          match src.openFile with
          | (none, src) => .error (net, src)
          | (some inode, src) =>
              match SendLoop.loop libs relPathHash ⟨net, src, .new inode, 0, 0, []⟩ with
              | (false, st) => .error (st.net, st.src)
              | (true, st) => .ok (filesize,
                  if st.batchPayloads = [] then st else st.flushBatch libs relPathHash)

/-- A file is sent by its body and its END packets. -/
theorem sendFileChunks_eq (libs : Libs) (net : Net) (src : Source) (relPath : Str) :
    sendFileChunks libs net src relPath =
      match sendBody libs net src relPath with
      | .error (net, src) => (false, net, src)
      | .ok (_, st) => sendEndPacket st.net st.src relPath st.count := by
  rw [sendFileChunks, sendBody]
  dsimp only
  generalize src.metadataLen = len
  obtain ⟨_ | filesize, src₁⟩ := len
  · rfl
  dsimp only
  generalize sendStartPacket libs net filesize relPath batchParityChunks = start
  obtain ⟨_ | _, net₁⟩ := start
  · rfl
  dsimp only
  generalize src₁.openFile = opened
  obtain ⟨_ | inode, src₂⟩ := opened
  · rfl
  dsimp only
  generalize SendLoop.loop libs _ _ = result
  obtain ⟨_ | _, st⟩ := result <;> rfl

/-- The source as the size stat of the START packet finds it. -/
def announcedSource (src : Source) : Source := (isFileStable src).2.metadataLen.2

/-- The source as the removal finds it, if the transfer gets there. -/
def removedSource (libs : Libs) (net : Net) (src : Source) (relPath : Str) : Option Source :=
  match sendBody libs net (isFileStable src).2 relPath with
  | .error _ => none
  | .ok (_, st) => some st.src.turn.2

/-- **From the announcement to the removal the writers are steady**: every action before a call in
that time leaves the contents that the announcement found. -/
def SteadySource (libs : Libs) (net : Net) (src : Source) (relPath : Str) : Prop :=
  ∀ used, (announcedSource src).schedule =
      used ++ (sendFile libs net src relPath).2.2.schedule →
    ∀ plan ∈ used, ∀ a ∈ plan.actions, some a.contents = (announcedSource src).present

/-- **What is removed is what was sent**: the contents under the path at the removal are the
payloads of the DATA packets of this transfer, and their length is the announced size. -/
def RemovesSent (libs : Libs) (net : Net) (src : Source) (relPath : Str) : Prop :=
  ∃ size packets chunks removed,
    (sendFile libs net src relPath).2.1.sent = net.sent ++ packets ∧
    packets.head? = some (startPacket libs size relPath batchParityChunks) ∧
    SendLoop.Carry libs (libs.md5.hex (Utf8.encode relPath)) packets chunks ∧
    removedSource libs net src relPath = some removed ∧
    removed.present = some chunks.flatten ∧ chunks.flatten.length = size

/-! ### What is removed -/

/-- Looking twice at a file leaves it a valid one. -/
theorem isFileStable_valid {src : Source} (h : src.Valid) : (isFileStable src).2.Valid := by
  have hfirst := Source.metadataLen_valid h
  rw [isFileStable]
  split
  · rename_i src₁ heq
    rwa [heq] at hfirst
  · rename_i initial src₁ heq
    rw [heq] at hfirst
    have hsecond := Source.metadataLen_valid hfirst
    split
    · rename_i src₂ heq₂
      rwa [heq₂] at hsecond
    · rename_i len src₂ heq₂
      rwa [heq₂] at hsecond

/-- **The body** of a transfer of a steady source sends the contents that were announced. -/
theorem sendBody_undisturbed {libs : Libs} {net : Net} {s : Source} {relPath : Str} {size : ℕ}
    {st : SendLoop} (hvalid : s.Valid) (h : sendBody libs net s relPath = .ok (size, st)) :
    ∃ c, s.metadataLen.2.present = some c ∧ c.length = size ∧
      Source.Undisturbed c s.metadataLen.2 st.src ((∃ i, st.src.Keeps c i) ∧
        ∃ chunks, SendLoop.Carries libs (libs.md5.hex (Utf8.encode relPath)) (net.sent ++
          List.replicate controlResend (startPacket libs size relPath batchParityChunks)) c chunks
          st ∧ chunks.flatten = c) := by
  have hvalid₁ := Source.metadataLen_valid hvalid
  rw [sendBody] at h
  split at h
  · exact absurd h (by simp)
  rename_i filesize s₁ hlen
  rw [hlen] at hvalid₁ ⊢
  split at h
  · exact absurd h (by simp)
  rename_i net₁ hstart
  split at h
  · exact absurd h (by simp)
  rename_i inode s₂ hopen
  split at h
  · exact absurd h (by simp)
  rename_i st₁ hloop
  obtain ⟨rfl, rfl⟩ := Prod.mk.inj (Except.ok.inj h)
  obtain ⟨c, hpresent, hsize⟩ := Source.metadataLen_eq_some hlen
  have hsent : net₁.sent = net.sent ++
      List.replicate controlResend (startPacket libs filesize relPath batchParityChunks) := by
    have htimes := sendTimes_sent (startPacket libs filesize relPath batchParityChunks)
      controlResend net
    rw [sendStartPacket, sendWithRetry, max_eq_left (by decide)] at hstart
    rw [hstart] at htimes
    exact htimes rfl
  obtain ⟨j, hj, -⟩ := Option.map_eq_some_iff.mp hpresent
  refine ⟨c, hpresent, hsize, ?_⟩
  have hopened := Source.openFile_undisturbed c s₁
  rw [hopen] at hopened
  have hrun := SendLoop.loop_undisturbed libs (libs.md5.hex (Utf8.encode relPath)) net₁.sent c
    ⟨net₁, s₂, .new inode, 0, 0, []⟩
  rw [hloop] at hrun
  have hstarted : SendLoop.Carries libs (libs.md5.hex (Utf8.encode relPath)) net₁.sent c []
      ⟨net₁, s₂, .new inode, 0, 0, []⟩ :=
    ⟨⟨[], (List.append_nil _).symm, rfl⟩, rfl, rfl⟩
  have hbody := hopened.trans hrun fun hopens himp =>
    himp [] ((hopens j (.of_current hvalid₁ hpresent hj)).2.1 inode rfl) hstarted rfl
  rw [hsent] at hbody
  split
  · exact hbody
  · refine Source.Undisturbed.mono hbody ?_
    rintro ⟨hkeeps, chunks, hcarries, hflatten⟩
    exact ⟨hkeeps, chunks, hcarries.flushBatch, hflatten⟩

/-- Once the END packets are sent and the file is removed, the source is as the removal found it,
without a file under the path. -/
theorem sendEndPacket_removed {net : Net} {src : Source} {relPath : Str} {count : ℕ}
    (h : (sendEndPacket net src relPath count).1 = true) :
    (sendEndPacket net src relPath count).2.2.schedule = src.turn.2.schedule ∧
      (sendEndPacket net src relPath count).2.1.sent =
        net.sent ++ List.replicate controlResend (endPacket relPath count) := by
  have htimes := sendTimes_sent (endPacket relPath count) controlResend net
  rw [sendEndPacket, sendWithRetry, max_eq_left (by decide)] at h ⊢
  split at h
  · exact absurd h (by simp)
  · rename_i net' heq
    rw [heq] at htimes
    refine ⟨?_, htimes rfl⟩
    change src.removeFile.2.schedule = _
    rw [Source.removeFile]
    split <;>
      · rename_i s' heq'
        rw [heq']

/-- Control packets are no DATA packets. -/
theorem filter_isDataPacket_replicate {t : ℕ} (n : ℕ)
    (ht : t < 10 ∧ Decimal.decimal t ≠ Decimal.decimal pkgTypeData) (count : ℕ)
    (ph dh payload : Bytes) :
    (List.replicate n (encodePacket t count ph dh payload)).filter isDataPacket = [] := by
  refine List.filter_eq_nil_iff.mpr fun packet hpacket => ?_
  obtain ⟨-, rfl⟩ := List.mem_replicate.mp hpacket
  rw [encodePacket, isDataPacket_encodePacketInto ht.1]
  simpa using ht.2

/-! ### Files of one byte -/

/-- The read loop goes on behind bytes that are read. -/
theorem readChunk_data {s s' : Source} {r r' : Reader} {want : ℕ} {acc bytes : Bytes}
    (hwant : want ≠ 0) (hread : bufRead s r want = (.data bytes, r', s')) (hne : bytes ≠ []) :
    readChunk s r want acc = readChunk s' r' (want - bytes.length) (acc ++ bytes) := by
  rw [readChunk, if_neg hwant]
  split
  · rename_i heq
    rw [hread] at heq
    exact absurd heq (by simp)
  · rename_i heq
    rw [hread] at heq
    exact absurd heq (by simp)
  · rename_i heq
    rw [hread, Prod.mk.injEq, Prod.mk.injEq, ReadResult.data.injEq] at heq
    obtain ⟨rfl, rfl, rfl⟩ := heq
    rw [if_neg hne]

/-- The read loop ends where there is nothing to read. -/
theorem readChunk_end {s s' : Source} {r r' : Reader} {want : ℕ} {acc : Bytes}
    (hwant : want ≠ 0) (hread : bufRead s r want = (.data [], r', s')) :
    readChunk s r want acc = (some acc, r', s') := by
  rw [readChunk, if_neg hwant]
  split
  · rename_i heq
    rw [hread] at heq
    exact absurd heq (by simp)
  · rename_i heq
    rw [hread] at heq
    exact absurd heq (by simp)
  · rename_i heq
    rw [hread, Prod.mk.injEq, Prod.mk.injEq, ReadResult.data.injEq] at heq
    obtain ⟨rfl, rfl, rfl⟩ := heq
    rw [if_pos rfl]

/-- A call around which nothing happens. -/
def quietPlan : Plan := ⟨[], .ok⟩

/-- Over a socket that takes everything, a flush adds packets. -/
theorem flushBatch_ideal (libs : Libs) (relPathHash : Bytes) {st : SendLoop} {sent : List Bytes}
    (h : st.net = ⟨[], sent⟩) :
    ∃ more, (st.flushBatch libs relPathHash).net = ⟨[], sent ++ more⟩ := by
  rw [SendLoop.flushBatch, h, sendParityPackets]
  split
  · exact ⟨[], by rw [List.append_nil]⟩
  · split
    · exact ⟨[], by rw [List.append_nil]⟩
    · rename_i recovery _
      have hparity : sendInOrder (parityPackets libs relPathHash recovery batchParityChunks
          st.batchIdx) ⟨[], sent⟩ = _ :=
        sendInOrder_of_parity (fun _ => isParityPacket_of_mem_parityPackets) _
      rw [sendInOrder_ideal] at hparity
      exact ⟨_, (Prod.mk.inj hparity).2.symm⟩

/-- A file of one byte: the byte is sent, and the file is found to end behind it. -/
theorem sendBody_oneByte (libs : Libs) (relPath : Str) (s s₅ : Source) {s₁ s₂ s₃ s₄ : Source}
    {i : ℕ} (hstat : s.metadataLen = (some 1, s₁)) (hopen : s₁.openFile = (some i, s₂))
    (hread : bufRead s₂ (.new i) chunkSize = (.data [1], ⟨i, 1, []⟩, s₃))
    (hend : bufRead s₃ ⟨i, 1, []⟩ (chunkSize - 1) = (.data [], ⟨i, 1, []⟩, s₄))
    (heof : bufRead s₄ ⟨i, 1, []⟩ chunkSize = (.data [], ⟨i, 1, []⟩, s₅)) : ∃ st more,
    sendBody libs .ideal s relPath = .ok (1, st) ∧ st.src = s₅ ∧
      st.net = ⟨[], List.replicate controlResend (startPacket libs 1 relPath batchParityChunks) ++
        more⟩ := by
  set front := List.replicate controlResend (startPacket libs 1 relPath batchParityChunks)
    with hfront
  set hash := libs.md5.hex (Utf8.encode relPath) with hhash
  have hstart : sendStartPacket libs .ideal 1 relPath batchParityChunks =
      (true, ⟨[], front⟩) := rfl
  have hfirst : readChunk s₂ (.new i) chunkSize [] = (some [1], ⟨i, 1, []⟩, s₄) :=
    (readChunk_data (by decide) hread (by simp)).trans (readChunk_end (by decide) hend)
  have hsecond : readChunk s₄ ⟨i, 1, []⟩ chunkSize [] = (some [], ⟨i, 1, []⟩, s₅) :=
    readChunk_end (by decide) heof
  let st₁ : SendLoop := ⟨⟨[], front ++ [dataPacket libs hash [1] 0]⟩, s₄, ⟨i, 1, []⟩, 1, 0, [[1]]⟩
  let st₂ : SendLoop := { st₁ with src := s₅ }
  have hsend : (⟨⟨[], front⟩, s₄, ⟨i, 1, []⟩, 0, 0, []⟩ : SendLoop).sendChunk libs hash [1] =
      (true, st₁) := rfl
  have hloop : SendLoop.loop libs hash ⟨⟨[], front⟩, s₂, .new i, 0, 0, []⟩ = (true, st₂) :=
    (SendLoop.loop_chunk hfirst (by simp) hsend).trans (SendLoop.loop_eof hsecond)
  have hnet : st₂.net = ⟨[], front ++ [dataPacket libs hash [1] 0]⟩ := rfl
  obtain ⟨more, hmore⟩ := flushBatch_ideal libs hash hnet
  refine ⟨st₂.flushBatch libs hash, [dataPacket libs hash [1] 0] ++ more, ?_, rfl, ?_⟩
  · rw [sendBody, hstat]
    dsimp only
    rw [hstart]
    dsimp only
    rw [hopen]
    dsimp only
    rw [← hhash, hloop]
    rfl
  · rw [hmore, List.append_assoc]

/-- A stable file is sent to its end. -/
theorem sendFile_of_sendBody {libs : Libs} {net : Net} {src s : Source} {relPath : Str}
    {size : ℕ} {st : SendLoop} {sent : List Bytes} (hstable : isFileStable src = (true, s))
    (hbody : sendBody libs net s relPath = .ok (size, st)) (hnet : st.net = ⟨[], sent⟩) :
    sendFile libs net src relPath = (st.src.removeFile.1,
      ⟨[], sent ++ List.replicate controlResend (endPacket relPath st.count)⟩,
      st.src.removeFile.2) := by
  rw [sendFile, hstable]
  dsimp only
  rw [sendFileChunks_eq, hbody]
  dsimp only
  rw [sendEndPacket, sendWithRetry_eq (isParityPacket_endPacket ..), hnet, sendInOrder_ideal]

/-! ### Steady sources -/

/-- **A steady source is removed only as it was sent**: for every schedule of writer actions and
call outcomes, every socket and every file. -/
theorem sendFile_removes_sent (libs : Libs) (net : Net) (relPath : Str) (contents : Bytes)
    (schedule : List Plan) (hsteady : SteadySource libs net ⟨[contents], some 0, schedule⟩ relPath)
    (hremoved : (sendFile libs net ⟨[contents], some 0, schedule⟩ relPath).1 = true) :
    RemovesSent libs net ⟨[contents], some 0, schedule⟩ relPath := by
  have hvalid : Source.Valid ⟨[contents], some 0, schedule⟩ := by
    intro j hj
    obtain rfl : 0 = j := Option.some.inj hj
    exact Nat.one_pos
  generalize (⟨[contents], some 0, schedule⟩ : Source) = src at hsteady hremoved hvalid ⊢
  have hvalid₁ := isFileStable_valid hvalid
  have hsend : sendFile libs net src relPath =
      sendFileChunks libs net (isFileStable src).2 relPath := by
    rw [sendFile] at hremoved ⊢
    split at hremoved
    · exact absurd hremoved (by simp)
    · rename_i src₁ heq
      rw [heq]
  rw [SteadySource, announcedSource, hsend] at hsteady
  rw [hsend] at hremoved
  rw [RemovesSent, hsend, removedSource]
  rw [sendFileChunks_eq] at hsteady hremoved ⊢
  cases hbody : sendBody libs net (isFileStable src).2 relPath with
  | error failed =>
      rw [hbody] at hremoved
      exact absurd hremoved (by simp)
  | ok result =>
      obtain ⟨size, st⟩ := result
      rw [hbody] at hsteady hremoved
      obtain ⟨c, hpresent, hsize, hrun⟩ := sendBody_undisturbed hvalid₁ hbody
      dsimp only at hsteady hremoved ⊢
      obtain ⟨hfinal, hsent⟩ := sendEndPacket_removed hremoved
      rw [hfinal] at hsteady
      rw [hsent]
      obtain ⟨used, hused, himp⟩ := hrun.trans (Source.turn_undisturbed c st.src)
        fun hkept hturn => And.intro (hkept.1.imp hturn) hkept.2
      obtain ⟨⟨i, hkeeps⟩, chunks, hcarries, rfl⟩ := himp fun plan hplan a ha =>
        Option.some.inj ((hsteady used hused plan hplan a ha).trans hpresent)
      obtain ⟨packets, hpackets, hcarry⟩ := hcarries.sent
      refine ⟨size, _, chunks, _, by rw [hpackets, List.append_assoc, List.append_assoc], ?_, ?_,
        rfl, hkeeps.present, hsize⟩
      · rfl
      · have hstart : (List.replicate controlResend (startPacket libs size relPath
            batchParityChunks)).filter isDataPacket = [] :=
          filter_isDataPacket_replicate _ (t := pkgTypeStart) (by decide) _ _ _ _
        have hend : (List.replicate controlResend (endPacket relPath st.count)).filter
            isDataPacket = [] :=
          filter_isDataPacket_replicate _ (t := pkgTypeEnd) (by decide) _ _ _ _
        rw [SendLoop.Carry, List.filter_append, List.filter_append, hstart, hend, List.nil_append,
          List.append_nil]
        exact hcarry

/-- A file of one byte, replaced by another of the same contents after it was announced. -/
def replacedBySame : Source :=
  ⟨[[1]], some 0, List.replicate 3 quietPlan ++ [⟨[.replace [1]], .ok⟩]⟩

/-- Replacing a file by another of the same contents leaves it steady. -/
theorem sendFile_removes_sent_replacedBySame :
    RemovesSent referenceLibs .ideal replacedBySame ['a'] := by
  have hannounced : announcedSource replacedBySame =
      ⟨[[1]], some 0, [⟨[.replace [1]], .ok⟩]⟩ := rfl
  obtain ⟨st, more, hbody, hsrc, hnet⟩ := sendBody_oneByte referenceLibs ['a']
    ⟨[[1]], some 0, [quietPlan, ⟨[.replace [1]], .ok⟩]⟩ ⟨[[1], [1]], some 1, []⟩ rfl rfl rfl rfl rfl
  refine sendFile_removes_sent _ _ _ _ _ ?_ ?_
  · intro used hused plan hplan a ha
    rw [← replacedBySame, hannounced] at hused ⊢
    have hmem : plan ∈ [(⟨[.replace [1]], .ok⟩ : Plan)] := by
      rw [show [(⟨[.replace [1]], .ok⟩ : Plan)] = used ++ _ from hused]
      exact List.mem_append_left _ hplan
    obtain rfl := List.mem_singleton.mp hmem
    obtain rfl := List.mem_singleton.mp ha
    rfl
  · have hstable : isFileStable replacedBySame =
        (true, ⟨[[1]], some 0, [quietPlan, ⟨[.replace [1]], .ok⟩]⟩) := rfl
    rw [← replacedBySame, sendFile_of_sendBody hstable hbody hnet, hsrc]
    rfl

/-! ### An upload that goes on -/

/-- A file of one byte, with another byte appended after `n` calls. -/
def appendedAfter (n : ℕ) : Source :=
  ⟨[[1]], some 0, List.replicate n quietPlan ++ [⟨[.rewrite [1, 2]], .ok⟩]⟩

/-- The START packets of the sizes 1 and 2 differ. -/
theorem startPacket_one_ne_two (libs : Libs) (relPath : Str) (parityCount : ℕ) :
    startPacket libs 1 relPath parityCount ≠ startPacket libs 2 relPath parityCount := by
  intro h
  simp only [startPacket, encodePacket, encodePacketInto, List.append_assoc] at h
  have hcount := (List.append_inj (List.append_cancel_left h) (by decide)).1
  exact absurd (Decimal.zeroPadded_injective _ hcount) (by decide)

/-- **An upload that goes on after the last read is removed unsent**: one byte is announced and
sent, and two are removed. -/
theorem sendFile_appended :
    (sendFile referenceLibs .ideal (appendedAfter 7) ['a']).1 = true ∧
      ¬RemovesSent referenceLibs .ideal (appendedAfter 7) ['a'] := by
  have hstable : isFileStable (appendedAfter 7) = (true, appendedAfter 5) := rfl
  obtain ⟨st, more, hbody, hsrc, hnet⟩ := sendBody_oneByte referenceLibs ['a']
    (appendedAfter 5) (appendedAfter 0) rfl rfl rfl rfl rfl
  rw [sendFile_of_sendBody hstable hbody hnet, hsrc]
  refine ⟨rfl, ?_⟩
  rintro ⟨size, packets, chunks, removed, hsent, hhead, -, hremoved, hpresent, hsize⟩
  rw [removedSource, hstable] at hremoved
  dsimp only at hremoved
  rw [hbody] at hremoved
  obtain rfl := Option.some.inj hremoved
  rw [hsrc] at hpresent
  obtain hflatten : [1, 2] = chunks.flatten := Option.some.inj hpresent
  rw [← hflatten] at hsize
  obtain rfl : 2 = size := hsize
  rw [sendFile_of_sendBody hstable hbody hnet] at hsent
  obtain rfl := (List.nil_append _).symm.trans hsent.symm
  exact startPacket_one_ne_two _ _ _ (Option.some.inj hhead)

end DataDiode
