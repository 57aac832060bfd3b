import DataDiode.Emission
import DataDiode.Removal
import DataDiode.SafePath
import DataDiode.WalkFiles

/-!
# A Round of the Sender

`sendFiles` walks the source directory and sends the files it finds under their paths below it.
There is no back channel: a file the receiver refuses by name is gone. Every name that Unix allows
passes the path check but one whose first character is a backslash, which the check takes for a
Windows root, and the path arrives as it was sent unless the announced size needs more than the
ten digits of its field and pushes the rest of the header into the path.

## Main results

* `sendFiles_starts`: the START packets of a round are those of the files the walk collects.
* `sendFiles_accepted_iff`: which of them the receiver reads with the path of the file and
  accepts by name.
* `sendFiles_refused`: the file `\a` is sent, and refused.
-/

namespace DataDiode

open UnixPath (Path parts)

/-! ### A round -/

/-- Send a collected file under its path below the source directory, unless that is not text. -/
def sendListed (libs : Libs) (sourceDir : Path) (st : Net × (Path → Source)) (full : Path) :
    Net × (Path → Source) :=
  match relPathOf sourceDir full with
  | none => st
  | some relPath =>
      let sent := sendFile libs st.1 (st.2 full) relPath
      (sent.2.1, Function.update st.2 full sent.2.2)

/-- A round of the sender: every file that the walk collects, in order. -/
def sendFiles (libs : Libs) (sourceDir : Path) (listing : Option (List Entry))
    (st : Net × (Path → Source)) : Net × (Path → Source) :=
  (walkFiles sourceDir listing).foldl (sendListed libs sourceDir) st

/-! ### START packets -/

/-- A packet of the START type. -/
def isStartPacket (packet : Bytes) : Bool := packet.take 1 = Decimal.decimal pkgTypeStart

/-- Announcements are told by their first byte. -/
theorem isStartPacket_encodePacketInto {t : ℕ} (ht : t < 10) (count : ℕ)
    (ph dh payload : Bytes) :
    isStartPacket (encodePacketInto t count ph dh payload) =
      decide (Decimal.decimal t = Decimal.decimal pkgTypeStart) := by
  rw [isStartPacket, take_one_encodePacketInto ht]

/-- A DATA packet is no announcement. -/
theorem isStartPacket_dataPacket (libs : Libs) (relPathHash chunk : Bytes) (count : ℕ) :
    isStartPacket (dataPacket libs relPathHash chunk count) = false :=
  isStartPacket_encodePacketInto (by decide) _ _ _ _

/-- An END is no announcement. -/
theorem isStartPacket_endPacket (relPath : Str) (count : ℕ) :
    isStartPacket (endPacket relPath count) = false :=
  isStartPacket_encodePacketInto (by decide) _ _ _ _

/-- A PARITY packet is no announcement. -/
theorem isStartPacket_of_isParityPacket {packet : Bytes} (h : isParityPacket packet = true) :
    isStartPacket packet = false := by
  rw [isParityPacket, decide_eq_true_eq] at h
  rw [isStartPacket, h]
  decide

namespace SendLoop

variable (libs : Libs) (relPathHash : Bytes)

/-- The end of a batch emits no announcement. -/
theorem flushBatch_emits (st : SendLoop) :
    Emits (fun packet => isStartPacket packet = false) st.net
      (st.flushBatch libs relPathHash).net :=
  sendParityPackets_emits (fun _ => isStartPacket_of_isParityPacket) ..

/-- Sending a chunk emits no announcement. -/
theorem sendChunk_emits (st : SendLoop) (chunk : Bytes) :
    Emits (fun packet => isStartPacket packet = false) st.net
      (st.sendChunk libs relPathHash chunk).2.net := by
  have hdata := sendToBlocking_emits (P := fun packet => isStartPacket packet = false) st.net
    (isStartPacket_dataPacket libs relPathHash chunk st.count)
  rw [sendChunk, sendDataPacket]
  generalize sendToBlocking st.net _ = result at hdata ⊢
  obtain ⟨_ | _, net⟩ := result
  · exact hdata
  · dsimp only
    split
    · exact hdata.trans (flushBatch_emits libs relPathHash _)
    · exact hdata

/-- **The loop** sends no START packets. -/
theorem loop_emits (st : SendLoop) :
    Emits (fun packet => isStartPacket packet = false) st.net
      (st.loop libs relPathHash).2.net := by
  fun_induction loop libs relPathHash st with
  | case1 st r s hread => exact .refl _ _
  | case2 st r s hread => exact .refl _ _
  | case3 st chunk r s hread hne st' hsend =>
      have hchunk := sendChunk_emits libs relPathHash { st with reader := r, src := s } chunk
      rwa [hsend] at hchunk
  | case4 st chunk r s hread hne st' hsend ih =>
      have hchunk := sendChunk_emits libs relPathHash { st with reader := r, src := s } chunk
      rw [hsend] at hchunk
      exact hchunk.trans ih

end SendLoop

/-- The network behind the END packets. -/
theorem sendEndPacket_net (net : Net) (src : Source) (relPath : Str) (count : ℕ) :
    (sendEndPacket net src relPath count).2.1 =
      (sendTimes (endPacket relPath count) controlResend net).2 := by
  rw [sendEndPacket, sendWithRetry, max_eq_left (by decide)]
  generalize sendTimes (endPacket relPath count) controlResend net = result
  obtain ⟨_ | _, net'⟩ := result <;> rfl

/-- Every START packet is that of the file, with the size of the metadata. -/
def StartsWith (libs : Libs) (relPath : Str) (announced : Option ℕ) (packet : Bytes) : Prop :=
  isStartPacket packet = true →
    ∃ size, announced = some size ∧ packet = startPacket libs size relPath batchParityChunks

/-- **One file** is announced by its own START packets only. -/
theorem sendFileChunks_starts (libs : Libs) (net : Net) (src : Source) (relPath : Str) :
    Emits (StartsWith libs relPath src.metadataLen.1) net
      (sendFileChunks libs net src relPath).2.1 := by
  have hother : ∀ {net net' : Net}, Emits (fun packet => isStartPacket packet = false) net net' →
      Emits (StartsWith libs relPath src.metadataLen.1) net net' :=
    fun h => h.mono fun packet hpacket hstart => absurd hstart (by simp [hpacket])
  rw [sendFileChunks]
  dsimp only
  generalize hlen : src.metadataLen = len
  obtain ⟨_ | filesize, src₁⟩ := len
  · exact .refl _ net
  have hstart : Emits (StartsWith libs relPath (some filesize)) net
      (sendStartPacket libs net filesize relPath batchParityChunks).2 :=
    sendTimes_emits (fun _ => ⟨filesize, rfl, rfl⟩) _ net
  rw [hlen] at hother
  dsimp only at hother ⊢
  generalize sendStartPacket libs net filesize relPath batchParityChunks = start at hstart ⊢
  obtain ⟨_ | _, net₁⟩ := start
  · exact hstart
  dsimp only
  generalize src₁.openFile = opened
  obtain ⟨_ | inode, src₂⟩ := opened
  · exact hstart
  dsimp only
  have hloop := hother (SendLoop.loop_emits libs (libs.md5.hex (Utf8.encode relPath))
    ⟨net₁, src₂, .new inode, 0, 0, []⟩)
  generalize SendLoop.loop libs _ _ = result at hloop ⊢
  obtain ⟨_ | _, st⟩ := result
  · exact hstart.trans hloop
  dsimp only at hloop ⊢
  have hflush : Emits (StartsWith libs relPath (some filesize)) st.net
      (if st.batchPayloads = [] then st
        else st.flushBatch libs (libs.md5.hex (Utf8.encode relPath))).net := by
    split
    · exact .refl _ _
    · exact hother (SendLoop.flushBatch_emits ..)
  generalize (if st.batchPayloads = [] then st
    else st.flushBatch libs (libs.md5.hex (Utf8.encode relPath))) = st₁ at hflush ⊢
  have hend := hother (sendTimes_emits (P := fun packet => isStartPacket packet = false)
    (isStartPacket_endPacket relPath st₁.count) controlResend st₁.net)
  rw [← sendEndPacket_net] at hend
  exact (hstart.trans hloop).trans (hflush.trans hend)

/-- The size a stable file is announced with. -/
def announcedSize (src : Source) : Option ℕ := (isFileStable src).2.metadataLen.1

/-- What is announced is the file under its path, with the size that it has. -/
theorem sendFile_starts (libs : Libs) (net : Net) (src : Source) (relPath : Str) :
    Emits (StartsWith libs relPath (announcedSize src)) net
      (sendFile libs net src relPath).2.1 := by
  rw [announcedSize, sendFile]
  generalize isFileStable src = stable
  obtain ⟨_ | _, src₁⟩ := stable
  · exact .refl _ net
  · exact sendFileChunks_starts libs net src₁ relPath

/-- A START packet of a round that started in the state `st`: the walk came to a file below the
source directory, whose names are `names` and whose path below it is the text `relPath`, and
found it to have `size` bytes. -/
structure SentFor (libs : Libs) (sourceDir : Path) (listing : Option (List Entry))
    (st : Net × (Path → Source)) (packet : Bytes) (names : List FileName) (relPath : Str)
    (size : ℕ) : Prop where
  names_ne_nil : names ≠ []
  walked : ∃ done rest,
    walkFiles sourceDir listing = done ++ fullPath sourceDir names :: rest ∧
      announcedSize ((done.foldl (sendListed libs sourceDir) st).2 (fullPath sourceDir names)) =
        some size
  relPath_eq : relPathOf sourceDir (fullPath sourceDir names) = some relPath
  packet_eq : packet = startPacket libs size relPath batchParityChunks

/-- **The START packets of a round** are those of the files the walk collects. -/
theorem sendFiles_starts (libs : Libs) (sourceDir : Path) (listing : Option (List Entry))
    (st : Net × (Path → Source)) :
    Emits (fun packet => isStartPacket packet = true →
        ∃ names relPath size, SentFor libs sourceDir listing st packet names relPath size)
      st.1 (sendFiles libs sourceDir listing st).1 := by
  have hrun : ∀ done rest, walkFiles sourceDir listing = done ++ rest →
      Emits (fun packet => isStartPacket packet = true →
          ∃ names relPath size, SentFor libs sourceDir listing st packet names relPath size)
        st.1 (done.foldl (sendListed libs sourceDir) st).1 := by
    intro done
    induction done using List.reverseRecOn with
    | nil => exact fun _ _ => .refl _ st.1
    | append_singleton done full ih =>
        intro rest hwalk
        have hwalk' : walkFiles sourceDir listing = done ++ full :: rest := by
          rw [hwalk, List.append_assoc, List.singleton_append]
        have hmem : full ∈ walkFiles sourceDir listing := by
          rw [hwalk']
          exact List.mem_append_right _ List.mem_cons_self
        obtain ⟨names, hne, rfl⟩ := exists_names_of_mem_walkFiles listing hmem
        rw [List.foldl_append, List.foldl_cons, List.foldl_nil]
        refine (ih _ hwalk').trans ?_
        rw [sendListed]
        split
        · exact .refl _ _
        · rename_i relPath hrel
          refine (sendFile_starts libs _ _ relPath).mono fun packet hpacket hstart => ?_
          obtain ⟨size, hsize, hpacket⟩ := hpacket hstart
          exact ⟨names, relPath, size, hne, ⟨done, rest, hwalk', hsize⟩, hrel, hpacket⟩
  exact hrun (walkFiles sourceDir listing) [] (List.append_nil _).symm

/-! ### What the receiver makes of them -/

/-- The receiver reads a datagram as the announcement of a path. -/
def ArrivesAs (raw : Bytes) (path : Str) : Prop :=
  ∃ packet, decodePacket raw = some packet ∧ packet.pkgType = pkgTypeStart ∧
    Utf8.fromUtf8Lossy packet.data = path

/-- The path checks of `newFile`. -/
def PassesPathChecks (path : Str) : Prop := isSafeRelPath path = true ∧ '\x00' ∉ path

/-- The first name of a path starts with a backslash. -/
def StartsWithBackslash (names : List FileName) : Prop :=
  (names.head?.bind fun n => n.bytes.head?) = some 92

/-- **The path check** accepts the text of names, unless it starts with a backslash. -/
theorem passesPathChecks_iff {names : List FileName} (hne : names ≠ []) {relPath : Str}
    (h : Utf8.encode relPath = joined names) :
    PassesPathChecks relPath ↔ ¬StartsWithBackslash names := by
  have hparts := map_encode_parts hne h
  obtain ⟨n, ns, rfl⟩ := List.exists_cons_of_ne_nil hne
  obtain ⟨first, rest, hp⟩ := List.exists_cons_of_ne_nil (UnixPath.parts_ne_nil relPath)
  rw [hp, List.map_cons, List.map_cons] at hparts
  obtain ⟨hfirst, hrest⟩ := List.cons.inj hparts
  have hfirstNe : first ≠ [] := by
    rintro rfl
    exact n.ne_nil hfirst.symm
  have hhead : relPath.head? = first.head? := UnixPath.head?_eq_of_parts hp hfirstNe
  have hback : relPath.head? = some '\\' ↔ StartsWithBackslash (n :: ns) := by
    rw [hhead, StartsWithBackslash, List.head?_cons, Option.bind_some, ← hfirst]
    exact (Utf8.head?_encode_eq_some_iff (b := 92) (by decide)).symm
  have hrelative : relPath.head? ≠ some '/' := by
    intro habs
    have hnil := UnixPath.head?_parts_of_isAbsolute (p := relPath) (by simpa [UnixPath.isAbsolute])
    rw [hp, List.head?_cons, Option.some.injEq] at hnil
    exact hfirstNe hnil
  have hdot : first ≠ ['.'] := by
    rintro rfl
    exact n.ne_curDir (hfirst.symm.trans (by decide))
  have hup : ['.', '.'] ∉ parts relPath := by
    intro hmem
    have hbytes := List.mem_map_of_mem (f := Utf8.encode) hmem
    rw [hp, List.map_cons, hfirst, hrest, ← List.map_cons] at hbytes
    obtain ⟨m, -, hm⟩ := List.mem_map.mp hbytes
    exact m.ne_parentDir (hm.trans (by decide))
  have hnil : relPath ≠ [] := by
    rintro rfl
    rw [UnixPath.parts_nil] at hp
    exact hfirstNe (List.cons.inj hp).1.symm
  rw [PassesPathChecks, isSafeRelPath_iff, ← hback]
  constructor
  · rintro ⟨⟨-, -, hback, -⟩, -⟩
    exact hback
  · intro hback
    have hdot' : (parts relPath).head? ≠ some ['.'] := by
      rw [hp, List.head?_cons]
      exact fun e => hdot (Option.some.inj e)
    exact ⟨⟨hnil, hrelative, hback, hdot', hup⟩, nul_not_mem_of_encode h⟩

/-- Bytes of the header are ASCII. -/
theorem toNat_lt_of_mem_hex {md5 : Md5} {data : Bytes} {b : UInt8} (h : b ∈ md5.hex data) :
    b.toNat < 128 := by
  obtain ⟨d, -, hb⟩ := List.mem_flatMap.mp h
  have hdigit : ∀ k < 16, (hexDigit k).toNat < 128 := by decide
  have hd := d.toNat_lt
  rcases List.mem_cons.mp hb with rfl | hb
  · exact hdigit _ (by omega)
  · rw [List.mem_singleton.mp hb]
    exact hdigit _ (by omega)

/-- Digits are ASCII. -/
theorem toNat_lt_of_mem_digits {bs : Bytes} (hbs : bs.all Decimal.isDigit = true) {b : UInt8}
    (h : b ∈ bs) : b.toNat < 128 := by
  have hdigit := List.all_eq_true.mp hbs b h
  simp only [Decimal.isDigit, Bool.and_eq_true, decide_eq_true_eq] at hdigit
  omega

/-- **A size of eleven digits** or more pushes the end of the header into the path. -/
theorem lt_countBound_of_arrivesAs {libs : Libs} {size parityCount : ℕ} {relPath : Str}
    (h : ArrivesAs (startPacket libs size relPath parityCount) relPath) : size < countBound := by
  obtain ⟨packet, hdecode, -, hpath⟩ := h
  obtain ⟨-, -, -, -, -, hdata⟩ := decodePacket_eq_some_iff.mp hdecode
  set header := Decimal.decimal pkgTypeStart ++ Decimal.zeroPadded 10 size ++
    libs.md5.hex (Utf8.encode relPath) ++ encodeParityField parityCount with hheader
  have hascii : ∀ b ∈ header.drop 75, b.toNat < 128 := by
    intro b hb
    have hmem := List.mem_of_mem_drop hb
    simp only [hheader, List.mem_append] at hmem
    rcases hmem with ((hmem | hmem) | hmem) | hmem
    · exact toNat_lt_of_mem_digits (Decimal.all_isDigit_decimal _) hmem
    · exact toNat_lt_of_mem_digits (Decimal.all_isDigit_zeroPadded _ _) hmem
    · exact toNat_lt_of_mem_hex hmem
    · exact toNat_lt_of_mem_digits (Decimal.all_isDigit_zeroPadded _ _) hmem
  obtain ⟨pushed, hpushed⟩ := Utf8.exists_encode_of_forall_lt hascii
  by_contra hsize
  have hlong : 75 < header.length := by
    have hsizeLen := Decimal.le_length_zeroPadded 10 size
    have hten := mt (Decimal.length_zeroPadded_eq_iff (w := 10) (by decide)).mp hsize
    have htype := (decimal_pkgType (t := pkgTypeStart) (by decide)).1
    have hparity := Decimal.le_length_zeroPadded 32 parityCount
    simp only [hheader, List.length_append, htype, Md5.length_hex, encodeParityField]
    omega
  have hread : packet.data = Utf8.encode (pushed ++ relPath) := by
    rw [hdata, Utf8.encode_append, hpushed]
    change (header ++ Utf8.encode relPath).drop 75 = _
    rw [List.drop_append_of_le_length hlong.le]
  rw [hread, Utf8.fromUtf8Lossy_encode] at hpath
  have hnone : pushed = [] := List.append_left_eq_self.mp hpath
  rw [hnone, Utf8.encode_nil] at hpushed
  have hdrop := congrArg List.length hpushed
  rw [List.length_nil, List.length_drop] at hdrop
  omega

/-- **What the receiver makes of a file**: it reads the START packet with the path of the file and
accepts it by name if and only if the size has ten digits at most and the first name below the
source directory does not start with a backslash. -/
theorem startPacket_accepted_iff (libs : Libs) {names : List FileName} (hne : names ≠ [])
    {relPath : Str} (h : Utf8.encode relPath = joined names) (size : ℕ) :
    (ArrivesAs (startPacket libs size relPath batchParityChunks) relPath ∧
      PassesPathChecks relPath) ↔ size < countBound ∧ ¬StartsWithBackslash names := by
  rw [passesPathChecks_iff hne h]
  constructor
  · rintro ⟨harrives, hback⟩
    exact ⟨lt_countBound_of_arrivesAs harrives, hback⟩
  · rintro ⟨hsize, hback⟩
    refine ⟨⟨_, decodePacket_encodePacket _ (by decide) hsize (Md5.length_hex ..) (by decide), rfl,
      Utf8.fromUtf8Lossy_encode relPath⟩, hback⟩

/-- **The files of a round and the receiver**: for every source directory, every tree below it,
every state of the files and every socket, each START packet of a round announces a file that the
walk collects, and the receiver reads it with the path of that file and accepts it by name if and
only if the announced size has ten digits at most and the first name below the source directory
does not start with a backslash. -/
theorem sendFiles_accepted_iff (libs : Libs) (sourceDir : Path) (listing : Option (List Entry))
    (st : Net × (Path → Source)) :
    ∃ packets, (sendFiles libs sourceDir listing st).1.sent = st.1.sent ++ packets ∧
      ∀ packet ∈ packets, isStartPacket packet = true → ∃ names relPath size,
        SentFor libs sourceDir listing st packet names relPath size ∧
        ((ArrivesAs packet relPath ∧ PassesPathChecks relPath) ↔
          size < countBound ∧ ¬StartsWithBackslash names) := by
  obtain ⟨packets, hsent, hstarts⟩ := sendFiles_starts libs sourceDir listing st
  refine ⟨packets, hsent, fun packet hmem hstart => ?_⟩
  obtain ⟨names, relPath, size, hfor⟩ := hstarts packet hmem hstart
  have htext := hfor.relPath_eq
  rw [relPathOf_fullPath _ hfor.names_ne_nil] at htext
  refine ⟨names, relPath, size, hfor, ?_⟩
  rw [hfor.packet_eq]
  exact startPacket_accepted_iff libs hfor.names_ne_nil (Utf8.encode_of_fromUtf8 htext) size

/-! ### A refused file -/

/-- The name of two bytes, a backslash and the letter a. -/
def backslashName : FileName :=
  ⟨[92, 97], by decide, by decide, by decide, by decide, by decide⟩

/-- A listing of one regular file. -/
def backslashListing : Option (List Entry) :=
  some [.mk backslashName (some false) false true none]

/-- **The file `\a`** of an otherwise empty source directory is announced, and the receiver refuses
it by name. -/
theorem sendFiles_refused : ¬ ∀ (libs : Libs) (sourceDir : Path) (listing : Option (List Entry))
    (st : Net × (Path → Source)),
    ∃ packets, (sendFiles libs sourceDir listing st).1.sent = st.1.sent ++ packets ∧
      ∀ packet ∈ packets, isStartPacket packet = true → ∃ names relPath size,
        SentFor libs sourceDir listing st packet names relPath size ∧
          ArrivesAs packet relPath ∧ PassesPathChecks relPath := by
  intro h
  let t : Transfer := ⟨['\\', 'a'], []⟩
  obtain ⟨packets, hsent, hall⟩ :=
    h referenceLibs ['s'] backslashListing (.ideal, fun _ => .ofContents [])
  have hrun : (sendFiles referenceLibs ['s'] backslashListing
      (.ideal, fun _ => .ofContents [])).1.sent = t.emitted referenceLibs := rfl
  rw [hrun, t.emitted_eq] at hsent
  have hmem : t.startPacket referenceLibs ∈ packets := by
    rw [show packets = _ from hsent.symm]
    exact List.mem_append_left _ (List.mem_append_left _ (by simp [controlResend]))
  obtain ⟨-, relPath, -, -, ⟨packet, hdecode, -, hpath⟩, hsafe, -⟩ := hall _ hmem
    (isStartPacket_encodePacketInto (by decide) _ _ _ _)
  have hread : decodePacket (t.startPacket referenceLibs) = some ⟨pkgTypeStart, 0,
      referenceLibs.md5.hex (Utf8.encode t.path), encodeParityField batchParityChunks,
      Utf8.encode t.path⟩ :=
    decodePacket_encodePacket _ (by decide) (by decide) (Md5.length_hex ..) (by decide)
  rw [Option.some.inj (hdecode.symm.trans hread), Utf8.fromUtf8Lossy_encode] at hpath
  rw [← hpath] at hsafe
  exact absurd hsafe (by decide)

end DataDiode
