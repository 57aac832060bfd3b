import DataDiode.Emission
import DataDiode.Layout

/-!
# The Packets of a File

The DATA and PARITY packets of a file, named by `ChunkId`, and what the receiver decodes from
each packet of the file. For files of less than `10 ^ 10` bytes every field fits, and
different packets stay different on the wire.

## Main results

* `batchPackets_eq_map`: the packets of a batch are those of its chunk identifiers.
* `decodePacket_chunkPacket`, `decodePacket_startPacket`, `decodePacket_endPacket`: what the
  receiver decodes.
* `chunkPacket_injective`: different chunks have different packets.
* `arrivedCount_map`: counting the packets of a batch that arrived.
-/

namespace DataDiode

/-- The name of a DATA or PARITY packet: the number of the chunk, or the batch and the number
of the shard in it. -/
inductive ChunkId
  | data (i : ℕ)
  | parity (b j : ℕ)
  deriving DecidableEq, Repr

/-- The batch of a packet. -/
def ChunkId.batch : ChunkId → ℕ
  | .data i => i / batchDataChunks
  | .parity b _ => b

/-- A file small enough for its size to fit the header, with a path that is accepted. -/
structure Transfer.Small (t : Transfer) : Prop where
  accepted : Accepted t.path
  length_lt : t.contents.length < countBound

namespace Transfer

variable (libs : Libs) (t : Transfer)

/-- The packets named by `ChunkId` that exist for the file. -/
def HasChunk : ChunkId → Prop
  | .data i => i < t.chunkCount
  | .parity b j => b < t.batchCount ∧ j < batchParityChunks

/-- A recovery shard of a batch. -/
def recoveryShard (b j : ℕ) : Bytes := (t.recovery libs b).getD j []

/-- The packet of a chunk. -/
def chunkPacket : ChunkId → Bytes
  | .data i => dataPacket libs (t.pathHash libs) (t.chunkAt i) i
  | .parity b j => encodePacketInto pkgTypeParity (b * batchParityChunks + j) (t.pathHash libs)
      (libs.md5.hex (t.recoveryShard libs b j)) (t.recoveryShard libs b j)

/-- The packet of a chunk, decoded. -/
def chunk : ChunkId → Packet
  | .data i => ⟨pkgTypeData, i, t.pathHash libs, libs.md5.hex (t.chunkAt i), t.chunkAt i⟩
  | .parity b j => ⟨pkgTypeParity, b * batchParityChunks + j, t.pathHash libs,
      libs.md5.hex (t.recoveryShard libs b j), t.recoveryShard libs b j⟩

/-- The START packet, decoded. -/
def start : Packet := ⟨pkgTypeStart, t.contents.length, t.pathHash libs,
  encodeParityField batchParityChunks, Utf8.encode t.path⟩

/-- The END packet, decoded. -/
def finish : Packet := ⟨pkgTypeEnd, t.chunkCount, emptyHash, emptyHash, Utf8.encode t.path⟩

/-- The chunks of a batch. -/
def batchIds (b : ℕ) : List ChunkId :=
  (List.range (t.batchSize b)).map (fun i => .data (b * batchDataChunks + i)) ++
    (List.range batchParityChunks).map (.parity b)

/-! ### The packets of a batch -/

/-- A batch has a hundred recovery shards. -/
theorem length_recovery {b : ℕ} (hb : b < t.batchCount) :
    (t.recovery libs b).length = batchParityChunks :=
  libs.rs.length_encode (by rw [length_shards]; exact t.supports_batch libs hb)

/-- **The packets of a batch** are those of its chunks. -/
theorem batchPackets_eq_map {b : ℕ} (hb : b < t.batchCount) :
    t.batchPackets libs b = (t.batchIds b).map (t.chunkPacket libs) := by
  have hparity : parityPackets libs (t.pathHash libs) (t.recovery libs b) batchParityChunks b =
      (List.range batchParityChunks).map fun j => t.chunkPacket libs (.parity b j) := by
    refine List.ext_getElem ?_ fun j h h' => ?_
    · rw [parityPackets, List.length_map, List.length_zipIdx, length_recovery libs t hb,
        List.length_map, List.length_range]
    · rw [List.length_map, List.length_range] at h'
      have hlen : j < (t.recovery libs b).length := by rwa [length_recovery libs t hb]
      simp only [parityPackets, List.getElem_map, List.getElem_zipIdx, List.getElem_range,
        Nat.zero_add, chunkPacket, recoveryShard, List.getD_eq_getElem?_getD,
        List.getElem?_eq_getElem hlen, Option.getD_some]
  rw [batchPackets, hparity, batchIds, List.map_append, List.map_map, List.map_map]
  rfl

/-- The names of the chunks of a batch. -/
theorem mem_batchIds {b : ℕ} {c : ChunkId} (hb : b < t.batchCount) :
    c ∈ t.batchIds b ↔ t.HasChunk c ∧ c.batch = b := by
  rw [batchIds, List.mem_append, List.mem_map, List.mem_map]
  cases c with
  | data i =>
      simp only [List.mem_range, ChunkId.data.injEq, reduceCtorEq, and_false, exists_false,
        or_false, HasChunk, ChunkId.batch]
      constructor
      · rintro ⟨r, hr, rfl⟩
        rw [batchSize_eq] at hr
        rw [batchDataChunks] at hr ⊢
        omega
      · rintro ⟨hi, rfl⟩
        exact ⟨i % batchDataChunks, t.mod_lt_batchSize_iff.mpr hi, Nat.div_add_mod' i _⟩
  | parity b' j =>
      simp only [List.mem_range, reduceCtorEq, and_false, exists_false, false_or,
        ChunkId.parity.injEq, HasChunk, ChunkId.batch]
      constructor
      · rintro ⟨r, hr, rfl, rfl⟩
        exact ⟨⟨hb, hr⟩, rfl⟩
      · rintro ⟨⟨-, hj⟩, rfl⟩
        exact ⟨j, hj, rfl, rfl⟩

/-- The number of packets of a batch: its data chunks and a hundred for parity. -/
theorem length_batchIds (b : ℕ) :
    (t.batchIds b).length = t.batchSize b + batchParityChunks := by
  rw [batchIds, List.length_append, List.length_map, List.length_map, List.length_range,
    List.length_range]

/-- The packets of a batch have different names. -/
theorem nodup_batchIds (b : ℕ) : (t.batchIds b).Nodup := by
  refine List.nodup_append.mpr ⟨?_, ?_, ?_⟩
  · refine List.Nodup.map (fun i j h => ?_) List.nodup_range
    rw [ChunkId.data.injEq] at h
    omega
  · refine List.Nodup.map (fun i j h => ?_) List.nodup_range
    exact (ChunkId.parity.inj h).2
  · intro c hc c' hc'
    obtain ⟨i, -, rfl⟩ := List.mem_map.mp hc
    obtain ⟨j, -, rfl⟩ := List.mem_map.mp hc'
    exact ChunkId.noConfusion

/-- The batch of a chunk of the file is a batch of the file. -/
theorem HasChunk.batch_lt {t : Transfer} {c : ChunkId} (h : t.HasChunk c) :
    c.batch < t.batchCount := by
  cases c with
  | data i =>
      have := t.mod_lt_batchSize_iff.mpr h
      rw [ChunkId.batch, ← t.batchSize_pos_iff]
      omega
  | parity b j => exact h.1

/-! ### What the receiver decodes -/

/-- The number of chunks can be announced. -/
theorem chunkCount_lt {t : Transfer} (h : t.contents.length < countBound) :
    t.chunkCount < countBound := by
  refine lt_of_le_of_lt ?_ h
  rw [chunkCount, totalChunks, chunkSize]
  omega

variable {t}

/-- The number of every packet fits its field. -/
theorem HasChunk.count_lt {c : ChunkId} (h : t.HasChunk c) (ht : t.contents.length < countBound) :
    (t.chunk libs c).count < countBound := by
  have hlt : t.contents.length < 10 ^ 10 := ht
  cases c with
  | data i => exact lt_trans h (chunkCount_lt ht)
  | parity b j =>
      obtain ⟨hb, hj⟩ := h
      rw [batchCount, chunkCount, totalChunks, batchDataChunks, chunkSize] at hb
      rw [batchParityChunks] at hj
      simp only [chunk, countBound, batchParityChunks]
      omega

/-- **A chunk packet**, decoded. -/
theorem decodePacket_chunkPacket {c : ChunkId} (h : t.HasChunk c)
    (ht : t.contents.length < countBound) :
    decodePacket (t.chunkPacket libs c) = some (t.chunk libs c) := by
  have hcount := h.count_lt libs ht
  cases c with
  | data i =>
      exact decodePacket_encodePacket _ (by decide) hcount (libs.md5.length_hex _)
        (libs.md5.length_hex _)
  | parity b j =>
      exact decodePacket_encodePacket _ (by decide) hcount (libs.md5.length_hex _)
        (libs.md5.length_hex _)

/-- **The START packet**, decoded. -/
theorem decodePacket_startPacket (ht : t.contents.length < countBound) :
    decodePacket (t.startPacket libs) = some (t.start libs) :=
  decodePacket_encodePacket _ (by decide) ht (libs.md5.length_hex _)
    ((Decimal.length_zeroPadded_eq_iff (by decide)).mpr (by decide))

/-- **The END packet**, decoded. -/
theorem decodePacket_endPacket (ht : t.contents.length < countBound) :
    decodePacket t.endPacket = some t.finish :=
  decodePacket_encodePacket _ (by decide) (chunkCount_lt ht) (by decide) (by decide)

/-- The packet of a chunk is a DATA or a PARITY packet, and of no other type. -/
theorem pkgType_chunk_ne (c : ChunkId) {pkgType : ℕ} (hdata : pkgTypeData ≠ pkgType)
    (hparity : pkgTypeParity ≠ pkgType) : (t.chunk libs c).pkgType ≠ pkgType := by
  cases c with
  | data i => exact hdata
  | parity b j => exact hparity

/-- **Different chunks have different packets.** -/
theorem chunkPacket_injective {c c' : ChunkId} (h : t.HasChunk c) (h' : t.HasChunk c')
    (ht : t.contents.length < countBound) (heq : t.chunkPacket libs c = t.chunkPacket libs c') :
    c = c' := by
  have hdecode := (decodePacket_chunkPacket libs h ht).symm.trans
    (heq ▸ decodePacket_chunkPacket libs h' ht)
  rw [Option.some.injEq] at hdecode
  cases c with
  | data i =>
      cases c' with
      | data i' => rw [show i = i' from congrArg Packet.count hdecode]
      | parity b j =>
          have htype : pkgTypeData = pkgTypeParity := congrArg Packet.pkgType hdecode
          exact absurd htype (by decide)
  | parity b j =>
      cases c' with
      | data i =>
          have htype : pkgTypeParity = pkgTypeData := congrArg Packet.pkgType hdecode
          exact absurd htype (by decide)
      | parity b' j' =>
          have hcount : b * batchParityChunks + j = b' * batchParityChunks + j' :=
            congrArg Packet.count hdecode
          have hj := h.2
          have hj' := h'.2
          rw [batchParityChunks] at hcount hj hj'
          rw [show b = b' by omega, show j = j' by omega]

/-! ### Counting arrivals -/

variable (t)

/-- The number of packets of a batch that arrived. -/
def arrivedCount (b : ℕ) (raws : List Bytes) : ℕ :=
  ((t.batchPackets libs b).filter fun raw => raw ∈ raws).length

/-- A batch of which enough packets arrived to restore it. -/
def Restorable (b : ℕ) (raws : List Bytes) : Prop := t.batchSize b ≤ t.arrivedCount libs b raws

variable {t}

/-- The arrived packets of a batch, counted by their names. -/
theorem arrivedCount_map (ht : t.contents.length < countBound) {b : ℕ} (hb : b < t.batchCount)
    {ids : List ChunkId} (hids : ∀ c ∈ ids, t.HasChunk c) :
    t.arrivedCount libs b (ids.map (t.chunkPacket libs)) =
      (ids.filter fun c => c.batch = b).toFinset.card := by
  have hmem : ∀ c ∈ t.batchIds b,
      (t.chunkPacket libs c ∈ ids.map (t.chunkPacket libs) ↔ c ∈ ids) := by
    intro c hc
    refine ⟨fun h => ?_, List.mem_map_of_mem⟩
    obtain ⟨c', hc', heq⟩ := List.mem_map.mp h
    rwa [← chunkPacket_injective libs (hids c' hc') ((t.mem_batchIds hb).mp hc).1 ht heq]
  have hfilter : ((t.batchIds b).map (t.chunkPacket libs)).filter
      (fun raw => raw ∈ ids.map (t.chunkPacket libs)) =
        ((t.batchIds b).filter fun c => c ∈ ids).map (t.chunkPacket libs) := by
    rw [List.filter_map]
    congr 1
    exact List.filter_congr fun c hc => by simpa using hmem c hc
  rw [arrivedCount, batchPackets_eq_map libs t hb, hfilter, List.length_map,
    ← List.toFinset_card_of_nodup ((t.nodup_batchIds b).filter _)]
  congr 1
  ext c
  simp only [List.mem_toFinset, List.mem_filter, decide_eq_true_eq, t.mem_batchIds hb]
  exact ⟨fun h => ⟨h.2, h.1.2⟩, fun h => ⟨⟨hids c h.1, h.2⟩, h.1⟩⟩

end Transfer

end DataDiode
