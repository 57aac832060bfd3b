import DataDiode.Packet
import DataDiode.Sender
import DataDiode.Slices

/-!
# Fragmenting Datagrams

The sending side of the UDP forwarder: every datagram is cut into chunks, the chunks are sent
as UDP packets numbered from zero, and the whole is repeated `udpResend` times. The length
of the datagram travels in the path-hash field of each packet, its identifier — the digest of
the clock's reading — in the data-hash field.

## Main results

* `udpEmitted_eq`: over a socket that takes every packet, each datagram leaves as two equal
  copies of its fragments, in order.
* `map_decodePacket_udpFragments`: what the receiver decodes from a copy.
-/

namespace DataDiode

/-- How often a datagram is sent. -/
def udpResend : ℕ := 2

/-- A datagram to forward, with its identifier. -/
structure UdpDatagram where
  pkgId : Bytes
  data : Bytes
  deriving DecidableEq, Repr

/-- The identifier of a datagram: the digest of the nanoseconds on the clock. -/
def udpPkgId (libs : Libs) (nanos : ℕ) : Bytes := libs.md5.hex (Decimal.decimal nanos)

/-- The length of a datagram as text. -/
def udpDataLength (data : Bytes) : Bytes := Decimal.zeroPadded 32 data.length

/-- A packet with a fragment, which carries its number. -/
def udpPacket (dataLength pkgId chunk : Bytes) (count : ℕ) : Bytes :=
  encodePacketInto pkgTypeUdp count dataLength pkgId chunk

/-- Send chunks numbered on from `count`. A packet that cannot be sent is passed over. -/
def sendUdpChunks (net : Net) (dataLength pkgId : Bytes) : ℕ → List Bytes → Net
  | _, [] => net
  | count, chunk :: chunks =>
      sendUdpChunks (sendToBlocking net (udpPacket dataLength pkgId chunk count)).2 dataLength
        pkgId (count + 1) chunks

/-- Send a datagram `n` times. -/
def sendUdpTimes (d : UdpDatagram) : ℕ → Net → Net
  | 0, net => net
  | n + 1, net =>
      sendUdpTimes d n
        (sendUdpChunks net (udpDataLength d.data) d.pkgId 0 (Slices.chunks chunkSize d.data))

/-- The fragmenting thread on a sequence of datagrams. -/
def sendUdpDatagrams (net : Net) (ds : List UdpDatagram) : Net :=
  ds.foldl (fun net d => sendUdpTimes d udpResend net) net

/-- The packets the fragmenting thread sends over a socket that takes every packet. -/
def udpEmitted (ds : List UdpDatagram) : List Bytes := (sendUdpDatagrams .ideal ds).sent

/-! ### The packets of one copy -/

/-- The packets of chunks numbered on from `count`. -/
def udpChunkPackets (dataLength pkgId : Bytes) : ℕ → List Bytes → List Bytes
  | _, [] => []
  | count, chunk :: chunks =>
      udpPacket dataLength pkgId chunk count ::
        udpChunkPackets dataLength pkgId (count + 1) chunks

/-- The packets of one copy of a datagram. -/
def udpFragments (d : UdpDatagram) : List Bytes :=
  udpChunkPackets (udpDataLength d.data) d.pkgId 0 (Slices.chunks chunkSize d.data)

/-- What is sent of some fragments. -/
theorem sendUdpChunks_eq (dataLength pkgId : Bytes) (chunks : List Bytes) : ∀ (count : ℕ)
    (sent : List Bytes), sendUdpChunks ⟨[], sent⟩ dataLength pkgId count chunks =
      ⟨[], sent ++ udpChunkPackets dataLength pkgId count chunks⟩ := by
  induction chunks with
  | nil => simp [sendUdpChunks, udpChunkPackets]
  | cons chunk chunks ih =>
      intro count sent
      rw [sendUdpChunks, sendToBlocking_of_outcomes_nil rfl, ih, udpChunkPackets,
        List.append_assoc, List.singleton_append]

/-- What is sent of a datagram, as often as it is sent. -/
theorem sendUdpTimes_eq (d : UdpDatagram) (n : ℕ) : ∀ sent : List Bytes,
    sendUdpTimes d n ⟨[], sent⟩ =
      ⟨[], sent ++ (List.replicate n (udpFragments d)).flatten⟩ := by
  induction n with
  | zero => simp [sendUdpTimes]
  | succ n ih =>
      intro sent
      rw [sendUdpTimes, sendUdpChunks_eq, ih, List.replicate_succ, List.flatten_cons,
        List.append_assoc]
      rfl

/-- **Each datagram leaves as two equal copies of its fragments.** -/
theorem udpEmitted_eq (ds : List UdpDatagram) :
    udpEmitted ds = ds.flatMap fun d => udpFragments d ++ udpFragments d := by
  have hrun : ∀ sent, sendUdpDatagrams ⟨[], sent⟩ ds =
      ⟨[], sent ++ ds.flatMap fun d => udpFragments d ++ udpFragments d⟩ := by
    induction ds with
    | nil => simp [sendUdpDatagrams]
    | cons d ds ih =>
        intro sent
        have hcons : sendUdpDatagrams ⟨[], sent⟩ (d :: ds) =
            sendUdpDatagrams (sendUdpTimes d udpResend ⟨[], sent⟩) ds := rfl
        rw [hcons, sendUdpTimes_eq, ih, List.flatMap_cons, List.append_assoc]
        simp [udpResend, List.replicate_succ]
  rw [udpEmitted, Net.ideal, hrun, List.nil_append]

/-! ### What the receiver decodes -/

/-- The decoded packets of chunks numbered on from `count`. -/
def udpDecoded (dataLength pkgId : Bytes) : ℕ → List Bytes → List Packet
  | _, [] => []
  | count, chunk :: chunks =>
      ⟨pkgTypeUdp, count, dataLength, pkgId, chunk⟩ ::
        udpDecoded dataLength pkgId (count + 1) chunks

/-- The decoded packets of one copy of a datagram. -/
def UdpDatagram.packets (d : UdpDatagram) : List Packet :=
  udpDecoded (udpDataLength d.data) d.pkgId 0 (Slices.chunks chunkSize d.data)

/-- **The packets of a datagram are read back**: they carry its fragments in order. -/
theorem map_decodePacket_udpChunkPackets {dataLength pkgId : Bytes}
    (hlen : dataLength.length = 32) (hid : pkgId.length = 32) (chunks : List Bytes) :
    ∀ count, count + chunks.length ≤ countBound →
      (udpChunkPackets dataLength pkgId count chunks).map decodePacket =
        (udpDecoded dataLength pkgId count chunks).map some := by
  induction chunks with
  | nil => exact fun count _ => rfl
  | cons chunk chunks ih =>
      intro count hcount
      rw [List.length_cons] at hcount
      have hhead : decodePacket (udpPacket dataLength pkgId chunk count) =
          some ⟨pkgTypeUdp, count, dataLength, pkgId, chunk⟩ :=
        decodePacket_encodePacket chunk (by decide) (by omega) hlen hid
      rw [udpChunkPackets, udpDecoded, List.map_cons, List.map_cons, hhead,
        ih (count + 1) (by omega)]

/-- The length field is as wide as a hash field. -/
theorem length_udpDataLength {data : Bytes} (h : data.length < 10 ^ 32) :
    (udpDataLength data).length = 32 :=
  (Decimal.length_zeroPadded_eq_iff (by decide)).mpr h

/-- A datagram that fits a UDP socket, with an identifier as wide as a hash field. -/
structure UdpDatagram.Sendable (d : UdpDatagram) : Prop where
  length_pkgId : d.pkgId.length = 32
  ne_nil : d.data ≠ []
  length_le : d.data.length ≤ 65535

/-- **The receiver decodes every packet of a copy.** -/
theorem map_decodePacket_udpFragments {d : UdpDatagram} (h : d.Sendable) :
    (udpFragments d).map decodePacket = d.packets.map some := by
  have hle := h.length_le
  have hcount : (Slices.chunks chunkSize d.data).length ≤ countBound := by
    rw [Slices.length_chunks, Slices.chunkCount]
    refine le_trans (Nat.div_le_self _ _) ?_
    simp only [countBound, chunkSize]
    omega
  exact map_decodePacket_udpChunkPackets (length_udpDataLength (by omega)) h.length_pkgId _ 0
    (by omega)

end DataDiode
