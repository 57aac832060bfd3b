import DataDiode.Packet
import DataDiode.Sender

/-!
# Sending in Order

What the sender does with its packets, apart from how it comes by them: it tries them in a fixed
order, passes over a PARITY packet that cannot be sent, and ends at the first failure of any other
packet (`sendInOrder`). The loops of the sender that send START, PARITY and END packets are such
sendings, and sendings one behind the other are one sending of both lists.

## Main results

* `sendInOrder_append`: two sendings in a row.
* `sendWithRetry_eq`, `sendParityPackets_eq_sendInOrder`: the loops over packets.
* `sendInOrder_of_true`, `sendInOrder_of_false`: what was tried, and what the socket took of it.
-/

namespace DataDiode

/-! ### Packet types -/

/-- A packet of the DATA type. -/
def isDataPacket (packet : Bytes) : Bool := packet.take 1 = Decimal.decimal pkgTypeData

/-- A packet of the PARITY type. -/
def isParityPacket (packet : Bytes) : Bool := packet.take 1 = Decimal.decimal pkgTypeParity

/-- The type of a packet is its first byte. -/
theorem take_one_encodePacketInto {t : ℕ} (ht : t < 10) (count : ℕ) (ph dh payload : Bytes) :
    (encodePacketInto t count ph dh payload).take 1 = Decimal.decimal t := by
  simp only [encodePacketInto, List.append_assoc]
  rw [← (decimal_pkgType ht).1, List.take_left]

/-- DATA packets are told by their first byte. -/
theorem isDataPacket_encodePacketInto {t : ℕ} (ht : t < 10) (count : ℕ) (ph dh payload : Bytes) :
    isDataPacket (encodePacketInto t count ph dh payload) =
      decide (Decimal.decimal t = Decimal.decimal pkgTypeData) := by
  rw [isDataPacket, take_one_encodePacketInto ht]

/-- PARITY packets are told by their first byte. -/
theorem isParityPacket_encodePacketInto {t : ℕ} (ht : t < 10) (count : ℕ)
    (ph dh payload : Bytes) :
    isParityPacket (encodePacketInto t count ph dh payload) =
      decide (Decimal.decimal t = Decimal.decimal pkgTypeParity) := by
  rw [isParityPacket, take_one_encodePacketInto ht]

/-- An announcement is no PARITY packet. -/
@[simp] theorem isParityPacket_startPacket (libs : Libs) (filesize : ℕ) (relPath : Str)
    (parityCount : ℕ) :
    isParityPacket (startPacket libs filesize relPath parityCount) = false :=
  isParityPacket_encodePacketInto (by decide) _ _ _ _

/-- A DATA packet is no PARITY packet. -/
@[simp] theorem isParityPacket_dataPacket (libs : Libs) (relPathHash chunk : Bytes) (count : ℕ) :
    isParityPacket (dataPacket libs relPathHash chunk count) = false :=
  isParityPacket_encodePacketInto (by decide) _ _ _ _

/-- An END is no PARITY packet. -/
@[simp] theorem isParityPacket_endPacket (relPath : Str) (count : ℕ) :
    isParityPacket (endPacket relPath count) = false :=
  isParityPacket_encodePacketInto (by decide) _ _ _ _

/-- The packets that are sent for the recovery shards are. -/
theorem isParityPacket_of_mem_parityPackets {libs : Libs} {relPathHash : Bytes}
    {recovery : List Bytes} {parityCount batchIdx : ℕ} {packet : Bytes}
    (h : packet ∈ parityPackets libs relPathHash recovery parityCount batchIdx) :
    isParityPacket packet = true := by
  obtain ⟨parity, -, rfl⟩ := List.mem_map.mp h
  exact isParityPacket_encodePacketInto (by decide) _ _ _ _

/-! ### The order of packets -/

/-- Send packets in order. A PARITY packet that cannot be sent is passed over, and the failure of
any other packet ends it. -/
def sendInOrder : List Bytes → Net → Bool × Net
  | [], net => (true, net)
  | packet :: packets, net =>
      match sendToBlocking net packet with
      | (true, net) => sendInOrder packets net
      | (false, net) => if isParityPacket packet then sendInOrder packets net else (false, net)

/-- **Two sendings in a row** are one sending of both lists. -/
theorem sendInOrder_append (packets packets' : List Bytes) (net : Net) :
    sendInOrder (packets ++ packets') net =
      match sendInOrder packets net with
      | (true, net) => sendInOrder packets' net
      | (false, net) => (false, net) := by
  induction packets generalizing net with
  | nil => rfl
  | cons packet packets ih =>
      rw [List.cons_append, sendInOrder, sendInOrder]
      generalize sendToBlocking net packet = result
      obtain ⟨_ | _, net'⟩ := result
      · dsimp only
        split
        · exact ih net'
        · rfl
      · exact ih net'

/-- If the first packets go through, the others follow. -/
theorem sendInOrder_append_of_true {packets packets' : List Bytes} {net net' : Net}
    (h : sendInOrder packets net = (true, net')) :
    sendInOrder (packets ++ packets') net = sendInOrder packets' net' := by
  rw [sendInOrder_append, h]

/-- If one of the first packets does not go through, nothing follows. -/
theorem sendInOrder_append_of_false {packets packets' : List Bytes} {net net' : Net}
    (h : sendInOrder packets net = (false, net')) :
    sendInOrder (packets ++ packets') net = (false, net') := by
  rw [sendInOrder_append, h]

/-- One packet that is not passed over. -/
theorem sendInOrder_singleton {packet : Bytes} (h : isParityPacket packet = false) (net : Net) :
    sendInOrder [packet] net = sendToBlocking net packet := by
  rw [sendInOrder]
  generalize sendToBlocking net packet = result
  obtain ⟨_ | _, net'⟩ := result
  · exact if_neg (by rw [h]; decide)
  · rfl

/-- A packet sent `n` times, up to the first failure. -/
theorem sendTimes_eq_sendInOrder {packet : Bytes} (h : isParityPacket packet = false) (n : ℕ)
    (net : Net) : sendTimes packet n net = sendInOrder (List.replicate n packet) net := by
  induction n generalizing net with
  | zero => rfl
  | succ n ih =>
      rw [sendTimes, List.replicate_succ, sendInOrder]
      generalize sendToBlocking net packet = result
      obtain ⟨_ | _, net'⟩ := result
      · exact (if_neg (by rw [h]; decide)).symm
      · exact ih net'

/-- Control packets, sent again and again. -/
theorem sendWithRetry_eq {packet : Bytes} (h : isParityPacket packet = false) (net : Net) :
    sendWithRetry net packet controlResend =
      sendInOrder (List.replicate controlResend packet) net :=
  sendTimes_eq_sendInOrder h _ net

/-- PARITY packets, none of which ends the sending. -/
theorem sendInOrder_of_parity {packets : List Bytes}
    (h : ∀ packet ∈ packets, isParityPacket packet = true) (net : Net) :
    sendInOrder packets net =
      (true, packets.foldl (fun net packet => (sendToBlocking net packet).2) net) := by
  induction packets generalizing net with
  | nil => rfl
  | cons packet packets ih =>
      have hrest := fun net => ih (fun p hp => h p (List.mem_cons_of_mem _ hp)) net
      rw [sendInOrder, List.foldl_cons, ← hrest]
      generalize sendToBlocking net packet = result
      obtain ⟨_ | _, net'⟩ := result
      · exact if_pos (h packet List.mem_cons_self)
      · rfl

/-- **The parity of a batch** is sent in order, to the last packet. -/
theorem sendParityPackets_eq_sendInOrder {libs : Libs} {dataPayloads recovery : List Bytes}
    {parityCount : ℕ} (hne : dataPayloads ≠ []) (hcount : parityCount ≠ 0)
    (hencode : libs.rs.runEncoder (dataPayloads.map fillShard) parityCount = .ok recovery)
    (net : Net) (relPathHash : Bytes) (batchIdx : ℕ) :
    sendInOrder (parityPackets libs relPathHash recovery parityCount batchIdx) net =
      (true, (sendParityPackets libs net relPathHash dataPayloads parityCount batchIdx).2) := by
  rw [sendInOrder_of_parity (fun packet => isParityPacket_of_mem_parityPackets) net,
    sendParityPackets, if_neg (not_or.mpr ⟨hne, hcount⟩), hencode]

/-- A socket that takes everything takes all packets. -/
theorem sendInOrder_ideal (packets sent : List Bytes) :
    sendInOrder packets ⟨[], sent⟩ = (true, ⟨[], sent ++ packets⟩) := by
  induction packets generalizing sent with
  | nil => rw [sendInOrder, List.append_nil]
  | cons packet packets ih =>
      rw [sendInOrder, sendToBlocking_of_outcomes_nil rfl]
      exact (ih _).trans (by rw [List.append_assoc, List.singleton_append])

/-! ### Attempts -/

/-- Packets tried one behind the other, each with whether the socket took it. -/
def attempts : List SendOutcome → List Bytes → List (Bytes × Bool)
  | _, [] => []
  | outcomes, packet :: packets =>
      (packet, (settle outcomes).1) :: attempts (settle outcomes).2 packets

/-- The packets that the socket took. -/
def taken (tried : List (Bytes × Bool)) : List Bytes := (tried.filter Prod.snd).map Prod.fst

/-- Only PARITY packets failed. -/
def OnlyParityFailed (tried : List (Bytes × Bool)) : Prop :=
  ∀ attempt ∈ tried, attempt.2 = false → isParityPacket attempt.1 = true

/-- What is tried are the packets. -/
@[simp] theorem map_fst_attempts (outcomes : List SendOutcome) (packets : List Bytes) :
    (attempts outcomes packets).map Prod.fst = packets := by
  induction packets generalizing outcomes with
  | nil => rfl
  | cons packet packets ih => rw [attempts, List.map_cons, ih]

/-- What the socket takes of one more packet. -/
theorem taken_cons (packet : Bytes) (ok : Bool) (tried : List (Bytes × Bool)) :
    taken ((packet, ok) :: tried) = if ok then packet :: taken tried else taken tried := by
  cases ok <;> rfl

/-- What it takes of two parts. -/
theorem taken_append (tried tried' : List (Bytes × Bool)) :
    taken (tried ++ tried') = taken tried ++ taken tried' := by
  rw [taken, List.filter_append, List.map_append]
  rfl

/-- Where only PARITY packets fail, the first one does not or is one. -/
theorem onlyParityFailed_cons {packet : Bytes} {ok : Bool} {tried : List (Bytes × Bool)} :
    OnlyParityFailed ((packet, ok) :: tried) ↔
      (ok = false → isParityPacket packet = true) ∧ OnlyParityFailed tried :=
  List.forall_mem_cons

/-- **A sending that ends well** has tried everything, and only PARITY packets failed. -/
theorem sendInOrder_of_true {packets : List Bytes} {net net' : Net}
    (h : sendInOrder packets net = (true, net')) :
    net'.sent = net.sent ++ taken (attempts net.outcomes packets) ∧
      OnlyParityFailed (attempts net.outcomes packets) := by
  induction packets generalizing net with
  | nil =>
      obtain rfl := (Prod.mk.inj h).2
      exact ⟨(List.append_nil _).symm, by simp [OnlyParityFailed, attempts]⟩
  | cons packet packets ih =>
      rw [sendInOrder, sendToBlocking] at h
      rw [attempts, taken_cons, onlyParityFailed_cons]
      generalize settle net.outcomes = result at h ⊢
      obtain ⟨_ | _, outcomes⟩ := result
      · dsimp only at h ⊢
        split at h
        · rename_i hparity
          obtain ⟨hsent, hfailed⟩ := ih h
          exact ⟨hsent, fun _ => hparity, hfailed⟩
        · exact absurd (Prod.mk.inj h).1 (by simp)
      · obtain ⟨hsent, hfailed⟩ := ih h
        refine ⟨hsent.trans ?_, fun h => absurd h (by simp), hfailed⟩
        rw [List.append_assoc, List.singleton_append]
        rfl

/-- **A sending that fails** has tried everything up to a packet that is not passed over. -/
theorem sendInOrder_of_false {packets : List Bytes} {net net' : Net}
    (h : sendInOrder packets net = (false, net')) :
    ∃ before packet after, packets = before ++ packet :: after ∧ isParityPacket packet = false ∧
      attempts net.outcomes (before ++ [packet]) =
        attempts net.outcomes before ++ [(packet, false)] ∧
      net'.sent = net.sent ++ taken (attempts net.outcomes before) ∧
      OnlyParityFailed (attempts net.outcomes before) := by
  induction packets generalizing net with
  | nil => exact absurd (Prod.mk.inj h).1 (by simp)
  | cons packet packets ih =>
      rw [sendInOrder, sendToBlocking] at h
      cases hsettle : settle net.outcomes with
      | mk ok outcomes =>
          rw [hsettle] at h
          cases ok with
          | false =>
              dsimp only at h
              split at h
              · rename_i hparity
                obtain ⟨before, last, after, rfl, hlast, hattempts, hsent, hfailed⟩ := ih h
                refine ⟨packet :: before, last, after, rfl, hlast, ?_, ?_, ?_⟩
                · rw [List.cons_append, attempts, attempts, hsettle, hattempts, List.cons_append]
                · rw [attempts, taken_cons, hsettle]
                  exact hsent
                · rw [attempts, hsettle, onlyParityFailed_cons]
                  exact ⟨fun _ => hparity, hfailed⟩
              · rename_i hparity
                obtain rfl := (Prod.mk.inj h).2
                refine ⟨[], packet, packets, rfl, by simpa using hparity, ?_,
                  (List.append_nil _).symm, by simp [OnlyParityFailed, attempts]⟩
                simp only [List.nil_append, attempts, hsettle]
          | true =>
              obtain ⟨before, last, after, rfl, hlast, hattempts, hsent, hfailed⟩ := ih h
              refine ⟨packet :: before, last, after, rfl, hlast, ?_, ?_, ?_⟩
              · rw [List.cons_append, attempts, attempts, hsettle, hattempts, List.cons_append]
              · rw [attempts, taken_cons, hsettle]
                rw [List.append_assoc, List.singleton_append] at hsent
                exact hsent
              · rw [attempts, hsettle, onlyParityFailed_cons]
                exact ⟨fun h => absurd h (by simp), hfailed⟩

end DataDiode
