import DataDiode.Packet

/-!
# Canonical Headers

The decoder leaves the numbers of the header to the integer parser, which takes a plus sign in
front of the digits. The encoder never writes one. A datagram is what the encoder writes for its
decoded packet exactly if its count field has no plus sign, and two datagrams that are decoded to
one packet differ at most in that.

## Main results

* `eq_fields`: a decoded datagram, cut into its fields.
* `encodePacket_decodePacket_iff`: encoding what was decoded, for packets and parity fields, and
  when two datagrams are decoded to one packet.
* `decodePacket_plus`: a count field with a plus sign is decoded, and not written back.
-/

namespace DataDiode

/-! ### Text fields -/

/-- What is read by the text is read by the code. -/
theorem parseUnsigned_of_parseText {bound n : ℕ} {bs : Bytes} (h : parseText bound bs = some n) :
    Decimal.parseUnsigned bound bs = some n := by
  rw [parseText] at h
  split at h
  · exact h
  · exact absurd h (by simp)

/-- A type byte is a digit: a plus sign alone is no number. -/
theorem decimal_eq_of_parseText {bound t : ℕ} {bs : Bytes} (hlen : bs.length = 1)
    (h : parseText bound bs = some t) : Decimal.decimal t = bs := by
  obtain ⟨ds, hne, hdig, rfl, ⟨rfl, -⟩ | rfl⟩ :=
    Decimal.parseUnsigned_cases (parseUnsigned_of_parseText h)
  · have ht := Decimal.value_lt hdig
    rw [hlen] at ht
    have hpad := Decimal.zeroPadded_value hdig hne
    rwa [hlen, Decimal.zeroPadded, (decimal_pkgType ht).1, Nat.sub_self, List.replicate_zero,
      List.nil_append] at hpad
  · exact absurd (List.length_eq_zero_iff.mp (Nat.succ_injective hlen)) hne

/-! ### Datagrams -/

/-- A datagram is made of its fields. -/
theorem eq_slices (raw : Bytes) :
    raw = slice raw 0 1 ++ slice raw 1 11 ++ slice raw 11 43 ++ slice raw 43 75 ++
      raw.drop 75 := by
  have hcut : ∀ {a b : ℕ}, a ≤ b → raw.drop a = slice raw a b ++ raw.drop b := by
    intro a b hab
    have hdrop : raw.drop b = (raw.drop a).drop (b - a) := by
      rw [List.drop_drop, Nat.add_sub_cancel' hab]
    rw [slice, hdrop, List.take_append_drop]
  simp only [List.append_assoc]
  rw [← hcut (by omega), ← hcut (by omega), ← hcut (by omega), ← hcut (by omega)]
  rfl

/-- **A decoded datagram**, cut into its fields. The count field is all that need not be as the
encoder writes it. -/
theorem eq_fields {raw : Bytes} {p : Packet} (h : decodePacket raw = some p) :
    raw = Decimal.decimal p.pkgType ++ slice raw 1 11 ++ p.pathHash ++ p.dataHash ++ p.data ∧
      Decimal.parseUnsigned u64Bound (slice raw 1 11) = some p.count ∧
      (slice raw 1 11).length = 10 ∧ (slice raw 1 11).head? = raw[1]? := by
  obtain ⟨hlen, htype, hcount, hpath, hdata, hpayload⟩ := decodePacket_eq_some_iff.mp h
  have hwide : 75 ≤ raw.length := hlen
  have htypeLen : (slice raw 0 1).length = 1 := length_slice_of_le (by omega)
  refine ⟨?_, parseUnsigned_of_parseText hcount, length_slice_of_le (by omega), ?_⟩
  · rw [decimal_eq_of_parseText htypeLen htype, hpath, hdata, hpayload]
    exact eq_slices raw
  · rw [slice, List.head?_take, if_neg (by decide), List.head?_drop]

/-- Only the count field decides whether the encoder writes a datagram. -/
theorem encodePacket_eq_iff {raw : Bytes} {p : Packet} (h : decodePacket raw = some p) :
    encodePacket p.pkgType p.count p.pathHash p.dataHash p.data = raw ↔
      Decimal.zeroPadded 10 p.count = slice raw 1 11 := by
  obtain ⟨hraw, -, hlen, -⟩ := eq_fields h
  constructor
  · intro e
    have hwide := (Decimal.length_zeroPadded_eq_iff (w := 10) (by decide)).mpr
      (decodePacket_count_lt h)
    have hfields := e.trans hraw
    simp only [encodePacket, encodePacketInto, List.append_assoc] at hfields
    exact (List.append_inj (List.append_cancel_left hfields) (hwide.trans hlen.symm)).1
  · intro e
    rw [encodePacket, encodePacketInto, e]
    exact hraw.symm

/-- **Decoding and encoding again** gives a datagram back exactly if its count field does not start
with a plus sign, and a parity field exactly if it does not; and two datagrams are decoded to one
packet only if they are equal or one of them has the plus sign. -/
theorem encodePacket_decodePacket_iff (raw raw' field : Bytes) (p : Packet) (n : ℕ) :
    (decodePacket raw = some p →
      (encodePacket p.pkgType p.count p.pathHash p.dataHash p.data = raw ↔ raw[1]? ≠ some 43)) ∧
    (field.length = 32 → decodeParityField field = some n →
      (encodeParityField n = field ↔ field.head? ≠ some 43)) ∧
    (decodePacket raw = some p → decodePacket raw' = some p →
      (raw = raw' ↔ (raw[1]? = some 43 ↔ raw'[1]? = some 43))) := by
  refine ⟨fun h => ?_, fun hlen h => ?_, fun h h' => ?_⟩
  · obtain ⟨-, hparse, hlen, hhead⟩ := eq_fields h
    have hfield := Decimal.zeroPadded_parseUnsigned_iff hparse
    rw [hlen, hhead] at hfield
    exact (encodePacket_eq_iff h).trans hfield
  · have hfield := Decimal.zeroPadded_parseUnsigned_iff (parseUnsigned_of_parseText h)
    rwa [hlen] at hfield
  · obtain ⟨hraw, hparse, hlen, hhead⟩ := eq_fields h
    obtain ⟨hraw', hparse', hlen', hhead'⟩ := eq_fields h'
    have hfield := Decimal.eq_iff_of_parseUnsigned hparse hparse' (hlen.trans hlen'.symm)
    rw [hhead, hhead'] at hfield
    refine Iff.trans ⟨fun e => by rw [e], fun e => ?_⟩ hfield
    rw [hraw, hraw', e]

/-- The datagram of an END packet with the count `+000000012`. -/
def plusDatagram : Bytes :=
  [50, 43, 48, 48, 48, 48, 48, 48, 48, 49, 50] ++ emptyHash ++ emptyHash ++ [97]

/-- **A plus sign** in the count field is decoded, and not written back. -/
theorem decodePacket_plus : ¬ ∀ raw p, decodePacket raw = some p →
    encodePacket p.pkgType p.count p.pathHash p.dataHash p.data = raw := by
  intro h
  have hdecode : decodePacket plusDatagram =
      some ⟨pkgTypeEnd, 12, emptyHash, emptyHash, [97]⟩ := by decide
  have hwritten := h _ _ hdecode
  exact absurd hwritten (by decide)

end DataDiode
