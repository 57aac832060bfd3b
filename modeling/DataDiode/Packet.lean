import DataDiode.Proto

/-!
# Packets

The receiver's view of a datagram. `decodePacket` cuts the header at fixed offsets, while
`encodePacket` writes the count with a *minimum* width of ten digits, so reader and writer
agree exactly on counts below `10 ^ 10`.

## Main results

* `decodePacket_encodePacket`: below `10 ^ 10` the decoder inverts the encoder.
* `decodePacket_count_lt`: the decoder never returns a count of `10 ^ 10` or more.
* `decodePacket_encodePacket_iff`: the round trip characterised, for every 64-bit count.
* `decodePacket_hash_length`: both hash fields of a decoded packet have 32 bytes.
-/

namespace DataDiode

/-- A decoded packet. -/
structure Packet where
  pkgType : ℕ
  count : ℕ
  pathHash : Bytes
  dataHash : Bytes
  data : Bytes
  deriving DecidableEq, Repr

/-- The bytes from offset `a` up to offset `b`. -/
def slice (raw : Bytes) (a b : ℕ) : Bytes := (raw.drop a).take (b - a)

/-- Read a datagram: at least a header, a one-digit type and a ten-digit count in text, and
the rest verbatim. -/
def decodePacket (raw : Bytes) : Option Packet :=
  if raw.length < headerSize then none
  else do
    let pkgType ← parseText 256 (slice raw 0 1)
    let count ← parseText u64Bound (slice raw 1 11)
    pure
      { pkgType := pkgType
        count := count
        pathHash := slice raw 11 43
        dataHash := slice raw 43 75
        data := raw.drop 75 }

/-- The largest count the ten-digit field of the header holds, plus one. -/
def countBound : ℕ := 10 ^ 10

/-! ### Reading a header -/

/-- A field of a packet that is long enough. -/
theorem length_slice_of_le {raw : Bytes} {a b : ℕ} (h : b ≤ raw.length) :
    (slice raw a b).length = b - a := by
  rw [slice, List.length_take, List.length_drop]
  omega

/-- A successful decoding, field by field. -/
theorem decodePacket_eq_some_iff {raw : Bytes} {p : Packet} :
    decodePacket raw = some p ↔
      headerSize ≤ raw.length ∧ parseText 256 (slice raw 0 1) = some p.pkgType ∧
        parseText u64Bound (slice raw 1 11) = some p.count ∧ p.pathHash = slice raw 11 43 ∧
        p.dataHash = slice raw 43 75 ∧ p.data = raw.drop 75 := by
  rw [decodePacket]
  split
  · rename_i h
    exact ⟨fun e => absurd e (by simp), fun e => absurd e.1 (by omega)⟩
  · rename_i h
    simp only [bind, Option.bind_eq_some_iff, Option.pure_def, Option.some.injEq]
    constructor
    · rintro ⟨t, ht, c, hc, rfl⟩
      exact ⟨by omega, ht, hc, rfl, rfl, rfl⟩
    · rintro ⟨-, ht, hc, hp, hd, hx⟩
      refine ⟨_, ht, _, hc, ?_⟩
      cases p
      simp only at hp hd hx
      rw [hp, hd, hx]

/-- The decoder never returns a count of eleven digits. -/
theorem decodePacket_count_lt {raw : Bytes} {p : Packet} (h : decodePacket raw = some p) :
    p.count < countBound := by
  obtain ⟨hlen, -, hc, -⟩ := decodePacket_eq_some_iff.mp h
  have hlt := parseText_lt hc
  rwa [length_slice_of_le (by simp only [headerSize] at hlen; omega)] at hlt

/-- Both hashes of a packet fill their fields. -/
theorem decodePacket_hash_length {raw : Bytes} {p : Packet} (h : decodePacket raw = some p) :
    p.pathHash.length = 32 ∧ p.dataHash.length = 32 := by
  obtain ⟨hlen, -, -, hp, hd, -⟩ := decodePacket_eq_some_iff.mp h
  simp only [headerSize] at hlen
  exact ⟨by rw [hp, length_slice_of_le (by omega)], by rw [hd, length_slice_of_le (by omega)]⟩

/-- A field in the middle is cut out by its offsets. -/
theorem slice_middle {a b c : Bytes} {i j : ℕ} (hi : a.length = i) (hj : b.length = j - i) :
    slice (a ++ b ++ c) i j = b := by
  rw [slice, List.append_assoc, ← hi, List.drop_left, hi, ← hj, List.take_left]

/-- What the decoder sees in a header of the right widths. -/
theorem decodePacket_fields {t c ph dh data : Bytes} (ht : t.length = 1) (hc : c.length = 10)
    (hph : ph.length = 32) (hdh : dh.length = 32) {pkgType count : ℕ}
    (hpt : parseText 256 t = some pkgType) (hpc : parseText u64Bound c = some count) :
    decodePacket (t ++ c ++ ph ++ dh ++ data) = some ⟨pkgType, count, ph, dh, data⟩ := by
  have h0 : slice (t ++ c ++ ph ++ dh ++ data) 0 1 = t := by
    have := slice_middle (a := []) (b := t) (c := c ++ ph ++ dh ++ data) (i := 0) (j := 1) rfl ht
    simpa [List.append_assoc] using this
  have h1 : slice (t ++ c ++ ph ++ dh ++ data) 1 11 = c := by
    have := slice_middle (a := t) (b := c) (c := ph ++ dh ++ data) (i := 1) (j := 11) ht hc
    simpa [List.append_assoc] using this
  have h2 : slice (t ++ c ++ ph ++ dh ++ data) 11 43 = ph := by
    have := slice_middle (a := t ++ c) (b := ph) (c := dh ++ data) (i := 11) (j := 43)
      (by rw [List.length_append, ht, hc]) hph
    simpa [List.append_assoc] using this
  have h3 : slice (t ++ c ++ ph ++ dh ++ data) 43 75 = dh := by
    have := slice_middle (a := t ++ c ++ ph) (b := dh) (c := data) (i := 43) (j := 75)
      (by rw [List.length_append, List.length_append, ht, hc, hph]) hdh
    simpa [List.append_assoc] using this
  have hlen : (t ++ c ++ ph ++ dh).length = 75 := by
    rw [List.length_append, List.length_append, List.length_append, ht, hc, hph, hdh]
  have h4 : (t ++ c ++ ph ++ dh ++ data).drop 75 = data := by
    rw [← hlen, List.drop_left]
  rw [decodePacket_eq_some_iff, h0, h1, h2, h3, h4]
  refine ⟨?_, hpt, hpc, rfl, rfl, rfl⟩
  rw [List.length_append, hlen, headerSize]
  omega

/-! ### The round trip -/

/-- A one-digit packet type is one byte and reads back. -/
theorem decimal_pkgType {t : ℕ} (ht : t < 10) :
    (Decimal.decimal t).length = 1 ∧ parseText 256 (Decimal.decimal t) = some t := by
  have hle := (Decimal.length_decimal_le_iff (n := t) (w := 1) (by omega)).mpr (by omega)
  have hpos := List.length_pos_iff.mpr (Decimal.decimal_ne_nil t)
  have hpad : Decimal.zeroPadded 1 t = Decimal.decimal t := by
    rw [Decimal.zeroPadded, Nat.sub_eq_zero_of_le (by omega), List.replicate_zero,
      List.nil_append]
  exact ⟨by omega, hpad ▸ parseText_zeroPadded (by omega)⟩

/-- **Below `10 ^ 10` the decoder inverts the encoder.** -/
theorem decodePacket_encodePacket {t count : ℕ} {ph dh : Bytes} (data : Bytes) (ht : t < 10)
    (hcount : count < countBound) (hph : ph.length = 32) (hdh : dh.length = 32) :
    decodePacket (encodePacket t count ph dh data) = some ⟨t, count, ph, dh, data⟩ := by
  obtain ⟨htl, htp⟩ := decimal_pkgType ht
  have hc := (Decimal.length_zeroPadded_eq_iff (w := 10) (by omega)).mpr hcount
  have hb : count < u64Bound := lt_trans hcount (by decide)
  exact decodePacket_fields htl hc hph hdh htp (parseText_zeroPadded hb)

/-- **The round trip characterised**: a packet of any 64-bit count comes back as it was
written if and only if the count fits in ten digits. -/
theorem decodePacket_encodePacket_iff {t count : ℕ} {ph dh : Bytes} (data : Bytes)
    (ht : t ≤ pkgTypeUdp) (_hcount : count < u64Bound) (hph : ph.length = 32)
    (hdh : dh.length = 32) :
    decodePacket (encodePacket t count ph dh data) = some ⟨t, count, ph, dh, data⟩ ↔
      count < countBound := by
  constructor
  · exact fun h => decodePacket_count_lt h
  · exact fun h => decodePacket_encodePacket data (lt_of_le_of_lt ht (by decide)) h hph hdh

/-- The round trip of an END packet for a file of `10 ^ 10 - 1` chunks. -/
theorem decodePacket_encodePacket_iff_end :
    decodePacket (encodePacket pkgTypeEnd 9999999999 emptyHash emptyHash [97]) =
        some ⟨pkgTypeEnd, 9999999999, emptyHash, emptyHash, [97]⟩ ↔ 9999999999 < countBound :=
  decodePacket_encodePacket_iff [97] (by decide) (by decide) (by decide) (by decide)

/-- The START packet of a file of `10 ^ 10` bytes does not come back: its size is read as
`10 ^ 9`. -/
theorem decodePacket_encodePacket_ten_digits :
    decodePacket (encodePacket pkgTypeStart (10 ^ 10) emptyHash (encodeParityField 100) [97]) ≠
      some ⟨pkgTypeStart, 10 ^ 10, emptyHash, encodeParityField 100, [97]⟩ := by
  intro h
  have := decodePacket_count_lt h
  exact absurd this (by decide)

end DataDiode
