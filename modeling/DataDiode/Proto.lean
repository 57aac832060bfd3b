import DataDiode.Decimal
import DataDiode.UnixPath
import DataDiode.Utf8

/-!
# The Wire Format

The constants and helpers shared by the sender and the receiver: the 75-byte text header
in front of every payload (one digit of packet type, a zero-padded decimal of at least ten
digits, two 32-byte hash fields), the 32-digit parity field, and the check a received path
has to pass before it is joined to the output directory.

Byte strings are lists of `UInt8`, decoded text is a list of characters, and the machine
integers of the source are natural numbers whose bounds are stated where they matter.

## Main results

* `parseText_zeroPadded`: a zero-padded field is read back by the text-then-integer parser.
* `decodeParityField_encodeParityField`: the parity field of a 64-bit count is read back.
* `plain_of_isSafeRelPath`: every accepted path is plain — relative, non-empty, and made of
  ordinary names.
-/

namespace DataDiode

/-- A byte string. -/
abbrev Bytes := List UInt8

/-- Decoded text. -/
abbrev Str := List Char

/-- Maximum data payload per packet (before FEC padding). -/
def chunkSize : ℕ := 940

/-- FEC shard size: the chunk size rounded up to a multiple of 64. -/
def shardSize : ℕ := 960

/-- Size of the fixed header preceding every packet payload. -/
def headerSize : ℕ := 1 + 10 + 32 + 32

/-- Number of data chunks per FEC batch. -/
def batchDataChunks : ℕ := 1000

/-- Number of FEC parity shards generated per batch. -/
def batchParityChunks : ℕ := 100

def pkgTypeStart : ℕ := 0
def pkgTypeData : ℕ := 1
def pkgTypeEnd : ℕ := 2
def pkgTypeParity : ℕ := 3
def pkgTypeUdp : ℕ := 4

/-- Sentinel value used wherever a hash field is unused: thirty-two ASCII zeros. -/
def emptyHash : Bytes := List.replicate 32 48

/-- Hard cap, in bytes, on a single reassembled UDP payload. -/
def udpMaxForwardBytes : ℕ := 4 * 1024 * 1024

/-- The bound of a 64-bit unsigned integer. -/
def u64Bound : ℕ := 2 ^ 64

/-- Saturating addition of 64-bit unsigned integers. -/
def saturatingAdd (a b : ℕ) : ℕ := min (a + b) (u64Bound - 1)

/-- A packet: the type and the ten-digit count as text, then the two hash fields and the
payload as they are. Ten digits are a minimum of the format, not a maximum. -/
def encodePacketInto (pkgType countOrFilesize : ℕ) (pathHash dataHash payload : Bytes) :
    Bytes :=
  Decimal.decimal pkgType ++ Decimal.zeroPadded 10 countOrFilesize ++ pathHash ++ dataHash ++
    payload

/-- A packet in a buffer of its own. -/
def encodePacket (pkgType countOrFilesize : ℕ) (pathHash dataHash payload : Bytes) : Bytes :=
  encodePacketInto pkgType countOrFilesize pathHash dataHash payload

/-- The parity count carried in the data-hash field of START packets. -/
def encodeParityField (parityCount : ℕ) : Bytes := Decimal.zeroPadded 32 parityCount

/-- Text first, then an unsigned integer below `bound`: `None` if the bytes are not UTF-8 or
the text is not a decimal integer that fits. -/
def parseText (bound : ℕ) (bytes : Bytes) : Option ℕ :=
  if (Utf8.fromUtf8 bytes).isSome then Decimal.parseUnsigned bound bytes else none

/-- Inverse of `encodeParityField`. -/
def decodeParityField (bytes : Bytes) : Option ℕ := parseText u64Bound bytes

/-- Validate a relative file path that is about to be joined onto an output directory. -/
def isSafeRelPath (relPath : Str) : Bool :=
  if relPath = [] then false
  else if relPath.head? = some '/' then false
  else if relPath.head? = some '\\' then false
  else (UnixPath.components relPath).all fun
    | .parentDir => false
    | .curDir => false
    | .rootDir => false
    | .normal _ => true

/-! ### Numeric fields -/

/-- A field of digits is text. -/
theorem fromUtf8_isSome_of_all_isDigit {bs : Bytes} (h : bs.all Decimal.isDigit = true) :
    (Utf8.fromUtf8 bs).isSome := by
  refine Utf8.fromUtf8_isSome_of_forall_lt fun b hb => ?_
  have hdigit := List.all_eq_true.mp h b hb
  simp only [Decimal.isDigit, Bool.and_eq_true, decide_eq_true_eq] at hdigit
  omega

/-- A zero-padded field is read back. -/
theorem parseText_zeroPadded {bound w n : ℕ} (hn : n < bound) :
    parseText bound (Decimal.zeroPadded w n) = some n := by
  rw [parseText, if_pos (fromUtf8_isSome_of_all_isDigit (Decimal.all_isDigit_zeroPadded w n)),
    Decimal.parseUnsigned_zeroPadded hn]

/-- A parsed field of `k` bytes is a number below `10 ^ k`. -/
theorem parseText_lt {bound n : ℕ} {bs : Bytes} (h : parseText bound bs = some n) :
    n < 10 ^ bs.length := by
  rw [parseText] at h
  split at h
  · exact Decimal.parseUnsigned_lt h
  · exact absurd h (by simp)

/-- Every 64-bit number fits a field of 32 digits. -/
theorem length_zeroPadded_of_lt_u64Bound {n : ℕ} (hn : n < u64Bound) :
    (Decimal.zeroPadded 32 n).length = 32 := by
  rw [u64Bound] at hn
  exact (Decimal.length_zeroPadded_eq_iff (by decide)).mpr (by omega)

/-- The parity field of every 64-bit count is read back. -/
theorem decodeParityField_encodeParityField {n : ℕ} (hn : n < u64Bound) :
    decodeParityField (encodeParityField n) = some n :=
  parseText_zeroPadded hn

/-! ### The path check -/

/-- **An accepted path is plain.** -/
theorem plain_of_isSafeRelPath {p : Str} (h : isSafeRelPath p = true) : UnixPath.Plain p := by
  rw [isSafeRelPath] at h
  split at h
  · exact absurd h Bool.false_ne_true
  · rename_i hne
    split at h
    · exact absurd h Bool.false_ne_true
    · rename_i hslash
      split at h
      · exact absurd h Bool.false_ne_true
      · refine ⟨hne, by simpa [UnixPath.isAbsolute] using hslash, fun c hc => ?_⟩
        have hc' := List.all_eq_true.mp h c hc
        cases c with
        | normal name => exact ⟨name, rfl⟩
        | rootDir | curDir | parentDir => exact absurd hc' Bool.false_ne_true

end DataDiode
