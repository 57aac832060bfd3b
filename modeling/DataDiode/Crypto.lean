import DataDiode.Proto

/-!
# Digests and Erasure Codes

The two external libraries both sides rest on, as structures whose fields are the
behaviour the code relies on.

* `Md5` is a digest of sixteen bytes. The wire carries it as thirty-two hexadecimal
  characters (`Md5.hex`), so every hash field has its full width by construction.
* `ReedSolomon` is a systematic erasure code on equally long shards: from `k` original
  shards it computes `m` recovery shards, and from any `k` of the `k + m` it restores the
  originals that are missing. What it restores from shards of different origin is left
  open, except for its shape. `RsDecoder` is the library's incremental decoder with its
  argument checks.

## Main results

* `Md5.length_hex`: a hash field is thirty-two bytes wide.
-/

namespace DataDiode

/-! ### Digests -/

/-- A digest function with sixteen bytes of output. -/
structure Md5 where
  digest : Bytes → Bytes
  length_digest : ∀ data, (digest data).length = 16

/-- A lower-case hexadecimal digit. -/
def hexDigit (d : ℕ) : UInt8 := UInt8.ofNat (if d < 10 then 48 + d else 87 + d)

/-- The two hexadecimal digits of a byte. -/
def hexByte (b : UInt8) : Bytes := [hexDigit (b.toNat / 16), hexDigit (b.toNat % 16)]

/-- The hexadecimal digest of some data. -/
def Md5.hex (md5 : Md5) (data : Bytes) : Bytes := (md5.digest data).flatMap hexByte

/-- Every byte takes two digits. -/
theorem length_flatMap_hexByte (l : Bytes) : (l.flatMap hexByte).length = 2 * l.length := by
  induction l with
  | nil => rfl
  | cons b l ih =>
      rw [List.flatMap_cons, List.length_append, ih, List.length_cons]
      simp only [hexByte, List.length_cons, List.length_nil]
      omega

/-- A hash field is thirty-two bytes wide. -/
@[simp] theorem Md5.length_hex (md5 : Md5) (data : Bytes) : (md5.hex data).length = 32 := by
  rw [Md5.hex, length_flatMap_hexByte, md5.length_digest]

/-! ### Erasure codes -/

/-- The errors of the Reed–Solomon library. -/
inductive RsError
  | unsupportedShardCount (originalCount recoveryCount : ℕ)
  | invalidShardSize (shardBytes : ℕ)
  | differentShardSize (shardBytes got : ℕ)
  | invalidOriginalShardIndex (originalCount index : ℕ)
  | duplicateOriginalShardIndex (index : ℕ)
  | invalidRecoveryShardIndex (recoveryCount index : ℕ)
  | duplicateRecoveryShardIndex (index : ℕ)
  | notEnoughShards (originalCount originalReceived recoveryReceived : ℕ)
  deriving DecidableEq, Repr

/-- A shard size the library accepts: a positive multiple of 64 bytes. -/
def ValidShardSize (shardBytes : ℕ) : Prop := 0 < shardBytes ∧ shardBytes % 64 = 0

/-- Arithmetic decides it. -/
instance (shardBytes : ℕ) : Decidable (ValidShardSize shardBytes) :=
  inferInstanceAs (Decidable (_ ∧ _))

/-- Indexed shards of a code word: pairwise different indices below `count`, all of
`shardBytes` bytes. -/
structure Shards (count shardBytes : ℕ) (l : List (ℕ × Bytes)) : Prop where
  nodup : (l.map Prod.fst).Nodup
  index_lt : ∀ s ∈ l, s.1 < count
  length_eq : ∀ s ∈ l, s.2.length = shardBytes

/-- The Reed–Solomon library. -/
structure ReedSolomon where
  /-- Whether the library handles `k` original and `m` recovery shards. -/
  supports : ℕ → ℕ → Bool
  /-- The recovery shards of some original shards. -/
  encode : List Bytes → ℕ → List Bytes
  /-- The restored original shards, from the counts, the shard size and the received original
  and recovery shards. -/
  decode : ℕ → ℕ → ℕ → List (ℕ × Bytes) → List (ℕ × Bytes) → List (ℕ × Bytes)
  /-- Up to 32768 shards of either kind are handled. -/
  supports_of_le : ∀ {k m}, 1 ≤ k → k ≤ 32768 → 1 ≤ m → m ≤ 32768 → supports k m = true
  /-- Encoding yields as many recovery shards as asked for. -/
  length_encode : ∀ {shards m}, supports shards.length m = true →
    (encode shards m).length = m
  /-- Recovery shards are as long as the original ones. -/
  length_of_mem_encode : ∀ {shards m shardBytes}, supports shards.length m = true →
    ValidShardSize shardBytes → (∀ s ∈ shards, s.length = shardBytes) →
    ∀ r ∈ encode shards m, r.length = shardBytes
  /-- From at least `k` shards, exactly the missing originals are restored, in full length. -/
  decode_shape : ∀ {k m shardBytes originals recoveries}, supports k m = true →
    ValidShardSize shardBytes → Shards k shardBytes originals → Shards m shardBytes recoveries →
    k ≤ originals.length + recoveries.length →
    (decode k m shardBytes originals recoveries).map Prod.fst =
        (List.range k).filter (fun i => i ∉ originals.map Prod.fst) ∧
      ∀ s ∈ decode k m shardBytes originals recoveries, s.2.length = shardBytes
  /-- From at least `k` shards of one code word, the restored originals are those of the code
  word. -/
  decode_true : ∀ {shards : List Bytes} {m shardBytes originals recoveries},
    supports shards.length m = true → ValidShardSize shardBytes →
    (∀ s ∈ shards, s.length = shardBytes) →
    Shards shards.length shardBytes originals → Shards m shardBytes recoveries →
    (∀ s ∈ originals, shards[s.1]? = some s.2) →
    (∀ s ∈ recoveries, (encode shards m)[s.1]? = some s.2) →
    shards.length ≤ originals.length + recoveries.length →
    ∀ s ∈ decode shards.length m shardBytes originals recoveries, shards[s.1]? = some s.2

/-- The libraries both sides are linked with. -/
structure Libs where
  md5 : Md5
  rs : ReedSolomon

/-- The encoder of the library, with its argument check. -/
def ReedSolomon.runEncoder (rs : ReedSolomon) (shards : List Bytes) (recoveryCount : ℕ) :
    Except RsError (List Bytes) :=
  if rs.supports shards.length recoveryCount then .ok (rs.encode shards recoveryCount)
  else .error (.unsupportedShardCount shards.length recoveryCount)

/-- The incremental decoder of the library. -/
structure RsDecoder where
  originalCount : ℕ
  recoveryCount : ℕ
  shardBytes : ℕ
  originals : List (ℕ × Bytes)
  recoveries : List (ℕ × Bytes)

namespace RsDecoder

/-- A fresh decoder. -/
def new (rs : ReedSolomon) (originalCount recoveryCount shardBytes : ℕ) :
    Except RsError RsDecoder :=
  if rs.supports originalCount recoveryCount = false then
    .error (.unsupportedShardCount originalCount recoveryCount)
  else if ¬ValidShardSize shardBytes then .error (.invalidShardSize shardBytes)
  else .ok ⟨originalCount, recoveryCount, shardBytes, [], []⟩

/-- Feed an original shard. -/
def addOriginalShard (dec : RsDecoder) (index : ℕ) (shard : Bytes) : Except RsError RsDecoder :=
  if dec.originalCount ≤ index then
    .error (.invalidOriginalShardIndex dec.originalCount index)
  else if index ∈ dec.originals.map Prod.fst then .error (.duplicateOriginalShardIndex index)
  else if shard.length ≠ dec.shardBytes then
    .error (.differentShardSize dec.shardBytes shard.length)
  else .ok { dec with originals := dec.originals ++ [(index, shard)] }

/-- Feed a recovery shard. -/
def addRecoveryShard (dec : RsDecoder) (index : ℕ) (shard : Bytes) : Except RsError RsDecoder :=
  if dec.recoveryCount ≤ index then
    .error (.invalidRecoveryShardIndex dec.recoveryCount index)
  else if index ∈ dec.recoveries.map Prod.fst then .error (.duplicateRecoveryShardIndex index)
  else if shard.length ≠ dec.shardBytes then
    .error (.differentShardSize dec.shardBytes shard.length)
  else .ok { dec with recoveries := dec.recoveries ++ [(index, shard)] }

/-- Restore the missing original shards. -/
def decode (rs : ReedSolomon) (dec : RsDecoder) : Except RsError (List (ℕ × Bytes)) :=
  if dec.originals.length + dec.recoveries.length < dec.originalCount then
    .error (.notEnoughShards dec.originalCount dec.originals.length dec.recoveries.length)
  else
    .ok (rs.decode dec.originalCount dec.recoveryCount dec.shardBytes dec.originals dec.recoveries)

end RsDecoder

end DataDiode
