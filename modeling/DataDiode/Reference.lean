import Mathlib.FieldTheory.Finite.GaloisField
import DataDiode.Interpolation
import DataDiode.Receiver

/-!
# Reference Libraries

Concrete instances of the two external libraries: the MD5 digest, computed block by block,
and a Reed–Solomon code over the field of `2 ^ 16` elements. They show that the behaviour the
development relies on can be had, and concrete runs are stated for them.

## Main results

* `referenceMd5`: MD5 as an instance of `Md5`.
* `referenceRs`: the interpolation code as an instance of `ReedSolomon`.
* `referenceEnv`: an operating system that fails nothing of its own accord.
-/

namespace DataDiode

/-! ### MD5 -/

namespace Md5Digest

/-- The rotations of the sixty-four steps. -/
def shifts : List UInt32 :=
  [7, 12, 17, 22, 7, 12, 17, 22, 7, 12, 17, 22, 7, 12, 17, 22,
    5, 9, 14, 20, 5, 9, 14, 20, 5, 9, 14, 20, 5, 9, 14, 20,
    4, 11, 16, 23, 4, 11, 16, 23, 4, 11, 16, 23, 4, 11, 16, 23,
    6, 10, 15, 21, 6, 10, 15, 21, 6, 10, 15, 21, 6, 10, 15, 21]

/-- The additive constants of the sixty-four steps. -/
def constants : List UInt32 :=
  [0xd76aa478, 0xe8c7b756, 0x242070db, 0xc1bdceee, 0xf57c0faf, 0x4787c62a, 0xa8304613, 0xfd469501,
    0x698098d8, 0x8b44f7af, 0xffff5bb1, 0x895cd7be, 0x6b901122, 0xfd987193, 0xa679438e, 0x49b40821,
    0xf61e2562, 0xc040b340, 0x265e5a51, 0xe9b6c7aa, 0xd62f105d, 0x02441453, 0xd8a1e681, 0xe7d3fbc8,
    0x21e1cde6, 0xc33707d6, 0xf4d50d87, 0x455a14ed, 0xa9e3e905, 0xfcefa3f8, 0x676f02d9, 0x8d2a4c8a,
    0xfffa3942, 0x8771f681, 0x6d9d6122, 0xfde5380c, 0xa4beea44, 0x4bdecfa9, 0xf6bb4b60, 0xbebfbc70,
    0x289b7ec6, 0xeaa127fa, 0xd4ef3085, 0x04881d05, 0xd9d4d039, 0xe6db99e5, 0x1fa27cf8, 0xc4ac5665,
    0xf4292244, 0x432aff97, 0xab9423a7, 0xfc93a039, 0x655b59c3, 0x8f0ccc92, 0xffeff47d, 0x85845dd1,
    0x6fa87e4f, 0xfe2ce6e0, 0xa3014314, 0x4e0811a1, 0xf7537e82, 0xbd3af235, 0x2ad7d2bb, 0xeb86d391]

/-- The chaining value. -/
structure State where
  a : UInt32
  b : UInt32
  c : UInt32
  d : UInt32

/-- The state that MD5 starts with. -/
def initial : State := ⟨0x67452301, 0xefcdab89, 0x98badcfe, 0x10325476⟩

/-- The bits that leave at one end come in at the other. -/
def rotateLeft (x s : UInt32) : UInt32 := (x <<< s) ||| (x >>> (32 - s))

/-- A little-endian word of a block. -/
def word (block : Bytes) (g : ℕ) : UInt32 :=
  (List.range 4).foldr (fun i acc => (acc <<< 8) ||| (block.getD (4 * g + i) 0).toUInt32) 0

/-- One step on a block. -/
def step (block : Bytes) (s : State) (i : ℕ) : State :=
  let f := if i < 16 then (s.b &&& s.c) ||| (~~~s.b &&& s.d)
    else if i < 32 then (s.d &&& s.b) ||| (~~~s.d &&& s.c)
    else if i < 48 then s.b ^^^ s.c ^^^ s.d
    else s.c ^^^ (s.b ||| ~~~s.d)
  let g := if i < 16 then i
    else if i < 32 then (5 * i + 1) % 16
    else if i < 48 then (3 * i + 5) % 16
    else (7 * i) % 16
  ⟨s.d, s.b + rotateLeft (f + s.a + constants.getD i 0 + word block g) (shifts.getD i 0), s.b, s.c⟩

/-- The chaining value after a block. -/
def compress (s : State) (block : Bytes) : State :=
  let t := (List.range 64).foldl (step block) s
  ⟨s.a + t.a, s.b + t.b, s.c + t.c, s.d + t.d⟩

/-- The little-endian bytes of a number. -/
def littleEndian (n width : ℕ) : Bytes :=
  (List.range width).map fun i => UInt8.ofNat (n / 256 ^ i % 256)

/-- A message filled up to whole blocks, with its length in bits at the end. -/
def pad (data : Bytes) : Bytes :=
  data ++ [0x80] ++ List.replicate ((119 - data.length % 64) % 64) 0 ++
    littleEndian (8 * data.length % 2 ^ 64) 8

/-- The digest of a message. -/
def digest (data : Bytes) : Bytes :=
  let s := (Slices.chunks 64 (pad data)).foldl compress initial
  littleEndian s.a.toNat 4 ++ littleEndian s.b.toNat 4 ++ littleEndian s.c.toNat 4 ++
    littleEndian s.d.toNat 4

/-- The field is filled. -/
theorem length_littleEndian (n width : ℕ) : (littleEndian n width).length = width := by
  rw [littleEndian, List.length_map, List.length_range]

end Md5Digest

/-- MD5. -/
def referenceMd5 : Md5 where
  digest := Md5Digest.digest
  length_digest data := by
    rw [Md5Digest.digest]
    simp only [List.length_append, Md5Digest.length_littleEndian]

example : referenceMd5.hex [97, 98, 99] =
    "900150983cd24fb0d6963f7d28e17f72".toList.map fun c => UInt8.ofNat c.toNat := by
  decide +kernel

/-! ### A Reed–Solomon code -/

open Interpolation in
/-- A numbering of the field of `2 ^ 16` elements. -/
noncomputable def numbering : Numbering (GaloisField 2 16) :=
  (Finite.equivFinOfCardEq (by rw [GaloisField.card 2 16 (by decide)]; norm_num)).symm

/-- The points of the code. -/
noncomputable def point (j : ℕ) : GaloisField 2 16 :=
  numbering ⟨j % 65536, Nat.mod_lt _ (by decide)⟩

/-- Different numbers belong to different points. -/
theorem injOn_point {s : Finset ℕ} (h : ∀ j ∈ s, j < 65536) : Set.InjOn point s := by
  intro i hi j hj hij
  have hmod := congrArg Fin.val (numbering.injective hij)
  rwa [Fin.val_mk, Fin.val_mk, Nat.mod_eq_of_lt (h i hi), Nat.mod_eq_of_lt (h j hj)] at hmod

namespace ReferenceRs

open Interpolation

/-- The symbol of a code word at a position of its shards. -/
noncomputable def codeSymbol (shards : List Bytes) (j t : ℕ) : GaloisField 2 16 :=
  extend point (Finset.range shards.length) (fun i => symbol numbering (shards.getD i []) t) j

/-- The recovery shards. -/
noncomputable def encode (shards : List Bytes) (m : ℕ) : List Bytes :=
  (List.range m).map fun r =>
    ofSymbols numbering ((shards.headD []).length / 2) (codeSymbol shards (shards.length + r))

/-- The first `k` received shards, recovery shards numbered behind the originals. -/
def received (k : ℕ) (originals recoveries : List (ℕ × Bytes)) : List (ℕ × Bytes) :=
  (originals ++ recoveries.map fun s => (k + s.1, s.2)).take k

/-- The received shard of an index. -/
def receivedShard (k : ℕ) (originals recoveries : List (ℕ × Bytes)) (j : ℕ) : Bytes :=
  (((received k originals recoveries).find? fun s => s.1 = j).map Prod.snd).getD []

/-- The restored shards. -/
noncomputable def decode (k _m shardBytes : ℕ) (originals recoveries : List (ℕ × Bytes)) :
    List (ℕ × Bytes) :=
  ((List.range k).filter fun i => i ∉ originals.map Prod.fst).map fun i =>
    (i, ofSymbols numbering (shardBytes / 2) fun t =>
      extend point ((received k originals recoveries).map Prod.fst).toFinset
        (fun j => symbol numbering (receivedShard k originals recoveries j) t) i)

/-- Received indices are pairwise different. -/
theorem nodup_received {k m shardBytes : ℕ} {originals recoveries : List (ℕ × Bytes)}
    (ho : Shards k shardBytes originals) (hr : Shards m shardBytes recoveries) :
    ((received k originals recoveries).map Prod.fst).Nodup := by
  rw [received, List.map_take, List.map_append, List.map_map]
  refine List.Nodup.sublist (List.take_sublist _ _) ?_
  refine List.nodup_append.mpr ⟨ho.nodup, ?_, ?_⟩
  · have hmap : recoveries.map (Prod.fst ∘ fun s : ℕ × Bytes => (k + s.1, s.2)) =
        (recoveries.map Prod.fst).map (k + ·) := by
      rw [List.map_map]
      rfl
    rw [hmap]
    exact hr.nodup.map (add_right_injective k)
  · intro i hi j hj
    obtain ⟨s, hs, rfl⟩ := List.mem_map.mp hi
    obtain ⟨s', -, rfl⟩ := List.mem_map.mp hj
    have := ho.index_lt s hs
    simp only [Function.comp_apply]
    omega

/-- A received shard carries the symbols of its code word. -/
theorem symbol_received {shards : List Bytes} {m shardBytes : ℕ}
    {originals recoveries : List (ℕ × Bytes)} (hlen : ∀ s ∈ shards, s.length = shardBytes)
    (horig : ∀ s ∈ originals, shards[s.1]? = some s.2)
    (hrec : ∀ s ∈ recoveries, (encode shards m)[s.1]? = some s.2) (hpos : 0 < shards.length)
    {s : ℕ × Bytes} (hs : s ∈ received shards.length originals recoveries) {t : ℕ}
    (ht : t < shardBytes / 2) (hinj : Set.InjOn point (Finset.range shards.length)) :
    symbol numbering s.2 t = codeSymbol shards s.1 t := by
  rcases List.mem_append.mp (List.mem_of_mem_take hs) with hs | hs
  · have hget := horig s hs
    obtain ⟨hlt, hval⟩ := List.getElem?_eq_some_iff.mp hget
    rw [codeSymbol, extend_eq hinj _ (Finset.mem_range.mpr hlt), List.getD_eq_getElem _ _ hlt, hval]
  · obtain ⟨r, hr, rfl⟩ := List.mem_map.mp hs
    have hget := hrec r hr
    rw [encode, List.getElem?_map, Option.map_eq_some_iff] at hget
    obtain ⟨i, hi, hval⟩ := hget
    obtain ⟨hlt, rfl⟩ := List.getElem?_eq_some_iff.mp hi
    obtain ⟨first, rest, hcons⟩ := List.exists_cons_of_length_pos hpos
    have hhead : (shards.headD []).length = shardBytes := by
      rw [hcons, List.headD_cons]
      exact hlen first (by rw [hcons]; exact List.mem_cons_self)
    rw [hhead, List.getElem_range] at hval
    simp only
    rw [← hval, symbol_ofSymbols numbering _ ht]

/-- What is found under a received index is a received shard of that index. -/
theorem exists_receivedShard {k : ℕ} {originals recoveries : List (ℕ × Bytes)} {j : ℕ}
    (hj : j ∈ (received k originals recoveries).map Prod.fst) :
    (j, receivedShard k originals recoveries j) ∈ received k originals recoveries := by
  obtain ⟨s, hs, rfl⟩ := List.mem_map.mp hj
  have hsome : ((received k originals recoveries).find? fun s' => s'.1 = s.1).isSome := by
    rw [List.find?_isSome]
    exact ⟨s, hs, by simp⟩
  obtain ⟨s', hs'⟩ := Option.isSome_iff_exists.mp hsome
  have hidx : s'.1 = s.1 := by simpa using List.find?_some hs'
  rw [receivedShard, hs', Option.map_some, Option.getD_some, ← hidx]
  exact List.mem_of_find?_eq_some hs'

/-- Whether the code has enough points. -/
def supports (k m : ℕ) : Bool := 1 ≤ k ∧ 1 ≤ m ∧ k + m ≤ 65536

end ReferenceRs

open ReferenceRs Interpolation in
/-- The interpolation code. -/
noncomputable def referenceRs : ReedSolomon where
  supports := supports
  encode := encode
  decode := decode
  supports_of_le hk hk' hm hm' := by
    rw [supports, decide_eq_true_eq]
    omega
  length_encode _ := by rw [encode, List.length_map, List.length_range]
  length_of_mem_encode {shards m shardBytes} hsup hvalid hlen r hr := by
    rw [supports, decide_eq_true_eq] at hsup
    obtain ⟨first, rest, rfl⟩ := List.exists_cons_of_length_pos hsup.1
    obtain ⟨i, -, rfl⟩ := List.mem_map.mp hr
    rw [length_ofSymbols, List.headD_cons, hlen first List.mem_cons_self]
    have := hvalid.2
    omega
  decode_shape {k m shardBytes originals recoveries} _ hvalid _ _ _ := by
    refine ⟨by rw [decode, List.map_map]; exact List.map_id _, fun s hs => ?_⟩
    obtain ⟨i, -, rfl⟩ := List.mem_map.mp hs
    rw [length_ofSymbols]
    have := hvalid.2
    omega
  decode_true {shards m shardBytes originals recoveries} hsup hvalid hlen ho hr horig hrec hcount
      s hs := by
    rw [supports, decide_eq_true_eq] at hsup
    obtain ⟨hpos, -, hpoints⟩ := hsup
    obtain ⟨i, hi, rfl⟩ := List.mem_map.mp hs
    have hik : i < shards.length := List.mem_range.mp (List.mem_filter.mp hi).1
    have hinj : Set.InjOn point (Finset.range shards.length) := injOn_point fun j hj => by
      have := Finset.mem_range.mp hj
      omega
    have hnodup := nodup_received ho hr
    set T := ((received shards.length originals recoveries).map Prod.fst).toFinset with hT
    have hcard : (Finset.range shards.length).card = T.card := by
      rw [Finset.card_range, hT, List.toFinset_card_of_nodup hnodup, List.length_map, received,
        List.length_take, List.length_append, List.length_map]
      omega
    have hTinj : Set.InjOn point T := injOn_point fun j hj => by
      rw [hT, List.mem_toFinset] at hj
      obtain ⟨s, hs, rfl⟩ := List.mem_map.mp hj
      rcases List.mem_append.mp (List.mem_of_mem_take hs) with hs | hs
      · have := ho.index_lt s hs
        omega
      · obtain ⟨r, hr', rfl⟩ := List.mem_map.mp hs
        have := hr.index_lt r hr'
        simp only
        omega
    have hshard : shards[i].length = 2 * (shardBytes / 2) := by
      have := hvalid.2
      rw [hlen _ (List.getElem_mem hik)]
      omega
    rw [List.getElem?_eq_getElem hik, Option.some.injEq, ← ofSymbols_symbol numbering hshard,
      ofSymbols, ofSymbols]
    refine List.flatMap_congr fun t ht => ?_
    have hlt : t < shardBytes / 2 := List.mem_range.mp ht
    -- the symbols at position `t`: any `k` of them give the others
    have hvalues : ∀ j ∈ T, symbol numbering
        (receivedShard shards.length originals recoveries j) t = codeSymbol shards j t := by
      intro j hj
      rw [hT, List.mem_toFinset] at hj
      exact symbol_received hlen horig hrec hpos (exists_receivedShard hj) hlt hinj
    rw [extend_of_extends hinj hTinj hcard hvalues, extend_eq hinj _ (Finset.mem_range.mpr hik),
      List.getD_eq_getElem _ _ hik]

/-! ### A quiet environment -/

/-- The reference libraries. -/
noncomputable def referenceLibs : Libs := ⟨referenceMd5, referenceRs⟩

/-- A receiver writing to `/out`, with forwarding, under an operating system that fails nothing
of its own accord. -/
noncomputable def referenceEnv : Env where
  toLibs := referenceLibs
  outputDir := ['/', 'o', 'u', 't']
  cwd := []
  udpForwardingEnabled := true
  faults _ _ := none

/-- Nothing fails in the reference environment. -/
theorem referenceEnv_noFaults : referenceEnv.NoFaults := fun _ _ => rfl

/-- A file system with nothing but the output directory. -/
def referenceTree : Tree where
  node l := if l = [] ∨ l = [['o', 'u', 't']] then some .dir else none
  root := if_pos (Or.inl rfl)
  parent l n h := by
    refine if_pos (Or.inl ?_)
    by_contra hne
    refine h (if_neg ?_)
    rintro (h | h)
    · exact List.append_ne_nil_of_right_ne_nil l (List.cons_ne_nil n []) h
    · have hlen := congrArg List.length h
      have hpos := List.length_pos_iff.mpr hne
      rw [List.length_append, List.length_singleton, List.length_singleton] at hlen
      omega

end DataDiode
