import Mathlib.Tactic.Linarith

/-!
# UTF-8 Text as Characters

A decoded string is a list of Unicode scalar values. `encode` is its UTF-8 byte
sequence, `fromUtf8` the strict decoder and `fromUtf8Lossy` the total one: where the
bytes are not UTF-8, it emits one replacement character for each maximal prefix of an
ill-formed sequence and resumes after it.

Single characters are decoded by the core library's `ByteArray.utf8DecodeChar?`; this
module adds the scan over a byte list and the lossy recovery.

## Main results

* `fromUtf8_encode`, `fromUtf8Lossy_encode`: both decoders return an encoded string.
* `encode_of_fromUtf8`: the strict decoder accepts encodings only.
* `fromUtf8_isSome_of_forall_lt`: ASCII is always well formed.
-/

namespace Utf8

/-- The UTF-8 bytes of a string. -/
def encode (s : List Char) : List UInt8 := s.flatMap String.utf8EncodeChar

/-- The character whose encoding starts the byte list, if there is one. -/
def decodeChar (bs : List UInt8) : Option Char := (bs.take 4).toByteArray.utf8DecodeChar? 0

/-- Strict decoding of at most `fuel` characters; every character takes a byte, so the
byte count is always enough. -/
def decodeFuel : ℕ → List UInt8 → Option (List Char)
  | _, [] => some []
  | 0, _ :: _ => none
  | fuel + 1, b :: bs => do
      let c ← decodeChar (b :: bs)
      let cs ← decodeFuel fuel ((b :: bs).drop c.utf8Size)
      pure (c :: cs)

/-- The strict decoder. -/
def fromUtf8 (bs : List UInt8) : Option (List Char) := decodeFuel bs.length bs

/-- Whether a byte is a UTF-8 continuation byte. -/
def isContinuation (b : UInt8) : Bool := b &&& 192 = 128

/-- Whether `b₁` may follow the first byte `b₀` of a three-byte sequence. -/
def secondOfThree (b₀ b₁ : UInt8) : Bool :=
  if b₀ = 0xE0 then 0xA0 ≤ b₁ && b₁ ≤ 0xBF
  else if b₀ = 0xED then 0x80 ≤ b₁ && b₁ ≤ 0x9F
  else 0x80 ≤ b₁ && b₁ ≤ 0xBF

/-- Whether `b₁` may follow the first byte `b₀` of a four-byte sequence. -/
def secondOfFour (b₀ b₁ : UInt8) : Bool :=
  if b₀ = 0xF0 then 0x90 ≤ b₁ && b₁ ≤ 0xBF
  else if b₀ = 0xF4 then 0x80 ≤ b₁ && b₁ ≤ 0x8F
  else 0x80 ≤ b₁ && b₁ ≤ 0xBF

/-- The length of the ill-formed prefix that one replacement character stands for: the
bytes that could still have begun a character, at least one. Bytes past the end read as
zero, which continues nothing. -/
def invalidPrefix (bs : List UInt8) : ℕ :=
  let b₀ := bs.getD 0 0
  let b₁ := bs.getD 1 0
  let b₂ := bs.getD 2 0
  if 0xE0 ≤ b₀ ∧ b₀ ≤ 0xEF then
    if secondOfThree b₀ b₁ then 2 else 1
  else if 0xF0 ≤ b₀ ∧ b₀ ≤ 0xF4 then
    if secondOfFour b₀ b₁ then (if isContinuation b₂ then 3 else 2) else 1
  else 1

/-- Lossy decoding, fuelled like `decodeFuel`. -/
def lossyFuel : ℕ → List UInt8 → List Char
  | _, [] => []
  | 0, _ :: _ => []
  | fuel + 1, b :: bs =>
      match decodeChar (b :: bs) with
      | some c => c :: lossyFuel fuel ((b :: bs).drop c.utf8Size)
      | none => '\uFFFD' :: lossyFuel fuel ((b :: bs).drop (invalidPrefix (b :: bs)))

/-- The lossy decoder. -/
def fromUtf8Lossy (bs : List UInt8) : List Char := lossyFuel bs.length bs

/-! ### Encoding -/

/-- Nothing is encoded by nothing. -/
@[simp] theorem encode_nil : encode [] = [] := rfl

/-- One character, and the others. -/
@[simp] theorem encode_cons (c : Char) (s : List Char) :
    encode (c :: s) = String.utf8EncodeChar c ++ encode s := rfl

/-- One text after the other. -/
@[simp] theorem encode_append (s t : List Char) : encode (s ++ t) = encode s ++ encode t := by
  simp [encode]

/-- Every character is decoded back from the front of its encoding. -/
theorem decodeChar_encode_append (c : Char) (bs : List UInt8) :
    decodeChar (String.utf8EncodeChar c ++ bs) = some c := by
  have hlen : (String.utf8EncodeChar c).length ≤ 4 := by
    rw [String.length_utf8EncodeChar]
    exact c.utf8Size_le_four
  rw [decodeChar, List.take_append, List.take_of_length_le hlen, List.toByteArray_append]
  exact ByteArray.utf8DecodeChar?_utf8EncodeChar_append

/-- What is left behind a decoded character is the rest of the list. -/
theorem drop_utf8Size_encode_append (c : Char) (bs : List UInt8) :
    (String.utf8EncodeChar c ++ bs).drop c.utf8Size = bs := by
  rw [← String.length_utf8EncodeChar c, List.drop_left]

/-- An encoded string starts with at least one byte for each character. -/
theorem exists_cons_encodeChar_append (c : Char) (bs : List UInt8) :
    ∃ b t, String.utf8EncodeChar c ++ bs = b :: t := by
  cases h : String.utf8EncodeChar c with
  | nil => exact absurd h String.utf8EncodeChar_ne_nil
  | cons b t => exact ⟨b, t ++ bs, rfl⟩

/-- Every character takes at least one byte. -/
theorem length_le_length_encode (s : List Char) : s.length ≤ (encode s).length := by
  induction s with
  | nil => simp
  | cons c s ih =>
      have := c.utf8Size_pos
      rw [encode_cons, List.length_append, String.length_utf8EncodeChar, List.length_cons]
      omega

/-! ### Round trips -/

/-- Enough fuel for a text decodes it. -/
theorem decodeFuel_encode (s : List Char) : ∀ fuel, s.length ≤ fuel →
    decodeFuel fuel (encode s) = some s := by
  induction s with
  | nil => intro fuel _; cases fuel <;> rfl
  | cons c s ih =>
      intro fuel hfuel
      obtain ⟨fuel, rfl⟩ : ∃ f, fuel = f + 1 := ⟨fuel - 1, by simp at hfuel; omega⟩
      obtain ⟨b, t, hbt⟩ := exists_cons_encodeChar_append c (encode s)
      have hrest := ih fuel (by simpa using hfuel)
      rw [encode_cons, hbt, decodeFuel, ← hbt, decodeChar_encode_append]
      simp only [Option.bind_eq_bind, Option.bind_some, drop_utf8Size_encode_append, hrest,
        Option.pure_def]

/-- Enough fuel for a text decodes it without losses, too. -/
theorem lossyFuel_encode (s : List Char) : ∀ fuel, s.length ≤ fuel →
    lossyFuel fuel (encode s) = s := by
  induction s with
  | nil => intro fuel _; cases fuel <;> rfl
  | cons c s ih =>
      intro fuel hfuel
      obtain ⟨fuel, rfl⟩ : ∃ f, fuel = f + 1 := ⟨fuel - 1, by simp at hfuel; omega⟩
      obtain ⟨b, t, hbt⟩ := exists_cons_encodeChar_append c (encode s)
      have hrest := ih fuel (by simpa using hfuel)
      rw [encode_cons, hbt, lossyFuel, ← hbt, decodeChar_encode_append]
      simp only [drop_utf8Size_encode_append, hrest]

/-- **Strict round trip.** -/
theorem fromUtf8_encode (s : List Char) : fromUtf8 (encode s) = some s :=
  decodeFuel_encode s _ (length_le_length_encode s)

/-- **Lossy round trip**: nothing is replaced in a well-formed string. -/
theorem fromUtf8Lossy_encode (s : List Char) : fromUtf8Lossy (encode s) = s :=
  lossyFuel_encode s _ (length_le_length_encode s)

/-! ### What the strict decoder accepts -/

/-- A decoded character stands at the front as its encoding. -/
theorem exists_append_of_decodeChar {bs : List UInt8} {c : Char} (h : decodeChar bs = some c) :
    ∃ rest, bs = String.utf8EncodeChar c ++ rest := by
  have hfront := congrArg (fun b : ByteArray => b.data.toList)
    (ByteArray.eq_of_utf8DecodeChar?_eq_some h)
  simp only [ByteArray.data_append, Array.toList_append, List.toList_data_toByteArray] at hfront
  have hbs := List.take_append_drop 4 bs
  rw [hfront, List.append_assoc] at hbs
  exact ⟨_, hbs.symm⟩

/-- What is decoded is what has been encoded. -/
theorem encode_of_decodeFuel : ∀ {fuel : ℕ} {bs : List UInt8} {s : List Char},
    decodeFuel fuel bs = some s → encode s = bs := by
  intro fuel
  induction fuel with
  | zero =>
      intro bs s h
      cases bs with
      | nil => rw [← Option.some.inj h]; rfl
      | cons b bs => exact absurd h (by simp [decodeFuel])
  | succ fuel ih =>
      intro bs s h
      cases bs with
      | nil => rw [← Option.some.inj h]; rfl
      | cons b bs =>
          simp only [decodeFuel, bind, Option.bind_eq_some_iff, Option.pure_def,
            Option.some.injEq] at h
          obtain ⟨c, hc, cs, hcs, rfl⟩ := h
          obtain ⟨rest, hrest⟩ := exists_append_of_decodeChar hc
          rw [hrest, drop_utf8Size_encode_append] at hcs
          rw [encode_cons, ih hcs, hrest]

/-- **Strict decoding is exact**: what it accepts is the encoding of the result. -/
theorem encode_of_fromUtf8 {bs : List UInt8} {s : List Char} (h : fromUtf8 bs = some s) :
    encode s = bs :=
  encode_of_decodeFuel h

/-! ### ASCII -/

/-- ASCII characters are encoded by their codes. -/
theorem encodeChar_ofNat_of_lt :
    ∀ n < 128, String.utf8EncodeChar (Char.ofNat n) = [UInt8.ofNat n] := by
  decide

/-- The bytes of longer encodings are not ASCII. -/
theorem val_eq_of_mem_encodeChar {c : Char} {b : UInt8} (hb : b.toNat < 128)
    (h : b ∈ String.utf8EncodeChar c) : c.val.toNat = b.toNat := by
  have hlow : ∀ n : ℕ, b = UInt8.ofNat n → n % 256 < 128 := by
    rintro n rfl
    rwa [UInt8.toNat_ofNat'] at hb
  rw [String.utf8EncodeChar.eq_def] at h
  dsimp only at h
  split at h
  · rw [List.mem_singleton.mp h, UInt8.toNat_ofNat']
    omega
  · exfalso
    split at h
    · simp only [List.mem_cons, List.not_mem_nil, or_false] at h
      rcases h with h | h <;> have hn := hlow _ h <;> omega
    · split at h
      · simp only [List.mem_cons, List.not_mem_nil, or_false] at h
        rcases h with h | h | h <;> have hn := hlow _ h <;> omega
      · simp only [List.mem_cons, List.not_mem_nil, or_false] at h
        rcases h with h | h | h | h <;> have hn := hlow _ h <;> omega

/-- An ASCII byte of an encoded string is a character of it. -/
theorem ofNat_mem_of_mem_encode {s : List Char} {b : UInt8} (hb : b.toNat < 128)
    (h : b ∈ encode s) : Char.ofNat b.toNat ∈ s := by
  obtain ⟨c, hc, hmem⟩ := List.mem_flatMap.mp h
  rw [← val_eq_of_mem_encodeChar hb hmem]
  exact c.ofNat_toNat.symm ▸ hc

/-- An ASCII byte is the encoding of the character with its code. -/
theorem exists_encodeChar_of_lt {b : UInt8} (h : b.toNat < 128) :
    ∃ c : Char, String.utf8EncodeChar c = [b] :=
  ⟨Char.ofNat b.toNat, by rw [encodeChar_ofNat_of_lt _ h, UInt8.ofNat_toNat]⟩

/-- An encoded string starts with an ASCII byte just when the string starts with that
character. -/
theorem head?_encode_eq_some_iff {b : UInt8} (hb : b.toNat < 128) {s : List Char} :
    (encode s).head? = some b ↔ s.head? = some (Char.ofNat b.toNat) := by
  cases s with
  | nil => simp
  | cons c s =>
      obtain ⟨b', t, hbt⟩ := List.exists_cons_of_ne_nil (@String.utf8EncodeChar_ne_nil c)
      rw [encode_cons, hbt, List.cons_append, List.head?_cons, List.head?_cons,
        Option.some.injEq, Option.some.injEq]
      constructor
      · rintro rfl
        rw [← val_eq_of_mem_encodeChar hb (hbt ▸ List.mem_cons_self)]
        exact c.ofNat_toNat.symm
      · rintro rfl
        rw [encodeChar_ofNat_of_lt _ hb, UInt8.ofNat_toNat] at hbt
        exact (List.cons.inj hbt).1.symm

/-- A string of ASCII bytes is an encoding. -/
theorem exists_encode_of_forall_lt {bs : List UInt8} (h : ∀ b ∈ bs, b.toNat < 128) :
    ∃ s, encode s = bs := by
  induction bs with
  | nil => exact ⟨[], rfl⟩
  | cons b bs ih =>
      obtain ⟨s, hs⟩ := ih fun b hb => h b (List.mem_cons_of_mem _ hb)
      obtain ⟨c, hc⟩ := exists_encodeChar_of_lt (h b List.mem_cons_self)
      exact ⟨c :: s, by rw [encode_cons, hc, hs, List.singleton_append]⟩

/-- The strict decoder accepts every string of ASCII bytes. -/
theorem fromUtf8_isSome_of_forall_lt {bs : List UInt8} (h : ∀ b ∈ bs, b.toNat < 128) :
    (fromUtf8 bs).isSome := by
  obtain ⟨s, rfl⟩ := exists_encode_of_forall_lt h
  rw [fromUtf8_encode]
  rfl

end Utf8
