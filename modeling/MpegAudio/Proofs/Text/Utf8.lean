import MpegAudio.Text.Utf8

/-!
# Reading UTF-8 that was written

The bytes of a character are read back as that character, whatever follows them. A lead byte says
how many continuation bytes there are, and carries the highest bits; each continuation byte carries
six more. The bounds on the first continuation byte, which rule out second spellings, surrogates and
numbers behind the last code point, are met because the character has the shortest spelling and is
a character.
-/

namespace MpegAudio.Text

/-- No character has the number of a surrogate, or one behind the last code point. -/
theorem scalar_bounds (c : Char) :
    c.toNat < 0xD800 ∨ 0xDFFF < c.toNat ∧ c.toNat < 0x110000 := c.valid

namespace Utf8

variable {b n low high bits v : Nat}

/-! ## One byte -/

theorem first_of_two (hlow : 0xC2 ≤ b) (hhigh : b < 0xE0) :
    first b = ([], some ⟨0, 0x80, 0xBF, b % 0x20⟩) := by
  rw [first, if_neg (by omega), if_neg (by omega), if_pos hhigh]

theorem first_of_three (hlow : 0xE0 ≤ b) (hhigh : b < 0xF0) :
    first b = ([], some ⟨1, if b = 0xE0 then 0xA0 else 0x80, if b = 0xED then 0x9F else 0xBF,
      b % 0x10⟩) := by
  rw [first, if_neg (by omega), if_neg (by omega), if_neg (by omega), if_pos hhigh]

theorem first_of_four (hlow : 0xF0 ≤ b) (hhigh : b < 0xF5) :
    first b = ([], some ⟨2, if b = 0xF0 then 0x90 else 0x80, if b = 0xF4 then 0x8F else 0xBF,
      b % 0x08⟩) := by
  rw [first, if_neg (by omega), if_neg (by omega), if_neg (by omega), if_neg (by omega),
    if_pos hhigh]

theorem step_last (hlow : low ≤ b) (hhigh : b ≤ high) :
    step (some ⟨0, low, high, bits⟩) b = ([Char.ofNat (bits * 0x40 + b % 0x40)], none) :=
  if_pos ⟨hlow, hhigh⟩

theorem step_more (hlow : low ≤ b) (hhigh : b ≤ high) :
    step (some ⟨n + 1, low, high, bits⟩) b =
      ([], some ⟨n, 0x80, 0xBF, bits * 0x40 + b % 0x40⟩) :=
  if_pos ⟨hlow, hhigh⟩

theorem decodeFrom_cons (pending : Option Pending) (b : UInt8) (bs : List UInt8) :
    decodeFrom pending (b :: bs) =
      (step pending b.toNat).1 ++ decodeFrom (step pending b.toNat).2 bs := rfl

/-! ## One character

The bits of a character are spread over its bytes, six to each but the first. -/

private theorem toNat_byte {n : Nat} (h : n < 256) : (UInt8.ofNat n).toNat = n := by
  rw [UInt8.toNat_ofNat']
  omega

private theorem decode_two (hlow : 0x80 ≤ v) (hhigh : v < 0x800) (rest : List UInt8) :
    decode (UInt8.ofNat (v / 64 % 32 + 192) :: UInt8.ofNat (v % 64 + 128) :: rest) =
      Char.ofNat v :: decode rest := by
  have hbits : (v / 64 % 32 + 192) % 0x20 * 0x40 + (v % 64 + 128) % 0x40 = v := by omega
  rw [decode, decodeFrom_cons, toNat_byte (by omega), step, first_of_two (by omega) (by omega),
    decodeFrom_cons, toNat_byte (by omega), step_last (by omega) (by omega), hbits]
  rfl

private theorem decode_three (hlow : 0x800 ≤ v) (hhigh : v < 0x10000)
    (hscalar : v < 0xD800 ∨ 0xDFFF < v) (rest : List UInt8) :
    decode (UInt8.ofNat (v / 4096 % 16 + 224) :: UInt8.ofNat (v / 64 % 64 + 128) ::
      UInt8.ofNat (v % 64 + 128) :: rest) = Char.ofNat v :: decode rest := by
  -- The bounds on the second byte rule out shorter spellings and surrogates.
  have hleast : (if v / 4096 % 16 + 224 = 0xE0 then 0xA0 else 0x80) ≤ v / 64 % 64 + 128 := by
    split <;> omega
  have hmost : v / 64 % 64 + 128 ≤ if v / 4096 % 16 + 224 = 0xED then 0x9F else 0xBF := by
    split <;> omega
  have hbits : ((v / 4096 % 16 + 224) % 0x10 * 0x40 + (v / 64 % 64 + 128) % 0x40) * 0x40 +
      (v % 64 + 128) % 0x40 = v := by omega
  rw [decode, decodeFrom_cons, toNat_byte (by omega), step, first_of_three (by omega) (by omega),
    decodeFrom_cons, toNat_byte (by omega), step_more hleast hmost, decodeFrom_cons,
    toNat_byte (by omega), step_last (by omega) (by omega), hbits]
  rfl

private theorem decode_four (hlow : 0x10000 ≤ v) (hhigh : v < 0x110000) (rest : List UInt8) :
    decode (UInt8.ofNat (v / 262144 % 8 + 240) :: UInt8.ofNat (v / 4096 % 64 + 128) ::
      UInt8.ofNat (v / 64 % 64 + 128) :: UInt8.ofNat (v % 64 + 128) :: rest) =
        Char.ofNat v :: decode rest := by
  -- The bounds on the second byte rule out shorter spellings and what is no character.
  have hleast : (if v / 262144 % 8 + 240 = 0xF0 then 0x90 else 0x80) ≤ v / 4096 % 64 + 128 := by
    split <;> omega
  have hmost : v / 4096 % 64 + 128 ≤ if v / 262144 % 8 + 240 = 0xF4 then 0x8F else 0xBF := by
    split <;> omega
  have hbits : (((v / 262144 % 8 + 240) % 0x08 * 0x40 + (v / 4096 % 64 + 128) % 0x40) * 0x40 +
      (v / 64 % 64 + 128) % 0x40) * 0x40 + (v % 64 + 128) % 0x40 = v := by omega
  rw [decode, decodeFrom_cons, toNat_byte (by omega), step, first_of_four (by omega) (by omega),
    decodeFrom_cons, toNat_byte (by omega), step_more hleast hmost, decodeFrom_cons,
    toNat_byte (by omega), step_more (by omega) (by omega), decodeFrom_cons,
    toNat_byte (by omega), step_last (by omega) (by omega), hbits]
  rfl

/-- **A character is read back**, whatever follows its bytes. -/
theorem decode_encodeChar_append (c : Char) (rest : List UInt8) :
    decode (String.utf8EncodeChar c ++ rest) = c :: decode rest := by
  obtain ⟨v, hv⟩ : ∃ v, v = c.toNat := ⟨_, rfl⟩
  have hscalar := scalar_bounds c
  have hchar : Char.ofNat v = c := by rw [hv, Char.ofNat_toNat]
  rw [← hv] at hscalar
  rw [String.utf8EncodeChar, Char.toNat_val, ← hv, ← hchar]
  by_cases hone : v ≤ 127
  · have hbyte : (UInt8.ofNat v).toNat = v := toNat_byte (by omega)
    rw [if_pos hone, List.singleton_append, decode_cons_of_lt (by omega), hbyte]
  by_cases htwo : v ≤ 2047
  · rw [if_neg hone, if_pos htwo]
    exact decode_two (by omega) (by omega) rest
  by_cases hthree : v ≤ 65535
  · rw [if_neg hone, if_neg htwo, if_pos hthree]
    exact decode_three (by omega) (by omega) (by omega) rest
  · rw [if_neg hone, if_neg htwo, if_neg hthree]
    exact decode_four (by omega) (by omega) rest

/-! ## Both ends of a character -/

/-- No character begins with one of the bytes that are unused. -/
theorem exists_lead (c : Char) :
    ∃ b rest, String.utf8EncodeChar c = b :: rest ∧ b.toNat < 0xF8 := by
  rw [String.utf8EncodeChar]
  split
  · exact ⟨_, _, rfl, by rw [toNat_byte (by omega)]; omega⟩
  split
  · exact ⟨_, _, rfl, by rw [toNat_byte (by omega)]; omega⟩
  split
  · exact ⟨_, _, rfl, by rw [toNat_byte (by omega)]; omega⟩
  · exact ⟨_, _, rfl, by rw [toNat_byte (by omega)]; omega⟩

/-- No character but the zero character ends with a zero. -/
theorem exists_last (c : Char) :
    ∃ front b, String.utf8EncodeChar c = front ++ [b] ∧ (b = 0 → c = Char.ofNat 0) := by
  have hlast : UInt8.ofNat (c.val.toNat % 64 + 128) ≠ 0 := by
    intro hzero
    have := congrArg UInt8.toNat hzero
    rw [toNat_byte (by omega), UInt8.toNat_zero] at this
    omega
  rw [String.utf8EncodeChar]
  split
  · refine ⟨[], _, rfl, fun hzero => ?_⟩
    have := congrArg UInt8.toNat hzero
    rw [toNat_byte (by omega), UInt8.toNat_zero, Char.toNat_val] at this
    rw [← this, Char.ofNat_toNat]
  split
  · exact ⟨[_], _, rfl, fun hzero => absurd hzero hlast⟩
  split
  · exact ⟨[_, _], _, rfl, fun hzero => absurd hzero hlast⟩
  · exact ⟨[_, _, _], _, rfl, fun hzero => absurd hzero hlast⟩

end Utf8

end MpegAudio.Text
