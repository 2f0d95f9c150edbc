/-!
# Numbers and fields inside a byte string

Both the frames and the tags of an MPEG audio stream store numbers with the most significant byte
first. Tags also use a form with seven bits to the byte, so that no byte of a size looks like the
start of a frame.
-/

namespace MpegAudio.Bytes

/-- The number whose digits to the base 256 are the given bytes, highest first. -/
def bigEndian (bs : List UInt8) : Nat :=
  bs.foldl (fun n b => n * 256 + b.toNat) 0

/-- The number whose digits to the base 128 are the low seven bits of the given bytes, highest
first. The top bit of a byte carries nothing. -/
def syncsafe (bs : List UInt8) : Nat :=
  bs.foldl (fun n b => n * 128 + b.toNat % 128) 0

/-- The `n` bytes at `offset`, and nothing when the string ends before them. -/
def field? (bs : List UInt8) (offset n : Nat) : Option (List UInt8) :=
  let part := (bs.drop offset).take n
  if part.length = n then some part else none

/-- The number in the four bytes at `offset`, highest first. -/
def number? (bs : List UInt8) (offset : Nat) : Option Nat :=
  (field? bs offset 4).map bigEndian

@[simp] theorem bigEndian_nil : bigEndian [] = 0 := rfl

@[simp] theorem syncsafe_nil : syncsafe [] = 0 := rfl

theorem bigEndian_concat (bs : List UInt8) (b : UInt8) :
    bigEndian (bs ++ [b]) = bigEndian bs * 256 + b.toNat := by
  simp [bigEndian]

theorem syncsafe_concat (bs : List UInt8) (b : UInt8) :
    syncsafe (bs ++ [b]) = syncsafe bs * 128 + b.toNat % 128 := by
  simp [syncsafe]

theorem field?_eq_some_iff {bs part : List UInt8} {offset n : Nat} :
    field? bs offset n = some part ↔ (bs.drop offset).take n = part ∧ part.length = n := by
  simp only [field?]
  constructor
  · intro h
    split at h
    · cases h
      exact ⟨rfl, by assumption⟩
    · cases h
  · rintro ⟨rfl, h⟩
    rw [if_pos h]

end MpegAudio.Bytes
