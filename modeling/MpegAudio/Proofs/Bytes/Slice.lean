import MpegAudio.Bytes

/-!
# Stretches of a byte string

What a reader returns is a stretch of the data under it, and what a writer of frames produces is
cut at their ends. Both are spoken of as `slice`: the bytes from an offset on, up to a number of
them. A stretch that leaves the string is shorter than it was asked for and never an error, so
lengths are a matter of their own.
-/

namespace MpegAudio.Bytes

/-- The bytes from offset `p` on, up to `n` of them. -/
def slice (bs : List UInt8) (p n : Nat) : List UInt8 := (bs.drop p).take n

/-- Byte `i` as a number, and zero past the end. -/
def byteAt (bs : List UInt8) (i : Nat) : Nat := (bs.getD i 0).toNat

variable (bs : List UInt8)

@[simp] theorem slice_zero (p : Nat) : slice bs p 0 = [] := by simp [slice]

theorem length_slice (p n : Nat) : (slice bs p n).length = min n (bs.length - p) := by
  simp [slice]

variable {bs} in
theorem length_slice_of_le {p n : Nat} (h : p + n ≤ bs.length) : (slice bs p n).length = n := by
  rw [length_slice]
  omega

/-- Two stretches side by side are one. -/
theorem slice_append_slice (p m n : Nat) :
    slice bs p m ++ slice bs (p + m) n = slice bs p (m + n) := by
  rw [slice, slice, slice, List.take_add, List.drop_drop]

/-- A stretch is as long as it says, also where the string ends before it would. -/
theorem slice_length_slice (p n : Nat) : slice bs p (slice bs p n).length = slice bs p n := by
  rw [slice, slice, List.take_eq_take_iff, List.length_take]
  omega

theorem take_slice (p n k : Nat) : (slice bs p n).take k = slice bs p (min k n) := by
  rw [slice, slice, List.take_take]

theorem drop_slice (p n k : Nat) : (slice bs p n).drop k = slice bs (p + k) (n - k) := by
  rw [slice, slice, List.drop_take, List.drop_drop]

/-- A stretch of a stretch, as long as it stays inside. -/
theorem slice_slice (p n k m : Nat) (h : k + m ≤ n) :
    slice (slice bs p n) k m = slice bs (p + k) m := by
  rw [slice, drop_slice, take_slice, Nat.min_eq_left (by omega)]

/-- A stretch behind what a string begins with. -/
theorem slice_length_add (pre : List UInt8) (p n : Nat) :
    slice (pre ++ bs) (pre.length + p) n = slice bs p n := by
  rw [slice, slice, List.drop_length_add_append]

/-- A part of a string is the stretch at its offset. -/
theorem slice_part (pre part rest : List UInt8) :
    slice (pre ++ (part ++ rest)) pre.length part.length = part := by
  rw [slice, List.drop_left, List.take_left]

variable {bs} in
theorem slice_append_of_le {p n : Nat} (h : p + n ≤ bs.length) (rest : List UInt8) :
    slice (bs ++ rest) p n = slice bs p n := by
  rw [slice, slice, List.drop_append_of_le_length (by omega),
    List.take_append_of_le_length (by rw [List.length_drop]; omega)]

variable {bs} in
theorem slice_one {p : Nat} (h : p < bs.length) : slice bs p 1 = [bs[p]] := by
  rw [slice, List.drop_eq_getElem_cons h, List.take_succ_cons, List.take_zero]

variable {bs} in
theorem slice_cons {p n : Nat} (h : p < bs.length) :
    slice bs p (n + 1) = bs[p] :: slice bs (p + 1) n := by
  rw [slice, slice, List.drop_eq_getElem_cons h, List.take_succ_cons]

variable {bs} in
/-- A stretch grows by the byte behind it. -/
theorem slice_succ {p n : Nat} (h : p + n < bs.length) :
    slice bs p (n + 1) = slice bs p n ++ [bs[p + n]] := by
  rw [← slice_append_slice, slice_one h]

variable {bs} in
/-- A field is a stretch that is all there. -/
theorem field?_eq_slice {p n : Nat} (h : p + n ≤ bs.length) :
    field? bs p n = some (slice bs p n) :=
  field?_eq_some_iff.mpr ⟨rfl, length_slice_of_le h⟩

variable {bs} in
theorem field?_eq_none {p n : Nat} (hn : 0 < n) (h : bs.length < p + n) : field? bs p n = none := by
  rw [field?]
  apply if_neg
  simp only [List.length_take, List.length_drop]
  omega

variable {bs} in
theorem byteAt_of_lt {i : Nat} (h : i < bs.length) : byteAt bs i = bs[i].toNat := by
  rw [byteAt, List.getD_eq_getElem?_getD, List.getElem?_eq_getElem h, Option.getD_some]

end MpegAudio.Bytes
