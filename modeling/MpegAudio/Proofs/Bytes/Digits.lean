import MpegAudio.Bytes
import Mathlib.Data.List.Induction
import Mathlib.Tactic.Ring

/-!
# Writing numbers as bytes

A number is written with a fixed count of digits, one to the byte, to the base 256 or to the base
128. Read back with eight or with seven bits to the byte it is the same number, as long as the
digits suffice for it.
-/

namespace MpegAudio.Bytes

/-- The last `k` digits of `n` to a base of at most 256, highest first. -/
def digits (base : Nat) : (k n : Nat) → List UInt8
  | 0, _ => []
  | k + 1, n => digits base k (n / base) ++ [UInt8.ofNat (n % base)]

@[simp] theorem length_digits (base k n : Nat) : (digits base k n).length = k := by
  induction k generalizing n with
  | zero => rfl
  | succ k ih => rw [digits, List.length_append, ih, List.length_singleton]

private theorem div_lt_pow {base k n : Nat} (hbase : 0 < base) (h : n < base ^ (k + 1)) :
    n / base < base ^ k := by
  rw [Nat.div_lt_iff_lt_mul hbase, ← pow_succ]
  exact h

/-- What takes up one digit after another reads back what was written. -/
private theorem read_digits {base : Nat} {read : List UInt8 → Nat} (hnil : read [] = 0)
    (hconcat : ∀ bs d, d < base → read (bs ++ [UInt8.ofNat d]) = read bs * base + d)
    (hbase : 0 < base) {k n : Nat} (h : n < base ^ k) : read (digits base k n) = n := by
  induction k generalizing n with
  | zero =>
      rw [pow_zero] at h
      rw [digits, hnil]
      omega
  | succ k ih =>
      rw [digits, hconcat _ _ (Nat.mod_lt n hbase), ih (div_lt_pow hbase h)]
      exact Nat.div_add_mod' n base

theorem bigEndian_digits {k n : Nat} (h : n < 256 ^ k) : bigEndian (digits 256 k n) = n := by
  refine read_digits bigEndian_nil (fun bs d hd => ?_) (by decide) h
  rw [bigEndian_concat, UInt8.toNat_ofNat', Nat.mod_eq_of_lt hd]

theorem syncsafe_digits {k n : Nat} (h : n < 128 ^ k) : syncsafe (digits 128 k n) = n := by
  refine read_digits syncsafe_nil (fun bs d hd => ?_) (by decide) h
  rw [syncsafe_concat, UInt8.toNat_ofNat']
  omega

/-- A number needs as many bytes as it was read from. -/
theorem bigEndian_lt (bs : List UInt8) : bigEndian bs < 256 ^ bs.length := by
  induction bs using List.reverseRecOn with
  | nil => decide
  | append_singleton bs b ih =>
      have hb := b.toNat_lt
      rw [bigEndian_concat, List.length_append, List.length_singleton, pow_succ]
      omega

theorem number?_lt {bs : List UInt8} {offset n : Nat} (h : number? bs offset = some n) :
    n < 256 ^ 4 := by
  obtain ⟨part, hpart, rfl⟩ := Option.map_eq_some_iff.mp h
  rw [← (field?_eq_some_iff.mp hpart).2]
  exact bigEndian_lt part

end MpegAudio.Bytes
