import MpegAudio.Locator.ConstantRate
import MpegAudio.Proofs.Header.Grammar
import Mathlib.Data.Nat.Init
import Mathlib.Tactic.Ring

/-!
# Average frame lengths

The average length of a frame is the quotient of two whole numbers and seldom whole itself. Padding
keeps the frames within one byte of it: the first `i` frames are as long as `i` averages, rounded
down or up. That settles both how many frames fill a given number of bytes and where each of them
starts, up to one byte.

The count rests on frames being longer than two bytes, so that the byte of doubt in a whole number of
frames never makes room for one more.
-/

namespace MpegAudio

namespace Header

/-- The average length of `i` frames, rounded down. -/
def lowOffset (h : Header) (i : Nat) : Nat := i * h.scaledLength / h.sampleRate

/-- The average length of `i` frames, rounded up. -/
def highOffset (h : Header) (i : Nat) : Nat :=
  (i * h.scaledLength + h.sampleRate - 1) / h.sampleRate

variable {bs : List UInt8} {h : Header}

/-- A header never has a sample rate of zero. -/
theorem div_clock_sampleRate (H : ofBytes? bs = some h) (i : Nat) :
    i * h.scaledLength / max h.clock.sampleRate 1 = h.lowOffset i := by
  have hrate : max h.clock.sampleRate 1 = h.sampleRate := Nat.max_eq_left (sampleRate_pos H)
  rw [hrate, lowOffset]

/-- Frames have 24 bytes on average. -/
theorem mul_sampleRate_le (H : ofBytes? bs = some h) : 24 * h.sampleRate ≤ h.scaledLength := by
  have hbytes := (scaledLength_bounds H).1
  calc 24 * h.sampleRate
      ≤ h.scaledLength / h.sampleRate * h.sampleRate := Nat.mul_le_mul_right _ hbytes
    _ ≤ h.scaledLength := Nat.div_mul_le_self _ _

/-- Frames fit a number of bytes, rounded down, if they are shorter than one byte more. -/
theorem lowOffset_le_iff (H : ofBytes? bs = some h) {i audio : Nat} :
    h.lowOffset i ≤ audio ↔ i * h.scaledLength < (audio + 1) * h.sampleRate := by
  rw [lowOffset, ← Nat.lt_add_one_iff, Nat.div_lt_iff_lt_mul (sampleRate_pos H)]

theorem max_scaledLength (H : ofBytes? bs = some h) : max h.scaledLength 1 = h.scaledLength := by
  have hrate := sampleRate_pos H
  have hlong := mul_sampleRate_le H
  exact Nat.max_eq_left (by omega)

end Header

namespace ConstantRate

open Header

variable {bs : List UInt8} {h : Header} {start length n : Nat}

@[simp] theorem start_ofHeader : (ofHeader start length h).start = start := rfl

@[simp] theorem clock_ofHeader : (ofHeader start length h).clock = h.clock := rfl

theorem scaledLength_ofHeader (H : ofBytes? bs = some h) :
    (ofHeader start length h).scaledLength = h.scaledLength := max_scaledLength H

/-- The frames are counted exactly: their number is far from the ceiling. -/
theorem frameCount_eq (H : ofBytes? bs = some h) (hlength : length ≤ ceiling) :
    (ofHeader start length h).frameCount =
      (length - start + 1) * h.sampleRate / h.scaledLength := by
  have hlong := mul_sampleRate_le H
  have hcount : (length - start + 1) * h.sampleRate / h.scaledLength ≤ ceiling := by
    apply Nat.div_le_of_le_mul
    calc (length - start + 1) * h.sampleRate
        ≤ (ceiling * 24) * h.sampleRate := Nat.mul_le_mul_right _ (by rw [ceiling] at *; omega)
      _ = 24 * h.sampleRate * ceiling := by ring
      _ ≤ h.scaledLength * ceiling := Nat.mul_le_mul_right _ hlong
  rw [ofHeader]
  simp only [max_scaledLength H]
  exact saturate_of_le hcount

/-- **Frames that keep to the average are counted.** If the bytes from the first frame to the end
are `n` average lengths, rounded either way, they are counted as `n` frames. -/
theorem frameCount_ofHeader (H : ofBytes? bs = some h) (hlow : h.lowOffset n ≤ length - start)
    (hhigh : length - start ≤ h.highOffset n) (hceiling : length ≤ ceiling) :
    (ofHeader start length h).frameCount = n := by
  have hlong := mul_sampleRate_le H
  -- With one byte more there is room for `n` averages, and not for one average more.
  have hroom : n * h.scaledLength ≤ (length - start + 1) * h.sampleRate :=
    ((lowOffset_le_iff H).mp hlow).le
  have hfull : (length - start + 1) * h.sampleRate < (n + 1) * h.scaledLength := by
    rw [highOffset, Nat.le_div_iff_mul_le (sampleRate_pos H)] at hhigh
    rw [Nat.add_mul, Nat.add_mul]
    have hrate := sampleRate_pos H
    omega
  rw [frameCount_eq H hceiling]
  exact Nat.div_eq_of_lt_le hroom hfull

/-- Frame `i` is looked for at its offset rounded down, as far as positions go. -/
theorem position_ofHeader (H : ofBytes? bs = some h) {i : Nat}
    (hceiling : start + h.lowOffset i ≤ ceiling) :
    (ofHeader start length h).position i = start + h.lowOffset i := by
  have hoffset : h.lowOffset i ≤ ceiling := by omega
  rw [position, start_ofHeader, scaledLength_ofHeader H, clock_ofHeader, div_clock_sampleRate H,
    saturate_of_le hoffset, saturate_of_le hceiling]

end ConstantRate

end MpegAudio
