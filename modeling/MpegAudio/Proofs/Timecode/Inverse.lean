import MpegAudio.Timecode
import Mathlib.Order.Bounds.Basic

/-!
# Times and the frames playing then

A frame starts at a fraction of a millisecond, which is dropped when its start is told. The frame
playing at a millisecond is computed so that it makes up for this: it is the last one whose start,
as it is told, does not lie behind that millisecond. Seeking adds that no frame behind the last one
of the stream is ever meant.

Both directions stop at the ceiling, and there the two no longer fit together: every frame behind
the ceiling starts at it. A stream that ends before the frame playing at the ceiling does not
notice.
-/

namespace MpegAudio.Clock

variable {c : Clock} {i j t last : Nat}

theorem timecode_of_pos (hrate : 0 < c.sampleRate) (i : Nat) :
    c.timecode i = saturate (i * c.samplesPerFrame * 1000 / c.sampleRate) :=
  if_neg (by omega)

theorem frameAt_of_pos (hsamples : 0 < c.samplesPerFrame) (t : Nat) :
    c.frameAt t = saturate (((t + 1) * c.sampleRate - 1) / (c.samplesPerFrame * 1000)) :=
  if_neg (by omega)

theorem timecode_le_ceiling (c : Clock) (i : Nat) : c.timecode i ≤ ceiling := by
  rw [timecode]
  split
  · exact Nat.zero_le _
  · exact saturate_le_ceiling _

theorem frameAt_le_ceiling (c : Clock) (t : Nat) : c.frameAt t ≤ ceiling := by
  rw [frameAt]
  split
  · exact Nat.zero_le _
  · exact saturate_le_ceiling _

/-- Where the start of a frame is told exactly, but for the fraction, a frame before it that lasts a
millisecond starts at an earlier one. -/
theorem timecode_lt_timecode (hrate : 0 < c.sampleRate)
    (hlong : c.sampleRate ≤ c.samplesPerFrame * 1000)
    (hceiling : j * c.samplesPerFrame * 1000 / c.sampleRate ≤ ceiling) (h : i < j) :
    c.timecode i < c.timecode j := by
  have hnext : i * c.samplesPerFrame * 1000 / c.sampleRate + 1 ≤
      j * c.samplesPerFrame * 1000 / c.sampleRate := by
    calc i * c.samplesPerFrame * 1000 / c.sampleRate + 1
        = (i * c.samplesPerFrame * 1000 + c.sampleRate) / c.sampleRate :=
          (Nat.add_div_right _ hrate).symm
      _ ≤ (i * c.samplesPerFrame * 1000 + c.samplesPerFrame * 1000) / c.sampleRate :=
          Nat.div_le_div_right (by omega)
      _ = (i + 1) * c.samplesPerFrame * 1000 / c.sampleRate := by
          rw [Nat.add_mul, Nat.one_mul, Nat.add_mul]
      _ ≤ j * c.samplesPerFrame * 1000 / c.sampleRate := by
          apply Nat.div_le_div_right
          exact Nat.mul_le_mul_right _ (Nat.mul_le_mul_right _ h)
  rw [timecode_of_pos hrate, timecode_of_pos hrate, saturate_of_le hceiling]
  have := saturate_le (i * c.samplesPerFrame * 1000 / c.sampleRate)
  omega

/-- **A frame starts by a millisecond when it comes no later than the frame playing then.** Below
the ceiling the two directions are inverse to each other in this sense. -/
theorem timecode_le_iff (hsamples : 0 < c.samplesPerFrame) (hrate : 0 < c.sampleRate)
    (hi : i ≤ ceiling) (ht : t < ceiling) : c.timecode i ≤ t ↔ i ≤ c.frameAt t := by
  have hstart : c.timecode i ≤ t ↔ i * c.samplesPerFrame * 1000 / c.sampleRate ≤ t := by
    rw [timecode_of_pos hrate, saturate]
    omega
  have hframe : i ≤ c.frameAt t ↔
      i ≤ ((t + 1) * c.sampleRate - 1) / (c.samplesPerFrame * 1000) := by
    rw [frameAt_of_pos hsamples, saturate]
    omega
  -- Both sides say that the samples before the frame take up less than `t + 1` milliseconds.
  have hroom : 0 < (t + 1) * c.sampleRate := Nat.mul_pos (by omega) hrate
  rw [hstart, hframe, ← Nat.lt_add_one_iff, Nat.div_lt_iff_lt_mul hrate,
    Nat.le_div_iff_mul_le (by omega), ← Nat.mul_assoc]
  omega

/-- **The frame playing at a time is the last one that has started by then.** The time is given in
whole milliseconds and no frame behind `last` counts. It does not matter whether the time lies
behind the ceiling, as long as the last frame plays there. -/
theorem isGreatest_frameAt (hsamples : 0 < c.samplesPerFrame) (hrate : 0 < c.sampleRate)
    (hlast : last ≤ c.frameAt ceiling) (t : Nat) :
    IsGreatest {j | j ≤ last ∧ c.timecode j ≤ t} (min (c.frameAt (saturate t)) last) := by
  have hceiling : last ≤ ceiling := Nat.le_trans hlast (frameAt_le_ceiling c ceiling)
  by_cases ht : t < ceiling
  · rw [saturate_of_le (by omega)]
    constructor
    · refine ⟨Nat.min_le_right _ _, ?_⟩
      exact (timecode_le_iff hsamples hrate (by omega) ht).mpr (Nat.min_le_left _ _)
    · rintro j ⟨hj, hstart⟩
      exact Nat.le_min.mpr ⟨(timecode_le_iff hsamples hrate (by omega) ht).mp hstart, hj⟩
  · -- Every frame starts by the ceiling, and the last one plays there.
    have hsat : saturate t = ceiling := by
      rw [saturate]
      omega
    rw [hsat, Nat.min_eq_right hlast]
    constructor
    · refine ⟨le_rfl, ?_⟩
      have := timecode_le_ceiling c last
      omega
    · rintro j ⟨hj, -⟩
      exact hj

end MpegAudio.Clock
