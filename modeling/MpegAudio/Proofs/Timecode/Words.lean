import MpegAudio.Proofs.Header.Grammar
import MpegAudio.Proofs.Timecode.Inverse
import Mathlib.Algebra.Group.Nat.Defs
import Mathlib.Order.Monotone.Defs

/-!
# Times in words

The number of a frame and a millisecond are words of 64 bits, the samples in a frame and in a second
are words of 32. What is computed on the way from one to the other needs more room than that, and a
word of 128 bits is enough. To say so, the computations are written down once more, with a check of
every result on the way: one that its word cannot hold is given up. None ever is.

So the starts of frames and the frames playing at a time belong together over the whole range of
the words, and only the ceiling itself is out of reach: every frame that starts behind it is told to
start at it.
-/

namespace MpegAudio

/-- A number in a word of so many bits, if it fits. -/
def word? (bits n : Nat) : Option Nat := if n < 2 ^ bits then some n else none

theorem word?_of_lt {bits n : Nat} (h : n < 2 ^ bits) : word? bits n = some n := if_pos h

theorem word?_bind {α : Type} {bits n : Nat} (h : n < 2 ^ bits) (f : Nat → Option α) :
    (word? bits n >>= f) = f n := by
  rw [word?_of_lt h]
  rfl

theorem lt_two_pow_of_le_ceiling {n : Nat} (h : n ≤ ceiling) : n < 2 ^ 64 := by
  rw [ceiling] at h
  omega

namespace Clock

variable {c : Clock} {i t : Nat}

/-- The start of a frame, with both products in words of 128 bits. -/
def timecode? (c : Clock) (i : Nat) : Option Nat :=
  if c.sampleRate = 0 then some 0
  else do
    let samples ← word? 128 (i * c.samplesPerFrame)
    let scaled ← word? 128 (samples * 1000)
    some (saturate (scaled / c.sampleRate))

/-- The frame playing at a millisecond, with the sum and both products in words of 128 bits. -/
def frameAt? (c : Clock) (t : Nat) : Option Nat := do
  let perFrame ← word? 128 (c.samplesPerFrame * 1000)
  if perFrame = 0 then some 0
  else
    let next ← word? 128 (t + 1)
    let scaled ← word? 128 (next * c.sampleRate)
    some (saturate ((scaled - 1) / perFrame))

/-- The samples before a frame fit a word of 128 bits, also in thousandths. -/
theorem timecode?_eq (hsamples : c.samplesPerFrame < 2 ^ 32) (hi : i ≤ ceiling) :
    c.timecode? i = some (c.timecode i) := by
  have hproduct : i * c.samplesPerFrame ≤ 2 ^ 64 * 2 ^ 32 :=
    Nat.mul_le_mul (lt_two_pow_of_le_ceiling hi).le hsamples.le
  rw [timecode?, timecode, word?_bind (by omega), word?_bind (by omega)]
  split <;> rfl

/-- The samples that pass up to a millisecond fit a word of 128 bits, also in thousandths. -/
theorem frameAt?_eq (hsamples : c.samplesPerFrame < 2 ^ 32) (hrate : c.sampleRate < 2 ^ 32)
    (ht : t ≤ ceiling) : c.frameAt? t = some (c.frameAt t) := by
  have hnext : t + 1 ≤ 2 ^ 64 := lt_two_pow_of_le_ceiling ht
  have hproduct : (t + 1) * c.sampleRate ≤ 2 ^ 64 * 2 ^ 32 := Nat.mul_le_mul hnext hrate.le
  rw [frameAt?, frameAt, word?_bind (by omega), word?_bind (by omega), word?_bind (by omega)]
  by_cases hzero : c.samplesPerFrame = 0
  · rw [if_pos (by omega), if_pos hzero]
  · rw [if_neg (by omega), if_neg hzero]

theorem timecode_monotone (c : Clock) : Monotone c.timecode := by
  intro i j hij
  rw [timecode, timecode]
  split
  · exact le_rfl
  · apply saturate_mono
    apply Nat.div_le_div_right
    exact Nat.mul_le_mul_right _ (Nat.mul_le_mul_right _ hij)

theorem frameAt_monotone (c : Clock) : Monotone c.frameAt := by
  intro t u htu
  rw [frameAt, frameAt]
  split
  · exact le_rfl
  · apply saturate_mono
    apply Nat.div_le_div_right
    exact Nat.sub_le_sub_right (Nat.mul_le_mul_right _ (Nat.succ_le_succ htu)) 1

/-- The start of a frame that lasts a millisecond leads back to it, unless it lies at the
ceiling. -/
theorem frameAt_timecode (hsamples : 0 < c.samplesPerFrame) (hrate : 0 < c.sampleRate)
    (hlong : c.sampleRate ≤ c.samplesPerFrame * 1000) (hi : i ≤ ceiling)
    (hbelow : c.timecode i < ceiling) : c.frameAt (c.timecode i) = i := by
  have hframe := frameAt_le_ceiling c (c.timecode i)
  have hle : i ≤ c.frameAt (c.timecode i) :=
    (timecode_le_iff hsamples hrate hi hbelow).mp le_rfl
  have hstart : c.timecode (c.frameAt (c.timecode i)) ≤ c.timecode i :=
    (timecode_le_iff hsamples hrate hframe hbelow).mpr le_rfl
  -- A later frame that starts no later would have to last less than a millisecond.
  by_contra hne
  have hexact : c.frameAt (c.timecode i) * c.samplesPerFrame * 1000 / c.sampleRate ≤ ceiling := by
    rw [timecode_of_pos hrate (c.frameAt (c.timecode i)), saturate] at hstart
    omega
  have hlt := timecode_lt_timecode hrate hlong hexact (show i < c.frameAt (c.timecode i) by omega)
  omega

/-- **Starts and frames are inverse to each other.** Take any pace that two words of 32 bits can
state, neither of them zero. No result on the way to a start or to a frame leaves its word. A frame
starts by a millisecond below the ceiling exactly when it comes no later than the frame playing
then, which is therefore the last that starts by it; both directions are monotone. If the frames
last a millisecond, as those of every header do, the start of a frame leads back to the frame,
unless it is told to start at the ceiling. -/
theorem timecode_frameAt_adjoint (hsamples : 1 ≤ c.samplesPerFrame)
    (hsamples' : c.samplesPerFrame < 2 ^ 32) (hrate : 1 ≤ c.sampleRate)
    (hrate' : c.sampleRate < 2 ^ 32) :
    (∀ i ≤ ceiling, c.timecode? i = some (c.timecode i)) ∧
      (∀ t ≤ ceiling, c.frameAt? t = some (c.frameAt t)) ∧
      (∀ i ≤ ceiling, ∀ t < ceiling, c.timecode i ≤ t ↔ i ≤ c.frameAt t) ∧
      (∀ t < ceiling, IsGreatest {i | i ≤ ceiling ∧ c.timecode i ≤ t} (c.frameAt t)) ∧
      Monotone c.timecode ∧ Monotone c.frameAt ∧
      (c.sampleRate ≤ c.samplesPerFrame * 1000 →
        ∀ i ≤ ceiling, c.timecode i < ceiling → c.frameAt (c.timecode i) = i) ∧
      ∀ bs h, Header.ofBytes? bs = some h → h.clock.sampleRate ≤ h.clock.samplesPerFrame * 1000 := by
  have hiff : ∀ i ≤ ceiling, ∀ t < ceiling, c.timecode i ≤ t ↔ i ≤ c.frameAt t :=
    fun i hi t ht => timecode_le_iff hsamples hrate hi ht
  refine ⟨fun i hi => timecode?_eq hsamples' hi, fun t ht => frameAt?_eq hsamples' hrate' ht, hiff,
    ?_, timecode_monotone c, frameAt_monotone c, ?_, ?_⟩
  · intro t ht
    have hframe := frameAt_le_ceiling c t
    refine ⟨⟨hframe, (hiff _ hframe t ht).mpr le_rfl⟩, ?_⟩
    rintro i ⟨hi, hstart⟩
    exact (hiff i hi t ht).mp hstart
  · intro hlong i hi hbelow
    exact frameAt_timecode hsamples hrate hlong hi hbelow
  · intro bs h H
    obtain ⟨hlow, -, -, hfast⟩ := Header.clock_bounds H
    show h.sampleRate ≤ h.samplesPerFrame * 1000
    omega

/-- At the largest pace a frame lasts a second. The last word is far behind the last frame that is
told exactly, which still leads back to itself. -/
theorem timecode_frameAt_adjoint_largest :
    let c : Clock := ⟨2 ^ 32 - 1, 2 ^ 32 - 1⟩
    c.timecode? ceiling = some ceiling ∧ c.frameAt? ceiling = some 18446744073709551 ∧
      c.timecode 18446744073709551 = 18446744073709551000 ∧
      c.frameAt 18446744073709551000 = 18446744073709551 ∧
      ∀ i ≤ ceiling, c.timecode i ≤ ceiling - 1 ↔ i ≤ 18446744073709551 := by
  intro c
  obtain ⟨htimecode, hframeAt, hiff, -, -, -, hback, -⟩ :=
    timecode_frameAt_adjoint (c := c) (by decide) (by decide) (by decide) (by decide)
  have hstart : c.timecode 18446744073709551 = 18446744073709551000 := by decide
  have hlast : c.frameAt (ceiling - 1) = 18446744073709551 := by decide
  refine ⟨(htimecode ceiling le_rfl).trans (by decide), (hframeAt ceiling le_rfl).trans (by decide),
    hstart, ?_, ?_⟩
  · rw [← hstart]
    exact hback (by decide) _ (by decide) (by rw [hstart]; decide)
  · intro i hi
    rw [← hlast]
    exact hiff i hi (ceiling - 1) (by decide)

end Clock

end MpegAudio
