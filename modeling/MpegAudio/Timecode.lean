import MpegAudio.Saturation

/-!
# Frames and times

A stream with a fixed sample rate and a fixed number of samples per frame starts its frames at
fixed times. Times are asked for as durations and computed in whole milliseconds, which loses the
fraction; the two directions are rounded so that the time reported for a frame leads back to it.

## Main definitions

* `Duration` — an amount of time, exact to the nanosecond.
* `Clock` — samples per frame and sample rate.
* `Clock.timecode c i` — the millisecond at which frame `i` starts.
* `Clock.frameAt c t` — the last frame that starts at or before millisecond `t`.
-/

namespace MpegAudio

/-- An amount of time. -/
structure Duration where
  nanoseconds : Nat
  deriving DecidableEq, Repr, Inhabited

namespace Duration

def ofParts (seconds nanoseconds : Nat) : Duration := ⟨seconds * 1000000000 + nanoseconds⟩

def ofMillis (t : Nat) : Duration := ⟨t * 1000000⟩

def seconds (d : Duration) : Nat := d.nanoseconds / 1000000000

def subsecond (d : Duration) : Nat := d.nanoseconds % 1000000000

/-- The whole milliseconds, up to the ceiling. -/
def toMillis (d : Duration) : Nat := saturate (d.nanoseconds / 1000000)

theorem ofParts_seconds_subsecond (d : Duration) : ofParts d.seconds d.subsecond = d := by
  simp only [ofParts, seconds, subsecond, Nat.div_add_mod']

theorem toMillis_ofMillis {t : Nat} (h : t ≤ ceiling) : (ofMillis t).toMillis = t := by
  simp [ofMillis, toMillis, saturate_of_le h]

end Duration

/-- How fast frames pass: samples of one channel per frame, and samples of one channel per
second. -/
structure Clock where
  samplesPerFrame : Nat
  sampleRate : Nat
  deriving DecidableEq, Repr, Inhabited

namespace Clock

/-- The millisecond at which frame `i` starts, rounded down. Without a sample rate every frame
starts at zero. -/
def timecode (c : Clock) (i : Nat) : Nat :=
  if c.sampleRate = 0 then 0
  else saturate (i * c.samplesPerFrame * 1000 / c.sampleRate)

/-- The last frame that starts at or before millisecond `t`: the last `i` with
`i * samplesPerFrame * 1000 < (t + 1) * sampleRate`. Without samples in a frame it is frame zero. -/
def frameAt (c : Clock) (t : Nat) : Nat :=
  if c.samplesPerFrame = 0 then 0
  else saturate (((t + 1) * c.sampleRate - 1) / (c.samplesPerFrame * 1000))

end Clock

end MpegAudio
