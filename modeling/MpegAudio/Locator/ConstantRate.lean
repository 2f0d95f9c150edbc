import MpegAudio.Header

/-!
# Finding a time at a constant bit rate

At a constant bit rate a frame has a constant length on average, and frame `i` starts `i` average
lengths after the first one. Padding keeps each frame within one byte of that place, so the place
rounded down is the start of the frame or the byte before it, and the search for the next header
finds the frame from either.
-/

namespace MpegAudio

/-- A stream of frames with a constant average length. -/
structure ConstantRate where
  /-- Where the first frame starts. -/
  start : Nat
  /-- The average length of a frame times the sample rate. -/
  scaledLength : Nat
  frameCount : Nat
  clock : Clock
  deriving DecidableEq, Repr

namespace ConstantRate

/-- The frames of a stream of `length` bytes whose first frame starts at `start`. Frames can take up
to one byte less than their average lengths come to, so one byte more is counted. -/
def ofHeader (start length : Nat) (header : Header) : ConstantRate :=
  let scaledLength := max header.scaledLength 1
  { start := start
    scaledLength := scaledLength
    frameCount := saturate ((length - start + 1) * header.sampleRate / scaledLength)
    clock := header.clock }

/-- The millisecond at which the last frame ends. -/
def length (c : ConstantRate) : Nat := c.clock.timecode c.frameCount

/-- The frame playing at millisecond `t`, the last one after the end. -/
def frameAt (c : ConstantRate) (t : Nat) : Nat := min (c.clock.frameAt t) (c.frameCount - 1)

/-- Where frame `i` starts, rounded down. -/
def position (c : ConstantRate) (i : Nat) : Nat :=
  saturate (c.start + saturate (i * c.scaledLength / max c.clock.sampleRate 1))

end ConstantRate

end MpegAudio
