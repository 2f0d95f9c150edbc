import MpegAudio.Timecode

/-!
# Sinks

A sink takes the audio of a stream. It is opened once the format is known, then takes blocks of
interleaved stereo samples and hears of each change of position, and is closed at the end. All that
matters about a sink is the order of these events.
-/

namespace MpegAudio

/-- What happens to a sink. -/
inductive Sink.Event where
  | opened (channels sampleRate : Nat)
  | block (samples : Array Int16)
  /-- Playback goes on from another time: the time asked for, and the start of the frame from which
  it really goes on. -/
  | sought (requested actual : Duration)
  | closed
  deriving DecidableEq, Repr

/-- Everything that has happened to a sink. -/
structure Recording where
  /-- The number of channels and the sample rate with which it was opened last. -/
  format : Option (Nat × Nat) := none
  /-- The samples of all blocks. -/
  samples : Array Int16 := #[]
  blocks : Nat := 0
  /-- The changes of position, each with the time asked for and the actual one. -/
  seeks : Array (Duration × Duration) := #[]
  closed : Bool := false
  deriving DecidableEq, Repr

namespace Recording

def record (r : Recording) : Sink.Event → Recording
  | .opened channels sampleRate => { r with format := some (channels, sampleRate) }
  | .block samples => { r with samples := r.samples ++ samples, blocks := r.blocks + 1 }
  | .sought requested actual => { r with seeks := r.seeks.push (requested, actual) }
  | .closed => { r with closed := true }

end Recording

end MpegAudio
