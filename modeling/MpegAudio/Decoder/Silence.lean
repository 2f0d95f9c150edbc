import MpegAudio.Decoder.Stereo
import MpegAudio.Header

/-!
# Silent frames

A frame whose bytes after the header are all zero codes silence. A codec that knows only such frames
needs no more than the header: the frame has to be as long as its header says, and all frames have
to agree with the first one in sample rate and number of channels.
-/

namespace MpegAudio

/-- The sample rate and the number of channels of a stream. -/
structure Format where
  sampleRate : Nat
  channels : Nat
  deriving DecidableEq, Repr

/-- A codec of silent frames. The format is that of the first frame it accepted. -/
structure Silence where
  format : Option Format := none
  deriving DecidableEq, Repr

namespace Silence

/-- The header of a frame that is as long as it says. -/
def header? (frame : List UInt8) : Option Header :=
  (Header.ofBytes? frame).filter (·.frameSize = frame.length)

/-- Silence of the length of the frame, if the frame is accepted. -/
def decode (s : Silence) (frame : List UInt8) : Option Pcm × Silence :=
  match header? frame with
  | none => (none, s)
  | some header =>
    let format : Format := ⟨header.sampleRate, header.channels⟩
    if s.format.all (· = format) then
      let samples := Array.replicate (header.samplesPerFrame * header.channels) 0
      (some ⟨header.channels, header.samplesPerFrame, samples⟩, ⟨some format⟩)
    else (none, s)

/-- The format is kept for good. -/
instance : Codec Silence where
  decode := decode
  reset s := s

end Silence

end MpegAudio
