/-!
# Decoders

A decoder turns one frame after another into interleaved stereo samples. It writes into a buffer
that it is given, which keeps what it does not overwrite, and may carry a state from frame to
frame.
-/

namespace MpegAudio

/-- The outcome of one frame: how many pairs of samples it gave, the buffer, and the decoder. -/
structure Decoded (δ : Type) (n : Nat) where
  /-- Pairs of samples, or as many as the decoder claims. -/
  count : Nat
  output : Vector Int16 n
  decoder : δ

/-- A decoder of frames. -/
class Decoder (δ : Type) where
  /-- Decodes one frame into a buffer. -/
  decode {n : Nat} (decoder : δ) (frame : List UInt8) (output : Vector Int16 n) : Decoded δ n
  /-- Gives up what the decoder holds. -/
  close : δ → δ

end MpegAudio
