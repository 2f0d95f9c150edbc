import MpegAudio.Decoder

/-!
# Stereo from any channels

A codec gives interleaved samples in as many channels as its stream has. Two of them are passed on:
the first two, or the only one twice.
-/

namespace MpegAudio

/-- Interleaved samples in some number of channels. -/
structure Pcm where
  channels : Nat
  /-- Samples of one channel. -/
  frames : Nat
  samples : Array Int16
  deriving DecidableEq, Repr

/-- Writes pairs from group `k` of `channels` samples on, while there are frames left to write,
samples for a whole group and room for a pair. A pair is the first two samples of its group, or the
only one twice. Tells up to which group it came. -/
def writePairs {n : Nat} (samples : Array Int16) (channels : Nat) :
    (frames k : Nat) → (output : Vector Int16 n) → Nat × Vector Int16 n
  | 0, k, output => (k, output)
  | frames + 1, k, output =>
    if h : (k + 1) * channels ≤ samples.size ∧ 2 * k + 1 < n then
      let left := samples.getD (k * channels) 0
      let right := if 1 < channels then samples.getD (k * channels + 1) 0 else left
      writePairs samples channels frames (k + 1)
        ((output.set (2 * k) left).set (2 * k + 1) right)
    else (k, output)

/-- Writes up to `frames` pairs taken from interleaved samples to the start of the buffer, and tells
how many. The rest of the buffer stays as it is. -/
def toStereo {n : Nat} (samples : Array Int16) (channels frames : Nat) (output : Vector Int16 n) :
    Nat × Vector Int16 n :=
  writePairs samples channels frames 0 output

/-- A codec: what it makes of a frame, and the codec after it. -/
class Codec (κ : Type) where
  decode : κ → (frame : List UInt8) → Option Pcm × κ
  /-- Forgets what was carried over from earlier frames. -/
  reset : κ → κ

/-- The decoder made of a codec. -/
structure Stereo (κ : Type) where
  codec : κ
  deriving DecidableEq, Repr

namespace Stereo

variable {κ : Type} [Codec κ]

/-- The stereo part of what the codec makes of a frame. A frame that it rejects gives nothing. -/
def decode {n : Nat} (s : Stereo κ) (frame : List UInt8) (output : Vector Int16 n) :
    Decoded (Stereo κ) n :=
  match Codec.decode s.codec frame with
  | (none, codec) => ⟨0, output, ⟨codec⟩⟩
  | (some pcm, codec) =>
    let (count, output) := toStereo pcm.samples (max pcm.channels 1) pcm.frames output
    ⟨count, output, ⟨codec⟩⟩

instance : Decoder (Stereo κ) where
  decode := decode
  close s := ⟨Codec.reset s.codec⟩

end Stereo

end MpegAudio
