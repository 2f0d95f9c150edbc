import MpegAudio.Timecode

/-!
# Frame headers

A Layer III frame starts with four bytes that give its length and the layout of its audio:

    AAAAAAAA AAABBCCD EEEEFFGH IIJJKLMM

`A` is all ones; `B` the version; `C` the layer, `01` for Layer III; `D` is zero when a checksum
follows; `E` indexes the bit rate and `F` the sample rate; `G` marks a padding byte; `I` is the
channel mode; `M` the emphasis. The other bits do not matter here.

Frames of other layers are not recognised, which also keeps arbitrary data from looking like a
frame too often.

## Main definitions

* `Header` — what the four bytes say, together with the frame length that follows from it.
* `Header.ofBytes? bs` — the header at the start of `bs`.
* `Header.sideInfoEnd h` — where the side information of the frame ends.
* `Header.scaledLength h` — the average frame length times the sample rate.
-/

namespace MpegAudio

/-- The version of the standard that a frame follows. -/
inductive Version where
  | mpeg1
  | mpeg2
  /-- The extension of MPEG-2 to very low sample rates. -/
  | mpeg25
  deriving DecidableEq, Repr, Inhabited

namespace Version

/-- The version behind its two header bits; `01` is reserved. -/
def ofBits? : Nat → Option Version
  | 0 => some mpeg25
  | 2 => some mpeg2
  | 3 => some mpeg1
  | _ => none

/-- The bit rates in kilobits per second that the indices 1 to 14 stand for. -/
def bitrates : Version → List Nat
  | mpeg1 => [32, 40, 48, 56, 64, 80, 96, 112, 128, 160, 192, 224, 256, 320]
  | mpeg2 | mpeg25 => [8, 16, 24, 32, 40, 48, 56, 64, 80, 96, 112, 128, 144, 160]

/-- The bit rate behind its index. Index 0 leaves the rate open and 15 is reserved: neither gives
a frame a length. -/
def bitrate? (v : Version) : Nat → Option Nat
  | 0 => none
  | i + 1 => v.bitrates[i]?

/-- The sample rates in hertz that the indices 0 to 2 stand for. -/
def sampleRates : Version → List Nat
  | mpeg1 => [44100, 48000, 32000]
  | mpeg2 => [22050, 24000, 16000]
  | mpeg25 => [11025, 12000, 8000]

/-- The samples of one channel in one frame. -/
def samplesPerFrame : Version → Nat
  | mpeg1 => 1152
  | mpeg2 | mpeg25 => 576

end Version

/-- How the channels of a frame belong together. -/
inductive ChannelMode where
  | stereo
  | jointStereo
  | dualChannel
  | mono
  deriving DecidableEq, Repr, Inhabited

namespace ChannelMode

def ofBits : Nat → ChannelMode
  | 0 => stereo
  | 1 => jointStereo
  | 2 => dualChannel
  | _ => mono

/-- The number of channels coded in the frame. -/
def channels : ChannelMode → Nat
  | mono => 1
  | stereo | jointStereo | dualChannel => 2

end ChannelMode

/-- What a frame header says. -/
structure Header where
  version : Version
  /-- A checksum follows the header. -/
  hasChecksum : Bool
  /-- Kilobits per second. -/
  bitrate : Nat
  /-- Samples of one channel per second. -/
  sampleRate : Nat
  /-- The frame is one byte longer than its bit rate asks for. -/
  padded : Bool
  channelMode : ChannelMode
  /-- Bytes in the whole frame, these four included. -/
  frameSize : Nat
  /-- Samples of one channel in the frame. -/
  samplesPerFrame : Nat
  deriving DecidableEq, Repr, Inhabited

namespace Header

/-- The length of a header in bytes. -/
def size : Nat := 4

/-- The length in bytes of the longest frame that a header can announce: 320 kilobits per second
at 32000 Hz with padding. -/
def maxFrameSize : Nat := 1441

/-- The header with these settings. A frame of `s` samples lasts `s / sampleRate` seconds, and at
`bitrate * 1000 / 8` bytes per second that is the length below, rounded down. -/
def ofSettings (version : Version) (hasChecksum : Bool) (bitrate sampleRate : Nat) (padded : Bool)
    (channelMode : ChannelMode) : Header where
  version := version
  hasChecksum := hasChecksum
  bitrate := bitrate
  sampleRate := sampleRate
  padded := padded
  channelMode := channelMode
  frameSize := version.samplesPerFrame / 8 * bitrate * 1000 / sampleRate + padded.toNat
  samplesPerFrame := version.samplesPerFrame

/-- The header at the start of a byte string, if a valid Layer III header stands there. -/
def ofBytes? : List UInt8 → Option Header
  | b₀ :: b₁ :: b₂ :: b₃ :: _ => do
    let (b₀, b₁, b₂, b₃) := (b₀.toNat, b₁.toNat, b₂.toNat, b₃.toNat)
    guard (b₀ = 0xFF ∧ b₁ / 32 = 7)
    let version ← Version.ofBits? (b₁ / 8 % 4)
    guard (b₁ / 2 % 4 = 1)
    let bitrate ← version.bitrate? (b₂ / 16)
    let sampleRate ← version.sampleRates[b₂ / 4 % 4]?
    guard (b₃ % 4 ≠ 2)
    some (ofSettings version (b₁ % 2 = 0) bitrate sampleRate (b₂ / 2 % 2 = 1)
      (ChannelMode.ofBits (b₃ / 64)))
  | _ => none

def channels (h : Header) : Nat := h.channelMode.channels

def clock (h : Header) : Clock := ⟨h.samplesPerFrame, h.sampleRate⟩

/-- The offset in the frame at which the side information ends and a summary may stand. -/
def sideInfoEnd (h : Header) : Nat :=
  size + match h.version, h.channelMode with
    | .mpeg1, .mono => 17
    | .mpeg1, _ => 32
    | _, .mono => 9
    | _, _ => 17

/-- The average length of a frame times the sample rate. An encoder pads single frames so that
the stream keeps to this average, which is seldom a whole number of bytes; the product is. -/
def scaledLength (h : Header) : Nat := h.samplesPerFrame / 8 * h.bitrate * 1000

/-- Only the first four bytes matter. -/
theorem ofBytes?_append {bs : List UInt8} (h : size ≤ bs.length) (rest : List UInt8) :
    ofBytes? (bs ++ rest) = ofBytes? bs := by
  match bs, h with
  | b₀ :: b₁ :: b₂ :: b₃ :: _, _ => rfl

end Header

end MpegAudio
