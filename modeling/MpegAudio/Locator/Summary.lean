import MpegAudio.Bytes
import MpegAudio.Header

/-!
# Finding a time with a summary

An encoder that varies the bit rate can put a summary into a first frame of its own: how many
frames and bytes of audio follow, and for each percent of the playing time how far into the bytes
it starts, in 256ths. Times between two entries are interpolated.

The place found is only near the frame wanted; the search for the next header does the rest.
-/

namespace MpegAudio

/-- What a summary says about its stream. -/
structure Summary where
  /-- Where the frame after the summary starts. -/
  dataStart : Nat
  /-- The bytes of audio from there on. -/
  dataSize : Nat
  frameCount : Nat
  /-- For each percent of the playing time, how many 256ths of the audio bytes come before it. -/
  table : Vector UInt8 100
  clock : Clock
  deriving DecidableEq, Repr

namespace Summary

/-- The marks that a summary can start with: `Xing`, and `Info` where the rate does not vary. -/
def marks : List (List UInt8) := [[0x58, 0x69, 0x6E, 0x67], [0x49, 0x6E, 0x66, 0x6F]]

/-- The table of contents at `offset`. -/
def table? (bs : List UInt8) (offset : Nat) : Option (Vector UInt8 100) :=
  let part := (bs.drop offset).take 100
  if h : part.length = 100 then some ⟨part.toArray, by simpa using h⟩ else none

/-- The summary in a first frame that starts at `start` in a stream of `length` bytes. A summary is
of use only with all of its three parts, which its three lowest flags announce, and with at least
one frame. The frame that holds it has no audio of its own. -/
def ofFrame? (start length : Nat) (header : Header) (frame : List UInt8) : Option Summary := do
  let offset := header.sideInfoEnd
  let mark ← Bytes.field? frame offset 4
  guard (mark ∈ marks)
  let flags ← Bytes.number? frame (offset + 4)
  guard (flags % 8 = 7)
  let frameCount ← Bytes.number? frame (offset + 8)
  let byteCount ← Bytes.number? frame (offset + 12)
  let table ← table? frame (offset + 16)
  guard (frameCount ≠ 0)
  let dataStart := start + header.frameSize
  some
    { dataStart := dataStart
      dataSize := min byteCount (length - dataStart)
      frameCount := frameCount
      table := table
      clock := header.clock }

def length (s : Summary) : Nat := s.clock.timecode s.frameCount

def frameAt (s : Summary) (t : Nat) : Nat := min (s.clock.frameAt t) (s.frameCount - 1)

/-- A percentage kept between zero and a hundred. -/
def clampPercent (p : Float) : Float := if p < 0.0 then 0.0 else if 100.0 < p then 100.0 else p

/-- How many percent of the playing time lie before millisecond `t`. -/
def percent (s : Summary) (t : Nat) : Float :=
  clampPercent (t.toUInt64.toFloat * 100.0 / s.length.toUInt64.toFloat)

/-- The 256ths of the audio bytes that lie before a percentage of the playing time, on the straight
line between the entries on its two sides. After the last entry the line goes on to the end. -/
def interpolate (table : Vector UInt8 100) (percent : Float) : Float :=
  let index := min percent.toUInt64.toNat 99
  have : index < 100 := by omega
  let lower := table[index].toFloat
  let upper := if h : index + 1 < 100 then table[index + 1].toFloat else 256.0
  lower + (upper - lower) * (percent - index.toUInt64.toFloat)

/-- How far into the audio bytes millisecond `t` is. -/
def offset (s : Summary) (t : Nat) : Nat :=
  (interpolate s.table (s.percent t) * s.dataSize.toUInt64.toFloat / 256.0).toUInt64.toNat

/-- About where frame `i` starts, never beyond the audio bytes. A stream too short to last one
millisecond has all its frames at the start. -/
def position (s : Summary) (i : Nat) : Nat :=
  if s.length = 0 then s.dataStart
  else s.dataStart + min (s.offset (s.clock.timecode i)) s.dataSize

end Summary

end MpegAudio
