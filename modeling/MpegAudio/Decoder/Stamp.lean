import MpegAudio.Bytes
import MpegAudio.Decoder
import MpegAudio.Header

/-!
# Stamps in the place of audio

A stamp marks the output of each frame with a number instead of decoding it, so that the order and
the fate of the frames can be seen in the samples: the number of the call, or a number that the
frame itself carries.
-/

namespace MpegAudio

/-- Where the mark of a frame comes from. -/
inductive Stamp.Mark where
  /-- The number of calls before this one. -/
  | call
  /-- The number in the four bytes at an offset. A frame too short for it gives nothing. -/
  | number (offset : Nat)
  deriving DecidableEq, Repr

/-- Fills the output of each frame with its mark. -/
structure Stamp where
  mark : Stamp.Mark
  /-- The first so many frames give nothing. -/
  silent : Nat := 0
  /-- The pairs of samples each frame is said to give. When absent it is as many as the frame
  header announces. -/
  produce : Option Nat := none
  /-- The calls so far. -/
  calls : Nat := 0
  deriving DecidableEq, Repr

namespace Stamp

/-- The mark of a frame, unless there is none. Samples keep the low sixteen bits of a number. -/
def markOf? (s : Stamp) (frame : List UInt8) : Option Int16 :=
  if s.calls < s.silent then none
  else
    match s.mark with
    | .call => some (Int16.ofNat s.calls)
    | .number offset => (Bytes.number? frame offset).map Int16.ofNat

/-- The pairs of samples that a frame is said to give. -/
def countOf (s : Stamp) (frame : List UInt8) : Nat :=
  s.produce.getD (((Header.ofBytes? frame).map (·.samplesPerFrame)).getD 0)

/-- Marks the samples that a frame is said to give, as far as they fit. -/
def decode {n : Nat} (s : Stamp) (frame : List UInt8) (output : Vector Int16 n) : Decoded Stamp n :=
  let next := { s with calls := s.calls + 1 }
  match s.markOf? frame with
  | none => ⟨0, output, next⟩
  | some mark =>
    let count := s.countOf frame
    ⟨count, Vector.ofFn fun i => if i.val < 2 * count then mark else output[i], next⟩

instance : Decoder Stamp where
  decode := decode
  close s := s

end Stamp

end MpegAudio
