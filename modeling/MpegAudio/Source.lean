import MpegAudio.Medium
import MpegAudio.Saturation

/-!
# Byte sources

A source reads exactly as many bytes as it is asked for from a medium that gives them in pieces. It
repeats interrupted reads and keeps its own account of the position, so that a caller can tell
where it stands after any failure.

## Main definitions

* `Source` — a medium, the position, and the content length if it is known.
* `Source.readExact n` — the next `n` bytes, or a fault and no bytes.
* `Source.readByte?` — the next byte, or nothing at the end of the data.
* `Source.seek`, `Source.skip` — take up another position.

A read that fails has still consumed what it was given; a seek that fails has moved nothing.
-/

namespace MpegAudio

/-- A medium with an account of the position. -/
structure Source where
  medium : Medium
  /-- Where the next byte will be read. -/
  position : Nat
  /-- How many bytes there are to be, as far as that is known. -/
  length : Option Nat

namespace Source

/-- A step on a source. It leaves a source behind whether it fails or not. -/
abbrev Action := EStateM Fault Source

/-- The source over a medium, starting at its cursor. -/
def ofMedium (medium : Medium) (length : Option Nat) : Source := ⟨medium, medium.cursor, length⟩

/-- The source with the position moved on by `n` bytes. -/
def advance (s : Source) (n : Nat) : Source := { s with position := s.position + n }

/-- Reads on until `wanted` bytes are together, `got` being those read so far. -/
def gather (wanted : Nat) (got : Array UInt8) (s : Source) :
    EStateM.Result Fault Source (List UInt8) :=
  if wanted ≤ got.size then .ok got.toList (s.advance got.size)
  else
    match Medium.ask (wanted - got.size) s.medium with
    | .error fault medium => .error fault ({ s with medium := medium }.advance got.size)
    | .ok part medium =>
      if part.size = 0 then .error .endOfData ({ s with medium := medium }.advance got.size)
      else gather wanted (got ++ part) { s with medium := medium }
termination_by wanted - got.size
decreasing_by
  simp only [Array.size_append]
  omega

/-- The next `n` bytes. With a fault the bytes read before it are gone, and the position is past
them. -/
def readExact (n : Nat) : Action (List UInt8) := gather n #[]

/-- The next byte, and none where the data ends. -/
def readByte? : Action (Option UInt8) := fun s =>
  match readExact 1 s with
  | .ok bs s => .ok bs.head? s
  | .error fault s => if fault.IsEnd then .ok none s else .error fault s

/-- Takes up the position `target`. -/
def seek (target : Nat) : Action Unit := fun s =>
  match s.medium.seek target with
  | (.ok (), medium) => .ok () { s with medium := medium, position := target }
  | (.error fault, medium) => .error fault { s with medium := medium }

/-- Moves `count` bytes on without reading them. -/
def skip (count : Nat) : Action Unit := fun s => seek (saturate (s.position + count)) s

def remaining (s : Source) : Nat := s.medium.remaining

end Source

end MpegAudio
