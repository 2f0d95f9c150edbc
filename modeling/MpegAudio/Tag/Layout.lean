import MpegAudio.Bytes
import MpegAudio.Tag.Flags
import MpegAudio.Tag.Table

/-!
# The layout of a tag

A tag starts with a marker of three letters and a preamble of seven bytes. Then, within the size
that the preamble declares, come an extension if there is one, the frames, and padding of zeros; a
footer may follow. A frame is a header and a body. The revisions of the format differ in the layout
of the frame headers and in how sizes are written.

## Main definitions

* `Preamble` — the seven bytes after the marker.
* `Revision` — the revisions whose frames can be read.
* `FrameHeader` — identifier, size and flags of one frame.
-/

namespace MpegAudio.Tag

/-- The three letters with which a tag starts. -/
def marker : List UInt8 := [0x49, 0x44, 0x33]

/-- The revisions whose frames can be read. -/
inductive Revision where
  | two
  | three
  | four
  deriving DecidableEq, Repr

namespace Revision

/-- The revision behind the major version number of a tag. -/
def ofMajor? : Nat → Option Revision
  | 2 => some two
  | 3 => some three
  | 4 => some four
  | _ => none

def headerLength : Revision → Nat
  | two => 6
  | three | four => 10

theorem headerLength_pos (r : Revision) : 0 < r.headerLength := by
  cases r <;> decide

end Revision

/-- What a tag says about itself. -/
structure Preamble where
  major : Nat
  unsynchronised : Bool
  /-- Says that the tag has an extension, or in revision 2 that it is compressed. -/
  extended : Bool
  hasFooter : Bool
  /-- The bytes after the preamble, without a footer. -/
  size : Nat
  deriving DecidableEq, Repr, Inhabited

namespace Preamble

def length : Nat := 7

/-- The preamble in seven bytes: major version, minor version, flags, and a size. -/
def ofBytes (bs : List UInt8) : Preamble :=
  let flags := Bytes.bigEndian ((bs.drop 2).take 1)
  { major := Bytes.bigEndian (bs.take 1)
    unsynchronised := flags.testBit 7
    extended := flags.testBit 6
    hasFooter := flags.testBit 4
    size := Bytes.syncsafe (bs.drop 3) }

/-- The body has the layout of a known version, though its frames need not be readable. -/
def isKnown (p : Preamble) : Bool := 2 ≤ p.major && p.major ≤ 5

/-- The body was compressed as a whole, in a way that was never laid down. -/
def isCompressed (p : Preamble) : Bool := p.major == 2 && p.extended

/-- An extension stands before the frames. -/
def hasExtension (p : Preamble) : Bool := p.extended && !p.isCompressed

/-- The revision of the frames, if they can be read. -/
def frames? (p : Preamble) : Option Revision :=
  if p.isCompressed then none else Revision.ofMajor? p.major

/-- The length of the footer, which older versions do not have. -/
def footerLength (p : Preamble) : Nat := if 4 ≤ p.major ∧ p.hasFooter then 10 else 0

end Preamble

/-- The header of a frame. -/
structure FrameHeader where
  /-- Four bytes, of which a frame of revision 2 gives three. -/
  id : List UInt8
  /-- The bytes in the body. -/
  size : Nat
  flags : Flags
  deriving DecidableEq, Repr

namespace FrameHeader

/-- The frame header in the bytes that a revision gives it, under the unsynchronisation flag of the
tag. There is none where the first byte is zero: that is padding. -/
def ofBytes? (r : Revision) (tagUnsynchronised : Bool) (bs : List UInt8) : Option FrameHeader :=
  if bs.head? = some 0 then none
  else
    let size := (bs.drop 4).take 4
    let flags := Bytes.bigEndian ((bs.drop 8).take 2)
    some <|
      match r with
      | .two =>
        { id := bs.take 3 ++ [0]
          size := Bytes.bigEndian ((bs.drop 3).take 3)
          flags := { unsynchronised := tagUnsynchronised } }
      | .three =>
        { id := bs.take 4
          size := Bytes.bigEndian size
          flags := .ofRevision3 flags tagUnsynchronised }
      | .four =>
        { id := bs.take 4
          size := Bytes.syncsafe size
          flags := .ofRevision4 flags }

/-- The key under which the text of the frame is kept. A body that is empty or not stored as it is
has no text. -/
def key? (f : FrameHeader) : Option Key :=
  if f.flags.isRaw ∧ 0 < f.size then Key.ofBytes? f.id else none

end FrameHeader

end MpegAudio.Tag
