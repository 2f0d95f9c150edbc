/-!
# Flags of a tag frame

Each frame of a tag carries sixteen flag bits. Revisions 3 and 4 of the format place them
differently; revision 3 has no bit for unsynchronisation, which there belongs to the whole tag.
-/

namespace MpegAudio.Tag

/-- What the flag bits of a frame mean. -/
structure Flags where
  /-- Drop the frame when the tag is altered and the frame is not known. -/
  tagAlterPreservation : Bool := false
  /-- Drop the frame when the file is altered and the frame is not known. -/
  fileAlterPreservation : Bool := false
  readOnly : Bool := false
  /-- The frame belongs to a group of frames. -/
  grouped : Bool := false
  compressed : Bool := false
  encrypted : Bool := false
  /-- Zero bytes were put in where the body looked like the start of an audio frame. -/
  unsynchronised : Bool := false
  /-- The body starts with its own length. -/
  hasDataLength : Bool := false
  deriving DecidableEq, Repr, Inhabited

namespace Flags

/-- The layout of revision 3, with the unsynchronisation flag of the whole tag. -/
def ofRevision3 (bits : Nat) (tagUnsynchronised : Bool) : Flags where
  tagAlterPreservation := bits.testBit 15
  fileAlterPreservation := bits.testBit 14
  readOnly := bits.testBit 13
  compressed := bits.testBit 7
  encrypted := bits.testBit 6
  grouped := bits.testBit 5
  unsynchronised := tagUnsynchronised

/-- The layout of revision 4. -/
def ofRevision4 (bits : Nat) : Flags where
  tagAlterPreservation := bits.testBit 14
  fileAlterPreservation := bits.testBit 13
  readOnly := bits.testBit 12
  grouped := bits.testBit 6
  compressed := bits.testBit 3
  encrypted := bits.testBit 2
  unsynchronised := bits.testBit 1
  hasDataLength := bits.testBit 0

/-- The body of the frame is the value itself, with nothing added or changed. -/
def isRaw (f : Flags) : Bool :=
  !(f.compressed || f.encrypted || f.unsynchronised || f.hasDataLength)

end Flags

end MpegAudio.Tag
