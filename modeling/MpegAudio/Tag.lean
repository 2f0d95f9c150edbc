import MpegAudio.Source
import MpegAudio.Tag.Layout
import MpegAudio.Text

/-!
# Reading a tag

A tag may stand before the audio. Its frames are read one after another as far as they fit into the
declared size, and whatever the body holds, the source is left at the end that the tag declares. A
fault on the way loses the tag.
-/

namespace MpegAudio.Tag

/-- Reads the body of a frame if its text is to be kept. Text in an unknown encoding leaves the
table as it was. -/
def readText (frame : FrameHeader) (table : Table) : Source.Action Table :=
  match frame.key? with
  | none => pure table
  | some key => do
    match ← Source.readExact frame.size with
    | [] => pure table
    | encoding :: text =>
      match Text.decode? encoding text with
      | none => pure table
      | some text => pure (table.insert key text)

/-- Reads the frames from `start`, where the source stands, to `stop`. Padding ends them, and so
does a frame that would reach beyond `stop`. -/
def readFrames (r : Revision) (tagUnsynchronised : Bool) (stop start : Nat) (table : Table) :
    Source.Action Table :=
  if _h : start + r.headerLength ≤ stop then do
    let raw ← Source.readExact r.headerLength
    match FrameHeader.ofBytes? r tagUnsynchronised raw with
    | none => pure table
    | some frame =>
      let body := start + r.headerLength
      if stop - body < frame.size then pure table
      else do
        let table ← readText frame table
        Source.seek (body + frame.size)
        readFrames r tagUnsynchronised stop (body + frame.size) table
  else pure table
termination_by stop - start
decreasing_by
  have := r.headerLength_pos
  omega

/-- Passes over an extension. Its size counts itself from version 4 on, and before that does not. -/
def skipExtension (major : Nat) : Source.Action Unit := do
  let size ← Source.readExact 4
  if 4 ≤ major then Source.skip (Bytes.syncsafe size - 4) else Source.skip (Bytes.bigEndian size)

/-- Reads what is known of a tag body that ends at `stop`. -/
def readBody (p : Preamble) (stop : Nat) : Source.Action Table := do
  if p.hasExtension then skipExtension p.major
  match p.frames? with
  | none => pure .empty
  | some r => do
    let start := (← get).position
    readFrames r p.unsynchronised stop start .empty

/-- Reads the tag at the position of the source and goes to its end. Where there is no tag, the
three bytes looked at are given back along with an empty table. -/
def read : Source.Action (Table × List UInt8) := do
  let start ← Source.readExact marker.length
  if start ≠ marker then pure (.empty, start)
  else do
    let p := Preamble.ofBytes (← Source.readExact Preamble.length)
    let stop := (← get).position + p.size
    let table ← if p.isKnown then readBody p stop else pure .empty
    Source.seek (stop + p.footerLength)
    pure (table, [])

end MpegAudio.Tag
