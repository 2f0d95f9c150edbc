import MpegAudio.Locator
import MpegAudio.Synchronizer
import MpegAudio.Tag

/-!
# The headers of a stream

Before anything is played the tag is read, the first frame is found, and from it follow the pace of
the stream and the way to find a time in it. A first frame that holds a summary is passed over; any
other is kept to be played.
-/

namespace MpegAudio

/-- What the headers tell about a stream. -/
structure Track where
  tags : Tag.Table
  clock : Clock
  locator : Locator

namespace Track

/-- A step on the headers. It leaves a state behind whether it fails or not. -/
abbrev Action := EStateM Error Synchronizer

/-- Reads the tag and gives back the bytes that are none of it. -/
def skipTag : Synchronizer.Action Tag.Table := fun s =>
  match Synchronizer.onSource Tag.read s with
  | .ok (tags, unread) s => .ok tags (s.giveBack unread)
  | .error fault s => .error fault s

/-- Reads the tag. Where the data ends inside it, there is no frame to be found. -/
def readTags : Action Tag.Table := fun s =>
  match skipTag s with
  | .ok tags s => .ok tags s
  | .error fault s => .error (if fault.IsEnd then .noFrame 0 else .source fault) s

/-- Reads the rest of the first frame, as far as it is there, and chooses the way to find times. -/
def readLocator (header : Header) : Action Locator := fun s =>
  match s.fill with
  | .error fault s => .error (.source fault) s
  | .ok _ s =>
    let locator := Locator.choose s.frameStart s.source.length header s.frame
    .ok locator (if locator.isSummary then s.release else s)

/-- Reads the headers of a stream. -/
def read (limit : Nat) : Action Track := do
  let tags ← readTags
  Synchronizer.require limit
  match (← get).header? with
  | none => throw (.noFrame limit)
  | some header =>
    let locator ← readLocator header
    pure { tags := tags, clock := header.clock, locator := locator }

end Track

end MpegAudio
