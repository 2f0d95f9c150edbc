import MpegAudio.Error
import MpegAudio.Header
import MpegAudio.Source

/-!
# Finding frames

A stream has no table of its frames: a reader slides a window of four bytes along until the window
holds a frame header. From there the frame has a known length, and the next header should follow.

The window outlives a search that finds nothing, so that the next search goes on where this one
ended. Bytes that were read for another purpose can be given back to the window.

## Main definitions

* `Synchronizer` — a source, the window, and the frame held at the moment.
* `Synchronizer.search budget` — examines up to `budget` positions for a header.
* `Synchronizer.require budget` — the same, where it is an error to find nothing.
* `Synchronizer.fill` — makes sure that a whole frame is held.
* `Synchronizer.release` — lets go of the frame, so that the next one is looked for.
-/

namespace MpegAudio

/-- A frame whose header has been found, with those of its bytes that have been read: at first the
header, and later the whole frame. -/
structure Held where
  header : Header
  bytes : List UInt8
  deriving DecidableEq, Repr

/-- A source with the state of the search for frames in it. -/
structure Synchronizer where
  source : Source
  /-- The last bytes read, at most four, that may belong to a header still to be found. -/
  window : List UInt8 := []
  held : Option Held := none
  /-- Where the frame found last starts. -/
  frameStart : Nat := 0

/-- The outcome of a search. -/
inductive Search where
  | found
  /-- No header, at so many positions examined. -/
  | missed (examined : Nat)
  deriving DecidableEq, Repr

namespace Synchronizer

/-- A step of the search. It leaves a state behind whether it fails or not. -/
abbrev Action := EStateM Fault Synchronizer

/-- A step of the source as a step of the search. -/
def onSource {α : Type} (act : Source.Action α) : Action α := fun s =>
  match act s.source with
  | .ok a source => .ok a { s with source := source }
  | .error fault source => .error fault { s with source := source }

/-- A byte put behind the last three of a window. -/
def slid (window : List UInt8) (b : UInt8) : List UInt8 :=
  window.drop (window.length - 3) ++ [b]

/-- The header of the frame that is held. -/
def header? (s : Synchronizer) : Option Header := s.held.map (·.header)

/-- The bytes of the frame that is held, as far as they have been read. -/
def frame (s : Synchronizer) : List UInt8 := (s.held.map (·.bytes)).getD []

/-- The length of the frame that is held, and zero when there is none. -/
def frameSize (s : Synchronizer) : Nat := (s.header?.map (·.frameSize)).getD 0

/-- Lets go of the frame that is held and forgets the window. -/
def release (s : Synchronizer) : Synchronizer := { s with held := none, window := [] }

/-- Gives back one byte that was read for another purpose. Of the bytes that wait, the last three
can still be part of a header. -/
def giveBackByte (s : Synchronizer) (b : UInt8) : Synchronizer :=
  { s with window := s.window.drop (s.window.length - 2) ++ [b] }

/-- Gives back bytes that were read for another purpose, in the order in which they were read. -/
def giveBack (s : Synchronizer) (bs : List UInt8) : Synchronizer := bs.foldl giveBackByte s

/-- Reads `missing` bytes into the window, and says whether they were there. -/
def prime : (missing : Nat) → Action Bool
  | 0, s => .ok true s
  | missing + 1, s =>
    match onSource Source.readByte? s with
    | .error fault s => .error fault s
    | .ok none s => .ok false s
    | .ok (some b) s => prime missing { s with window := s.window ++ [b] }

/-- Takes the window, which holds a header, as the start of a frame. -/
def lock (s : Synchronizer) (header : Header) (window : List UInt8) : Synchronizer :=
  { s with
    window := []
    held := some ⟨header, window⟩
    frameStart := s.source.position - Header.size }

/-- Slides the window on by up to `budget` bytes, until it holds a header. It must hold three bytes
or more at the start; `examined` positions have been examined before. -/
def slide (examined : Nat) : (budget : Nat) → Action Search
  | 0, s => .ok (.missed examined) s
  | budget + 1, s =>
    match onSource Source.readByte? s with
    | .error fault s => .error fault s
    | .ok none s => .ok (.missed examined) s
    | .ok (some b) s =>
      let window := slid s.window b
      match Header.ofBytes? window with
      | some header => .ok .found (s.lock header window)
      | none => slide (examined + 1) budget { s with window := window }

/-- Lets go of the frame that is held and examines up to `budget` positions for the next header.
With a budget of zero nothing is read. -/
def search (budget : Nat) : Action Search := fun s =>
  let s := { s with held := none }
  if budget = 0 then .ok (.missed 0) s
  else
    match prime (3 - s.window.length) s with
    | .error fault s => .error fault s
    | .ok false s => .ok (.missed 0) s
    | .ok true s => slide 0 budget s

/-- Searches for a header that has to be there. -/
def require (budget : Nat) : EStateM Error Synchronizer Unit := fun s =>
  match search budget s with
  | .ok .found s => .ok () s
  | .ok (.missed examined) s => .error (.noFrame examined) s
  | .error fault s => .error (.source fault) s

/-- Reads the rest of a held frame, and says whether it was there. -/
def complete (f : Held) : Action Bool := fun s =>
  match s.source.readExact (f.header.frameSize - f.bytes.length) with
  | .ok rest source =>
    .ok true { s with source := source, held := some { f with bytes := f.bytes ++ rest } }
  | .error fault source =>
    if fault.IsEnd then .ok false { s with source := source }
    else .error fault { s with source := source }

/-- Makes sure that a whole frame is held: searches for one unless one is held already, over as
many positions as the longest frame has bytes, and reads the rest of it. -/
def fill : Action Bool := fun s =>
  match s.held with
  | some f => complete f s
  | none =>
    match search Header.maxFrameSize s with
    | .error fault s => .error fault s
    | .ok _ s =>
      match s.held with
      | none => .ok false s
      | some f => complete f s

end Synchronizer

end MpegAudio
