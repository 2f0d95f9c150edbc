import MpegAudio.Error
import MpegAudio.Locator.ConstantRate
import MpegAudio.Locator.Summary
import MpegAudio.Source

/-!
# Finding a time

How the place of a time is found depends on the stream: with the summary in its first frame, or
else by its constant bit rate, or not at all when its length is unknown.

## Main definitions

* `Locator` — the three ways.
* `Locator.choose` — the way for a stream with a given first frame.
* `Locator.target? l t` — the frame playing at millisecond `t` and its place.
* `Locator.seek l t` — takes a source there.
-/

namespace MpegAudio

/-- A way to find the place of a time. -/
inductive Locator where
  | summary (s : Summary)
  | constantRate (c : ConstantRate)
  /-- The length is unknown, and so is every place. -/
  | live
  deriving DecidableEq, Repr

/-- A frame and the place at which to look for it. -/
structure Target where
  frame : Nat
  position : Nat
  deriving DecidableEq, Repr

namespace Locator

/-- The way for a stream of which the first frame is given, with its start and its header. -/
def choose (start : Nat) (length : Option Nat) (header : Header) (frame : List UInt8) : Locator :=
  match length with
  | none => live
  | some length =>
    match Summary.ofFrame? start length header frame with
    | some s => summary s
    | none => constantRate (.ofHeader start length header)

/-- The first frame is a summary and no audio. -/
def isSummary : Locator → Bool
  | summary _ => true
  | constantRate _ | live => false

def name : Locator → String
  | summary _ => "xing"
  | constantRate _ => "constant-rate"
  | live => "stream"

def isSeekable : Locator → Bool
  | summary _ | constantRate _ => true
  | live => false

def frameCount : Locator → Option Nat
  | summary s => some s.frameCount
  | constantRate c => some c.frameCount
  | live => none

def duration : Locator → Option Duration
  | summary s => some (.ofMillis s.length)
  | constantRate c => some (.ofMillis c.length)
  | live => none

/-- The frame playing at millisecond `t`, and where it starts or nearly does. -/
def target? (l : Locator) (t : Nat) : Option Target :=
  match l with
  | summary s => some ⟨s.frameAt t, s.position (s.frameAt t)⟩
  | constantRate c => some ⟨c.frameAt t, c.position (c.frameAt t)⟩
  | live => none

/-- Takes a source to the frame playing at millisecond `t` and tells its number. -/
def seek (l : Locator) (t : Nat) : EStateM SeekError Source Nat := fun s =>
  match l.target? t with
  | none => .error .unsupported s
  | some target =>
    match s.seek target.position with
    | .ok () s => .ok target.frame s
    | .error fault s => .error (.source fault) s

end Locator

end MpegAudio
