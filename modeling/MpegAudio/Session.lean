import MpegAudio.Decoder
import MpegAudio.Sink
import MpegAudio.Synchronizer.Progress
import MpegAudio.Track

/-!
# Sessions

A session plays one stream: it reads the headers, hands frame after frame to a decoder and what
comes out to a sink, and can take up playback at another time. What reaches the decoder and the sink
is written to a journal.

The headers are read at most once. When that fails it fails for good, and nothing can be played.

## Main definitions

* `Session δ` — a session with a decoder in `δ`.
* `Session.setUp` — a session from its parts.
* `Session.readHeaders` — reads the headers.
* `Session.play limit` — plays up to the end of the stream, or up to `limit` frames.
* `Session.seekTo t` — takes up playback at the frame playing at time `t`.
* `Session.close` — closes the sink and the decoder.
-/

namespace MpegAudio

/-- What a session does to its decoder and its sink. -/
inductive Session.Event where
  /-- The decoder was given a frame. -/
  | decoded (frame : List UInt8)
  | decoderClosed
  | sink (event : Sink.Event)
  deriving DecidableEq, Repr

/-- What has become of the sink of a session. -/
inductive Session.Outlet where
  /-- The session was given no sink. -/
  | absent
  /-- The sink is to be opened once the format is known. -/
  | waiting
  | opened
  deriving DecidableEq, Repr

/-- What has become of the headers of a stream. -/
inductive Session.Headers where
  | unread
  | failed (error : Error)
  | known (track : Track)

/-- How playing came to an end without an error. -/
inductive Session.Outcome where
  | endOfStream
  /-- As many frames were played as were asked for. -/
  | stopped
  deriving DecidableEq, Repr

/-- What can be chosen about a session. -/
structure Session.Settings where
  /-- There is a sink for the output. -/
  hasSink : Bool := true
  /-- The positions at which the first frame is looked for. -/
  searchLimit : Nat := 2048
  deriving DecidableEq, Repr, Inhabited

/-- The samples of the longest frame in two channels. -/
def Session.outputSize : Nat := 2 * 1152

/-- A stream being played. -/
structure Session (δ : Type) where
  synchronizer : Synchronizer
  decoder : δ
  /-- The buffer that the decoder writes to. -/
  output : Vector Int16 Session.outputSize
  outlet : Session.Outlet
  headers : Session.Headers := .unread
  /-- The number of the next frame to be decoded. -/
  frameIndex : Nat := 0
  searchLimit : Nat
  closed : Bool := false
  journal : Array Session.Event := #[]

namespace Session

variable {δ : Type}

/-- A step of a session. It leaves a session behind whether it fails or not. -/
abbrev Action (δ : Type) := EStateM Error (Session δ)

/-- A session with a source and a decoder, both of which it needs. Nothing is read yet. -/
def setUp (source : Option Source) (decoder : Option δ) (settings : Settings) :
    Except SetupError (Session δ) :=
  match source, decoder with
  | none, _ => .error .missingSource
  | some _, none => .error .missingDecoder
  | some source, some decoder =>
    .ok
      { synchronizer := { source := source }
        decoder := decoder
        output := Vector.replicate outputSize 0
        outlet := if settings.hasSink then .waiting else .absent
        searchLimit := settings.searchLimit }

/-! ## What is known about the stream -/

/-- What the headers told, once they have been read. -/
def track? (s : Session δ) : Option Track :=
  match s.headers with
  | .known track => some track
  | .unread | .failed _ => none

def tags (s : Session δ) : Tag.Table := (s.track?.map (·.tags)).getD .empty

def sampleRate? (s : Session δ) : Option Nat := s.track?.map (·.clock.sampleRate)

/-- The way in which times are found. -/
def locator? (s : Session δ) : Option Locator := s.track?.map (·.locator)

def isSeekable (s : Session δ) : Bool := s.locator?.any (·.isSeekable)

def duration? (s : Session δ) : Option Duration := s.locator?.bind (·.duration)

/-- The number of channels in the output. -/
def channels : Nat := 2

/-! ## The journal -/

def note (s : Session δ) (event : Event) : Session δ :=
  { s with journal := s.journal.push event }

/-- Tells the sink of an event, if there is an open one. -/
def tell (s : Session δ) (event : Sink.Event) : Session δ :=
  match s.outlet with
  | .opened => s.note (.sink event)
  | .absent | .waiting => s

@[simp] theorem synchronizer_note (s : Session δ) (event : Event) :
    (s.note event).synchronizer = s.synchronizer := rfl

@[simp] theorem synchronizer_tell (s : Session δ) (event : Sink.Event) :
    (s.tell event).synchronizer = s.synchronizer := by
  unfold tell
  split <;> rfl

/-- Opens the sink that is waiting, if there is one. -/
def openSink (s : Session δ) (sampleRate : Nat) : Session δ :=
  match s.outlet with
  | .waiting => { s with outlet := .opened }.tell (.opened channels sampleRate)
  | .absent | .opened => s

/-- Everything that happened to the sink, as a recording. -/
def recording (s : Session δ) : Recording :=
  s.journal.foldl
    (fun r event =>
      match event with
      | .sink event => r.record event
      | .decoded _ | .decoderClosed => r)
    {}

/-! ## Operations -/

/-- Reads the headers and opens the sink. Only the first call does anything; later ones repeat its
outcome. -/
def readHeaders : Action δ Unit := fun s =>
  match s.headers with
  | .known _ => .ok () s
  | .failed error => .error error s
  | .unread =>
    match Track.read s.searchLimit s.synchronizer with
    | .error error synchronizer =>
      .error error { s with synchronizer := synchronizer, headers := .failed error }
    | .ok track synchronizer =>
      .ok ()
        ({ s with synchronizer := synchronizer, headers := .known track }.openSink
          track.clock.sampleRate)

/-- The samples of a buffer that a frame filled with `count` pairs, as far as there is room. -/
def block {n : Nat} (output : Vector Int16 n) (count : Nat) : Array Int16 :=
  output.toArray.extract 0 (min (2 * count) n)

/-- Takes up playback at the frame playing at the time `requested` and tells when that frame starts.
The sink hears of it before any audio from there. -/
def seekTo (requested : Duration) : Action δ Duration := fun s =>
  match s.track? with
  | none => .error .headersNotRead s
  | some track =>
    match track.locator.seek requested.toMillis s.synchronizer.source with
    | .error cause source =>
      .error (.seek cause) { s with synchronizer := { s.synchronizer with source := source } }
    | .ok frame source =>
      let actual := Duration.ofMillis (track.clock.timecode frame)
      let synchronizer := { s.synchronizer with source := source }.release
      .ok actual
        ({ s with synchronizer := synchronizer, frameIndex := frame }.tell
          (.sought requested actual))

variable [Decoder δ]

/-- Decodes the frame that is held, passes on what comes out, and goes on to the next frame. A frame
that gives nothing is counted all the same. -/
def playHeld (s : Session δ) : Session δ :=
  let frame := s.synchronizer.frame
  let decoded := Decoder.decode s.decoder frame s.output
  let s := { s with decoder := decoded.decoder, output := decoded.output }.note (.decoded frame)
  let s := if decoded.count = 0 then s else s.tell (.block (block decoded.output decoded.count))
  { s with synchronizer := s.synchronizer.release, frameIndex := s.frameIndex + 1 }

@[simp] theorem synchronizer_playHeld (s : Session δ) :
    s.playHeld.synchronizer = s.synchronizer.release := by
  unfold playHeld
  simp only
  split <;> simp

/-- Plays frame after frame until the stream ends, `limit` frames have been played, or the source
fails. -/
def playOn (limit : Option Nat) (s : Session δ) : EStateM.Result Error (Session δ) Outcome :=
  if limit = some 0 then .ok .stopped s
  else
    match _h : s.synchronizer.fill with
    | .error fault synchronizer => .error (.source fault) { s with synchronizer := synchronizer }
    | .ok false synchronizer => .ok .endOfStream { s with synchronizer := synchronizer }
    | .ok true synchronizer =>
      playOn (limit.map (· - 1)) { s with synchronizer := synchronizer }.playHeld
termination_by s.synchronizer.pending
decreasing_by
  simpa using Synchronizer.pending_release_lt_of_fill _h

/-- Plays the stream from where it stands, up to its end or up to `limit` frames. A closed session
is at its end. -/
def play (limit : Option Nat) : Action δ Outcome := fun s =>
  match s.track? with
  | none => .error .headersNotRead s
  | some _ => if s.closed then .ok .endOfStream s else playOn limit s

/-- Closes the sink and then the decoder. Only the first call does anything. -/
def close (s : Session δ) : Session δ :=
  if s.closed then s
  else
    let s := { s with closed := true }.tell .closed
    { s with decoder := Decoder.close s.decoder }.note .decoderClosed

end Session

end MpegAudio
