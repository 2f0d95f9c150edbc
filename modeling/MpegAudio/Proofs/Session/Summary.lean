import MpegAudio.Proofs.Locator.Recognition
import MpegAudio.Proofs.Session.Answers

/-!
# A first frame that is a summary

The first frame of a stream is a summary or it is audio, and the session has to tell which. A
summary is passed over when the headers are read, and nothing leads back to it: playing only goes
on, and the places of times lie behind it. Any other first frame is kept, and is the first to be
played.

Whether a frame has been given to the decoder cannot be seen from its bytes, since the same bytes
can stand elsewhere in the data. So the frames are noted together with the places where they start,
by going through the operations once more.
-/

namespace MpegAudio

open Bytes Header Synchronizer

namespace Session

variable {δ : Type} [Decoder δ] {data : List UInt8} {length : Option Nat} {b : Nat} {s : Session δ}

/-! ## What the decoder is given -/

/-- The headers are known, and neither the reader nor any time is at a place before `b`. -/
structure Ahead (data : List UInt8) (length : Option Nat) (b : Nat) (s : Session δ) : Prop where
  places : ∃ track, s.headers = .known track ∧
    ∀ t target, track.locator.target? t = some target → b ≤ target.position
  standing : ∃ place, Standing data length place s.synchronizer ∧ b ≤ place.position

omit [Decoder δ] in
theorem Ahead.congr {s' : Session δ} (H : Ahead data length b s)
    (hsynchronizer : s'.synchronizer = s.synchronizer) (hheaders : s'.headers = s.headers) :
    Ahead data length b s' :=
  ⟨hheaders ▸ H.places, hsynchronizer ▸ H.standing⟩

end Session

end MpegAudio
