import MpegAudio.Decoder.Silence
import MpegAudio.Decoder.Stamp
import MpegAudio.Medium.Schedule
import MpegAudio.Session
import MpegAudio.Proofs.Frames
import MpegAudio.Proofs.Source.Faultless
import MpegAudio.Proofs.Synchronizer.Place
import MpegAudio.Proofs.Synchronizer.Unread
import MpegAudio.Proofs.Synchronizer.Splice
import MpegAudio.Proofs.Synchronizer.Resumption
import MpegAudio.Proofs.Synchronizer.Requests
import MpegAudio.Proofs.Synchronizer.Buffers
import MpegAudio.Proofs.Tag.Body
import MpegAudio.Proofs.Tag.Confinement
import MpegAudio.Proofs.Track.Tags
import MpegAudio.Proofs.Track.FirstFrame
import MpegAudio.Proofs.Session.Headers
import MpegAudio.Proofs.Session.Playing
import MpegAudio.Proofs.Session.Runs
import MpegAudio.Proofs.Locator.ConstantRate
import MpegAudio.Proofs.Steady
import MpegAudio.Proofs.Session.Seeking
import MpegAudio.Proofs.Bytes.Digits
import MpegAudio.Proofs.Locator.Choice
import MpegAudio.Proofs.Session.Stability
import MpegAudio.Proofs.Tag.Writing
import MpegAudio.Proofs.Track.RoundTrip
import MpegAudio.Proofs.Session.Ending
import MpegAudio.Proofs.Source.Coupled
import MpegAudio.Proofs.Synchronizer.Coupled
import MpegAudio.Proofs.Track.Coupled
import MpegAudio.Proofs.Session.Answers
import MpegAudio.Proofs.Session.Coupled
import MpegAudio.Proofs.Session.Refusal
import MpegAudio.Proofs.Session.Forgetting
import MpegAudio.Proofs.Session.Pieces
import MpegAudio.Proofs.Session.Lifecycle
import MpegAudio.Proofs.Session.Serving
import MpegAudio.Proofs.Session.Finality
import MpegAudio.Proofs.Timecode.Words
import MpegAudio.Proofs.Locator.Surplus
import MpegAudio.Proofs.Locator.Words
import MpegAudio.Proofs.Text.Utf16
import MpegAudio.Proofs.Text.RoundTrip
import MpegAudio.Proofs.Text.Unmarked
import MpegAudio.Proofs.Decoder.Stereo
import MpegAudio.Proofs.Source.Calls
import MpegAudio.Proofs.Source.Obstacles
import MpegAudio.Proofs.Locator.Recognition
import MpegAudio.Proofs.Session.Summary
