import MpegAudio.Fault

/-!
# Errors

The causes for which an operation on a stream fails, each with its text.
-/

namespace MpegAudio

/-- Why a stream could not be taken up at another time. -/
inductive SeekError where
  /-- The length of the stream is unknown, so times have no positions. -/
  | unsupported
  | source (fault : Fault)
  deriving DecidableEq, Repr

namespace SeekError

/-- The text of a seek error. The fault behind it has a text of its own. -/
def message : SeekError → String
  | unsupported => "stream is not seekable"
  | source _ => "byte source failed to seek"

end SeekError

/-- Why an operation on a stream failed. -/
inductive Error where
  | source (fault : Fault)
  /-- No frame was found at any of the positions examined. -/
  | noFrame (examined : Nat)
  /-- The operation needs the headers, which have not been read. -/
  | headersNotRead
  | seek (cause : SeekError)
  deriving DecidableEq, Repr

namespace Error

/-- The text of an error. The cause behind it has a text of its own. -/
def message : Error → String
  | source _ => "I/O error on the byte source"
  | noFrame examined => "no MPEG audio frame found within " ++ toString examined ++ " bytes"
  | headersNotRead => "stream headers have not been parsed yet"
  | seek _ => "seek failed"

end Error

/-- Why a session could not be set up. -/
inductive SetupError where
  | missingSource
  | missingDecoder
  deriving DecidableEq, Repr

namespace SetupError

def message : SetupError → String
  | missingSource => "no byte source was given to the builder"
  | missingDecoder => "no frame decoder was given to the builder"

end SetupError

end MpegAudio
