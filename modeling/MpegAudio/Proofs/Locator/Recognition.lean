import MpegAudio.Proofs.Locator.Choice
import MpegAudio.Proofs.Track.FirstFrame

/-!
# What counts as a summary

A summary is recognised by what stands in the data, behind the side information of the first frame:
a mark, flags that announce three parts, and the parts. All of it has to be inside the frame, and
the frame inside the data. So what comes after the frame cannot complete a summary, and a frame that
is cut off has none, however much of it is there.
-/

namespace MpegAudio

open Bytes Header

namespace Bytes

variable {bs part : List UInt8} {p n offset k : Nat}

end Bytes

namespace Summary

variable {data frame : List UInt8} {start length p offset : Nat} {h : Header} {s : Summary}
  {table : Vector UInt8 100}

end Summary

namespace Track

variable {data : List UInt8} {length : Option Nat} {p : Nat} {h : Header}

end Track

end MpegAudio
