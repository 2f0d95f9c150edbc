/-!
# Faults of a medium

What can go wrong while bytes are read or a position is taken up: a kind, which decides how a
reader goes on, and a text for people.
-/

namespace MpegAudio

/-- The kinds of fault. Only `endOfData` has a meaning of its own: it says that the bytes asked
for are not there. -/
inductive FaultKind where
  | other
  | endOfData
  | connectionReset
  | permissionDenied
  | invalidInput
  | timedOut
  deriving DecidableEq, Repr, Inhabited

/-- A fault, with its text. -/
structure Fault where
  kind : FaultKind
  text : String
  deriving DecidableEq, Repr, Inhabited

namespace Fault

/-- The data ended before the bytes asked for. -/
def endOfData : Fault := ⟨.endOfData, "unexpected end of file"⟩

/-- The fault says that the data has ended, whoever reported it. -/
def IsEnd (f : Fault) : Prop := f.kind = .endOfData

instance : DecidablePred IsEnd := fun f => inferInstanceAs (Decidable (f.kind = .endOfData))

@[simp] theorem isEnd_endOfData : endOfData.IsEnd := rfl

end Fault

end MpegAudio
