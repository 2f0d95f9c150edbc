import MpegAudio.Medium

/-!
# Media that follow a schedule

A conduct given by a few numbers: how large the pieces are, which reads are interrupted, and where
and how often reads and seeks fail.
-/

namespace MpegAudio

/-- When and how a medium gives few bytes, interrupts or refuses. -/
structure Schedule where
  /-- The most bytes that one read gives. -/
  chunk : Option Nat := none
  /-- Of every so many attempts to read the last is interrupted. Below two there are no
  interruptions. -/
  interruptEvery : Nat := 0
  /-- Reads that start here or later are refused, and reads that start before end here. -/
  failAt : Option Nat := none
  /-- How many reads are refused in all, where there is a limit. -/
  failTimes : Option Nat := none
  /-- The kind of the faults. -/
  failKind : FaultKind := .other
  /-- Seeks beyond this position are refused. -/
  seekMax : Option Nat := none
  deriving Repr, Inhabited

namespace Schedule

def readFault (s : Schedule) : Fault := ⟨s.failKind, "injected read failure"⟩

def seekFault (s : Schedule) : Fault := ⟨s.failKind, "injected seek failure"⟩

/-- The position from which reads are refused, while the limit on refusals is not reached. -/
def barrier? (s : Schedule) (refusals : Nat) : Option Nat :=
  if s.failTimes.any (· ≤ refusals) then none else s.failAt

/-- The interruptions before a read that follows `reads` answered ones. Of `k` attempts in a row
`k - 1` are answered, so one comes after each `k - 1` answers. -/
def interruptions (s : Schedule) (reads : Nat) : Nat :=
  if 2 ≤ s.interruptEvery ∧ 0 < reads ∧ reads % (s.interruptEvery - 1) = 0 then 1 else 0

/-- The answer to a read at `cursor`. -/
def answer (s : Schedule) (refusals cursor wanted : Nat) : Answer :=
  let count := s.chunk.getD wanted
  match s.barrier? refusals with
  | none => .give count
  | some position =>
    if position ≤ cursor then .refuse s.readFault else .give (min count (position - cursor))

def conduct (s : Schedule) : Conduct where
  onRead tally cursor wanted := ⟨s.interruptions tally.reads, s.answer tally.refusals cursor wanted⟩
  onSeek _ target := if s.seekMax.any (· < target) then some s.seekFault else none

end Schedule

end MpegAudio
