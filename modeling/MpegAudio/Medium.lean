import MpegAudio.Fault

/-!
# Media

A medium holds a byte string and a cursor, and hands out the bytes at the cursor in pieces of its
own choosing. Before it answers a read it may interrupt it any finite number of times, which asks
for the same read again; it may also refuse a read or a change of position.

## Main definitions

* `Conduct` — the choices of a medium: for each read and each seek, given how many there were.
* `Medium` — data, cursor, conduct, and the tally that the conduct looks at.
* `Medium.read m wanted` — one attempt to get at most `wanted` bytes.
* `Medium.ask wanted` — attempts the same until there is an answer.
* `Medium.seek m target` — puts the cursor anywhere, inside the data or not.
* `Conduct.Faultless` — nothing is ever refused.
-/

namespace MpegAudio

/-- How often a medium has answered. -/
structure Tally where
  /-- Reads answered with bytes or refused. -/
  reads : Nat := 0
  /-- Reads refused. -/
  refusals : Nat := 0
  /-- Seeks done or refused. -/
  seeks : Nat := 0
  deriving DecidableEq, Repr, Inhabited

/-- The answer to a read. -/
inductive Answer where
  /-- At most this many bytes, but at least one unless the data ends at the cursor. -/
  | give (count : Nat)
  | refuse (fault : Fault)
  deriving DecidableEq, Repr

/-- All that happens to one read: first the interruptions, then the answer. -/
structure Turn where
  interruptions : Nat
  answer : Answer
  deriving DecidableEq, Repr

/-- The choices of a medium. They may depend on what it did before, on where the cursor stands and
on what is asked for. -/
structure Conduct where
  onRead : Tally → (cursor wanted : Nat) → Turn
  onSeek : Tally → (target : Nat) → Option Fault

namespace Conduct

/-- No read and no seek is ever refused. Reads may still be interrupted and give few bytes. -/
structure Faultless (c : Conduct) : Prop where
  gives : ∀ tally cursor wanted, ∃ count, (c.onRead tally cursor wanted).answer = .give count
  seeks : ∀ tally target, c.onSeek tally target = none

/-- Gives all that is asked for, at once. -/
def plain : Conduct where
  onRead _ _ wanted := ⟨0, .give wanted⟩
  onSeek _ _ := none

theorem faultless_plain : plain.Faultless :=
  ⟨fun _ _ wanted => ⟨wanted, rfl⟩, fun _ _ => rfl⟩

end Conduct

/-- A byte string with a cursor. -/
structure Medium where
  data : Array UInt8
  /-- Where the next read starts. It may lie past the end of the data. -/
  cursor : Nat
  conduct : Conduct
  tally : Tally := {}
  /-- The interruptions that the read being asked for has had. -/
  interrupted : Nat := 0

/-- What one attempt to read leads to. -/
inductive Reading where
  /-- Nothing happened and the read has to be asked for again. -/
  | interrupted
  /-- The bytes at the cursor, none of them at the end of the data. -/
  | bytes (part : Array UInt8)
  | refused (fault : Fault)

namespace Medium

/-- The interruptions still to come before a read of `wanted` bytes is answered. -/
def delay (m : Medium) (wanted : Nat) : Nat :=
  (m.conduct.onRead m.tally m.cursor wanted).interruptions - m.interrupted

/-- One attempt to read at most `wanted` bytes. -/
def read (m : Medium) (wanted : Nat) : Reading × Medium :=
  let turn := m.conduct.onRead m.tally m.cursor wanted
  if m.interrupted < turn.interruptions then
    (.interrupted, { m with interrupted := m.interrupted + 1 })
  else
    match turn.answer with
    | .give count =>
      let part := m.data.extract m.cursor (m.cursor + min wanted (max count 1))
      (.bytes part,
        { m with
          cursor := m.cursor + part.size
          tally := { m.tally with reads := m.tally.reads + 1 }
          interrupted := 0 })
    | .refuse fault =>
      (.refused fault,
        { m with
          tally :=
            { m.tally with reads := m.tally.reads + 1, refusals := m.tally.refusals + 1 }
          interrupted := 0 })

/-- Puts the cursor at `target`, or leaves it and says why. -/
def seek (m : Medium) (target : Nat) : Except Fault Unit × Medium :=
  let tally := { m.tally with seeks := m.tally.seeks + 1 }
  match m.conduct.onSeek m.tally target with
  | some fault => (.error fault, { m with tally := tally })
  | none => (.ok (), { m with cursor := target, tally := tally })

/-- The bytes between the cursor and the end of the data. -/
def remaining (m : Medium) : Nat := m.data.size - m.cursor

/-- Every interruption is one of those that were to come. -/
theorem delay_lt_of_read {m m' : Medium} {wanted : Nat} (h : m.read wanted = (.interrupted, m')) :
    m'.delay wanted < m.delay wanted := by
  unfold read at h
  simp only at h
  split at h
  case isTrue hlt =>
    simp only [Prod.mk.injEq, true_and] at h
    subst h
    simp only [delay]
    omega
  case isFalse => split at h <;> simp at h

theorem cursor_of_read_interrupted {m m' : Medium} {wanted : Nat}
    (h : m.read wanted = (.interrupted, m')) : m'.cursor = m.cursor ∧ m'.data = m.data := by
  unfold read at h
  grind

theorem cursor_of_read_refused {m m' : Medium} {wanted : Nat} {fault : Fault}
    (h : m.read wanted = (.refused fault, m')) : m'.cursor = m.cursor ∧ m'.data = m.data := by
  unfold read at h
  grind

/-- The bytes of a read are the bytes of the data at the cursor, which moves past them. -/
theorem cursor_of_read_bytes {m m' : Medium} {wanted : Nat} {part : Array UInt8}
    (h : m.read wanted = (.bytes part, m')) :
    m'.cursor = m.cursor + part.size ∧ m'.data = m.data ∧ part.size ≤ wanted ∧
      part = m.data.extract m.cursor (m.cursor + part.size) := by
  unfold read at h
  simp only at h
  split at h
  case isTrue => simp at h
  case isFalse =>
    split at h
    · simp only [Prod.mk.injEq, Reading.bytes.injEq] at h
      obtain ⟨rfl, rfl⟩ := h
      refine ⟨rfl, rfl, ?_, ?_⟩
      · simp only [Array.size_extract]
        omega
      · apply Array.ext
        · simp only [Array.size_extract]
          omega
        · simp
    · simp at h

/-- Attempts a read of at most `wanted` bytes again and again until it is answered. -/
def ask (wanted : Nat) (m : Medium) : EStateM.Result Fault Medium (Array UInt8) :=
  match _h : m.read wanted with
  | (.interrupted, m) => ask wanted m
  | (.bytes part, m) => .ok part m
  | (.refused fault, m) => .error fault m
termination_by m.delay wanted
decreasing_by exact delay_lt_of_read _h

theorem cursor_of_ask {m m' : Medium} {wanted : Nat} {part : Array UInt8}
    (h : ask wanted m = .ok part m') :
    m'.cursor = m.cursor + part.size ∧ m'.data = m.data ∧ part.size ≤ wanted ∧
      part = m.data.extract m.cursor (m.cursor + part.size) := by
  fun_induction ask wanted m with
  | case1 m n hr ih =>
    obtain ⟨hc, hd⟩ := cursor_of_read_interrupted hr
    simpa only [hc, hd] using ih h
  | case2 m p n hr =>
    simp only [EStateM.Result.ok.injEq] at h
    obtain ⟨rfl, rfl⟩ := h
    exact cursor_of_read_bytes hr
  | case3 => simp at h

theorem cursor_of_ask_error {m m' : Medium} {wanted : Nat} {fault : Fault}
    (h : ask wanted m = .error fault m') : m'.cursor = m.cursor ∧ m'.data = m.data := by
  fun_induction ask wanted m with
  | case1 m n hr ih =>
    obtain ⟨hc, hd⟩ := cursor_of_read_interrupted hr
    simpa only [hc, hd] using ih h
  | case2 => simp at h
  | case3 m f n hr =>
    simp only [EStateM.Result.error.injEq] at h
    exact h.2 ▸ cursor_of_read_refused hr

end Medium

end MpegAudio
