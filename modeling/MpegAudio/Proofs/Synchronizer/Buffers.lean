import MpegAudio.Proofs.Source.Coupled
import MpegAudio.Proofs.Synchronizer.Requests

/-!
# A reader of frames in fixed buffers

The lists of a reader are short: four bytes wait at most, and no frame is longer than 1441 bytes. So
the reader can do with two buffers of these sizes and a number for each that says how much of it
counts. It is written down here once more in that form, with one loop for the whole search and with
every access to a buffer checked: where an access is out of range there is no result.

The reader in buffers has a result for all that can be asked of it, and the result is that of the
reader with lists. The one exception is giving back a byte to a window that is full.

## Main definitions

* `Buffer n` — so many bytes, with checked access.
* `Buffered` — a reader in buffers; `Buffered.push`, `Buffered.scan`, `Buffered.fill` — its steps.
* `Buffered.Represents x s` — the reader in buffers stands for the one with lists.
* `Buffered.serve_represents`, `Buffered.serveAll_represents` — every access is in range, and the
  results agree.
* `Buffered.push_full` — the exception.
-/

namespace MpegAudio

open Bytes Header

/-- A buffer of `n` bytes. -/
structure Buffer (n : Nat) where
  bytes : List UInt8
  length_eq : bytes.length = n

namespace Buffer

variable {n : Nat}

def zeros (n : Nat) : Buffer n := ⟨List.replicate n 0, List.length_replicate⟩

/-- The bytes from `start` up to `stop`, if these are in range. -/
def read? (b : Buffer n) (start stop : Nat) : Option (List UInt8) :=
  if start ≤ stop ∧ stop ≤ n then some (slice b.bytes start (stop - start)) else none

/-- Writes the bytes from `start` on, if there is room for them. -/
def write? (b : Buffer n) (start : Nat) (bs : List UInt8) : Option (Buffer n) :=
  if h : start + bs.length ≤ n then
    some ⟨b.bytes.take start ++ bs ++ b.bytes.drop (start + bs.length), by
      have hlen := b.length_eq
      simp only [List.length_append, List.length_take, List.length_drop]
      omega⟩
  else none

variable {b : Buffer n} {l : List UInt8}

theorem read?_of_prefix (H : l <+: b.bytes) {start : Nat} (hstart : start ≤ l.length) :
    b.read? start l.length = some (l.drop start) := by
  have hle := H.length_le
  rw [b.length_eq] at hle
  obtain ⟨rest, hrest⟩ := H
  rw [read?, if_pos ⟨hstart, hle⟩, ← hrest, slice, List.drop_append_of_le_length hstart,
    List.take_append_of_le_length (by rw [List.length_drop]), List.take_of_length_le
    (by rw [List.length_drop])]

theorem write?_of_prefix (H : l <+: b.bytes) (bs : List UInt8) (hroom : l.length + bs.length ≤ n) :
    ∃ b', b.write? l.length bs = some b' ∧ l ++ bs <+: b'.bytes := by
  refine ⟨_, dif_pos hroom, b.bytes.drop (l.length + bs.length), ?_⟩
  dsimp only
  rw [← List.prefix_iff_eq_take.mp H]

theorem exists_read? {start stop : Nat} (h : start ≤ stop) (hstop : stop ≤ n) :
    ∃ bs, b.read? start stop = some bs ∧ bs.length = stop - start := by
  refine ⟨_, if_pos ⟨h, hstop⟩, ?_⟩
  have hlen := b.length_eq
  rw [length_slice]
  omega

theorem write?_eq_none {start : Nat} {bs : List UInt8} (h : n < start + bs.length) :
    b.write? start bs = none :=
  dif_neg (by omega)

end Buffer

/-- A reader of frames in two buffers. Of the window the first `waiting` bytes count, and of the
buffer for the frame the first `filled`. -/
structure Buffered where
  source : Source
  window : Buffer size := .zeros size
  waiting : Nat := 0
  header? : Option Header := none
  frame : Buffer maxFrameSize := .zeros maxFrameSize
  filled : Nat := 0
  frameStart : Nat := 0

namespace Buffered

/-- Puts a byte into the window. When `room` bytes wait already, the others move up by one and the
first is lost. -/
def push (room : Nat) (x : Buffered) (byte : UInt8) : Option Buffered :=
  if x.waiting = room then do
    let kept ← x.window.read? 1 room
    let window ← x.window.write? 0 kept
    let window ← window.write? (room - 1) [byte]
    some { x with window := window }
  else do
    let window ← x.window.write? x.waiting [byte]
    some { x with window := window, waiting := x.waiting + 1 }

/-- Gives bytes back, of which three can wait. -/
def giveBack (x : Buffered) (bs : List UInt8) : Option Buffered := bs.foldlM (push 3) x

def release (x : Buffered) : Buffered := { x with header? := none, filled := 0, waiting := 0 }

/-- Takes the window as the start of a frame. -/
def lock (x : Buffered) (header : Header) : Option Buffered := do
  let frame ← x.frame.write? 0 x.window.bytes
  some
    { x with
      frameStart := x.source.position - size
      frame := frame
      filled := size
      header? := some header
      waiting := 0 }

/-- A byte that is pushed into a window of four is one more, as long as the window is not full
then. -/
theorem waiting_push {x x' : Buffered} {byte : UInt8} (h : x.push size byte = some x')
    (hlt : x'.waiting < size) : x'.waiting = x.waiting + 1 := by
  rw [push] at h
  by_cases hfull : x.waiting = size
  · simp only [if_pos hfull, Option.bind_eq_bind, Option.bind_eq_some_iff] at h
    obtain ⟨kept, -, window, -, window', -, h⟩ := h
    cases h
    exact absurd hfull (Nat.ne_of_lt hlt)
  · simp only [if_neg hfull, Option.bind_eq_bind, Option.bind_eq_some_iff] at h
    obtain ⟨window, -, h⟩ := h
    cases h
    rfl

/-- Reads byte after byte until the window holds a header or `budget` windows have been examined. A
window that is not full is not examined and does not count. -/
def scan (budget examined : Nat) (x : Buffered) :
    Option (EStateM.Result Fault Buffered Search) :=
  if examined < budget then
    match x.source.readByte? with
    | .error fault source => some (.error fault { x with source := source })
    | .ok none source => some (.ok (.missed examined) { x with source := source })
    | .ok (some byte) source =>
      match _h : push size { x with source := source } byte with
      | none => none
      | some x =>
        if x.waiting < size then scan budget examined x
        else
          match ofBytes? x.window.bytes with
          | none => scan budget (examined + 1) x
          | some header => (x.lock header).map (.ok .found ·)
  else some (.ok (.missed examined) x)
termination_by (budget - examined, size - x.waiting)
decreasing_by
  · have hpush := waiting_push _h ‹_›
    dsimp only at hpush
    omega
  · omega

/-- Lets go of the frame that is held and looks for the next header. -/
def search (budget : Nat) (x : Buffered) : Option (EStateM.Result Fault Buffered Search) :=
  scan budget 0 { x with header? := none, filled := 0 }

def complete (header : Header) (x : Buffered) : Option (EStateM.Result Fault Buffered Bool) :=
  if x.filled < header.frameSize then do
    let room ← x.frame.read? x.filled header.frameSize
    match x.source.readExact room.length with
    | .ok rest source =>
      let frame ← x.frame.write? x.filled rest
      some (.ok true { x with source := source, frame := frame, filled := header.frameSize })
    | .error fault source =>
      some
        (if fault.IsEnd then .ok false { x with source := source }
        else .error fault { x with source := source })
  else some (.ok true x)

def fill (x : Buffered) : Option (EStateM.Result Fault Buffered Bool) :=
  match x.header? with
  | some header => complete header x
  | none => do
    match ← search maxFrameSize x with
    | .error fault x => some (.error fault x)
    | .ok _ x =>
      match x.header? with
      | none => some (.ok false x)
      | some header => complete header x

/-! ## Standing for a reader with lists -/

/-- The parts of the buffers that count hold the lists, and all else is the same. -/
structure Represents (x : Buffered) (s : Synchronizer) : Prop where
  source : x.source = s.source
  window : s.window <+: x.window.bytes
  waiting : x.waiting = s.window.length
  header : x.header? = s.header?
  frame : s.frame <+: x.frame.bytes
  filled : x.filled = s.frame.length
  frameStart : x.frameStart = s.frameStart

variable {x : Buffered} {s : Synchronizer} {room budget : Nat}

theorem represents_new (source : Source) : Represents { source := source } { source := source } :=
  ⟨rfl, List.nil_prefix, rfl, rfl, List.nil_prefix, rfl, rfl⟩

theorem Represents.read?_frame (H : Represents x s) : x.frame.read? 0 x.filled = some s.frame := by
  rw [H.filled]
  exact Buffer.read?_of_prefix H.frame (Nat.zero_le _)

theorem Represents.onSource (H : Represents x s) (source : Source) :
    Represents { x with source := source } { s with source := source } :=
  ⟨rfl, H.window, H.waiting, H.header, H.frame, H.filled, H.frameStart⟩

/-- A byte goes behind those that wait, of which one less than there is room for are kept. -/
theorem push_represents (H : Represents x s) (hle : s.window.length ≤ room) (hpos : 0 < room)
    (hroom : room ≤ size) (byte : UInt8) :
    ∃ x', x.push room byte = some x' ∧
      Represents x'
        { s with window := s.window.drop (s.window.length - (room - 1)) ++ [byte] } := by
  by_cases hfull : s.window.length = room
  · have hone : s.window.length - (room - 1) = 1 := by omega
    have hkept : (s.window.drop 1).length = room - 1 := by
      rw [List.length_drop, hfull]
    have hread : x.window.read? 1 room = some (s.window.drop 1) := by
      rw [← hfull]
      exact Buffer.read?_of_prefix H.window (by omega)
    obtain ⟨moved, hmoved, hprefix⟩ := Buffer.write?_of_prefix (b := x.window) List.nil_prefix
      (s.window.drop 1) (by rw [hkept, List.length_nil]; omega)
    rw [List.nil_append] at hprefix
    obtain ⟨window, hwindow, hprefix'⟩ := Buffer.write?_of_prefix hprefix [byte]
      (by rw [hkept, List.length_singleton]; omega)
    rw [hkept] at hwindow
    rw [List.length_nil] at hmoved
    refine ⟨{ x with window := window }, ?_, H.source, ?_, ?_, H.header, H.frame, H.filled,
      H.frameStart⟩
    · rw [push, if_pos (H.waiting.trans hfull)]
      simp only [hread, hmoved, hwindow, Option.bind_eq_bind, Option.bind_some]
    · rw [hone]
      exact hprefix'
    · simp only [H.waiting, hone, List.length_append, hkept, List.length_singleton]
      omega
  · have hzero : s.window.length - (room - 1) = 0 := by omega
    obtain ⟨window, hwindow, hprefix⟩ := Buffer.write?_of_prefix H.window [byte]
      (by rw [List.length_singleton]; omega)
    refine ⟨{ x with window := window, waiting := x.waiting + 1 }, ?_, H.source, ?_, ?_, H.header,
      H.frame, H.filled, H.frameStart⟩
    · rw [push, if_neg (by rw [H.waiting]; exact hfull), H.waiting]
      simp only [hwindow, Option.bind_eq_bind, Option.bind_some]
    · rw [hzero]
      exact hprefix
    · simp only [H.waiting, hzero, List.drop_zero, List.length_append, List.length_singleton]

/-- **A byte that is given back to a full window is written out of range.** -/
theorem push_full (H : Represents x s) (hfull : s.window.length = size) (byte : UInt8) :
    x.push 3 byte = none := by
  have hthree : x.waiting ≠ 3 := by
    rw [H.waiting, hfull, size]
    omega
  rw [push, if_neg hthree, H.waiting, hfull, Buffer.write?_eq_none (by simp)]
  rfl

theorem giveBack_represents (bs : List UInt8) :
    ∀ (x : Buffered) (s : Synchronizer), Represents x s → bs = [] ∨ s.window.length < size →
      ∃ x', x.giveBack bs = some x' ∧ Represents x' (s.giveBack bs) := by
  induction bs with
  | nil =>
      intro x s H _
      exact ⟨x, rfl, H⟩
  | cons byte bs ih =>
      intro x s H hroom
      have hlt : s.window.length < size := by simpa using hroom
      have hle : s.window.length ≤ 3 := Nat.le_of_lt_succ hlt
      obtain ⟨x₁, hpush, H₁⟩ := push_represents H hle (by omega) (by rw [size]; omega) byte
      have hlt₁ : (s.giveBackByte byte).window.length < size := by
        rw [Synchronizer.giveBackByte, List.length_append, List.length_drop, List.length_singleton,
          size]
        omega
      obtain ⟨x', hback, H'⟩ := ih x₁ (s.giveBackByte byte) H₁ (.inr hlt₁)
      refine ⟨x', ?_, H'⟩
      rw [giveBack, List.foldlM_cons, hpush]
      exact hback

theorem release_represents (H : Represents x s) : Represents x.release s.release :=
  ⟨H.source, List.nil_prefix, rfl, rfl, List.nil_prefix, rfl, H.frameStart⟩

/-! ## Searching -/

theorem scan_of_done {examined : Nat} (hdone : budget ≤ examined) (x : Buffered) :
    scan budget examined x = some (.ok (.missed examined) x) := by
  rw [scan, if_neg (by omega)]

theorem scan_of_error {examined : Nat} {fault : Fault} {source : Source} (hlt : examined < budget)
    (hread : x.source.readByte? = .error fault source) :
    scan budget examined x = some (.error fault { x with source := source }) := by
  rw [scan, if_pos hlt]
  simp only [hread]

theorem scan_of_end {examined : Nat} {source : Source} (hlt : examined < budget)
    (hread : x.source.readByte? = .ok none source) :
    scan budget examined x = some (.ok (.missed examined) { x with source := source }) := by
  rw [scan, if_pos hlt]
  simp only [hread]

theorem scan_of_byte {examined : Nat} {byte : UInt8} {source : Source} {x' : Buffered}
    (hlt : examined < budget) (hread : x.source.readByte? = .ok (some byte) source)
    (hpush : push size { x with source := source } byte = some x') :
    scan budget examined x =
      if x'.waiting < size then scan budget examined x'
      else
        match ofBytes? x'.window.bytes with
        | none => scan budget (examined + 1) x'
        | some header => (x'.lock header).map (.ok .found ·) := by
  rw [scan, if_pos hlt]
  simp only [hread]
  split
  · rename_i hnone
    rw [hpush] at hnone
    cases hnone
  · rename_i x'' hsome
    rw [hpush] at hsome
    cases hsome
    rfl

theorem lock_represents {window : List UInt8} (header : Header) (H : Represents x s)
    (hwindow : x.window.bytes = window) :
    ∃ x', x.lock header = some x' ∧ Represents x' (s.lock header window) := by
  have hlen : window.length = size := by rw [← hwindow, x.window.length_eq]
  obtain ⟨frame, hframe, hprefix⟩ := Buffer.write?_of_prefix (b := x.frame) List.nil_prefix
    window (by rw [hlen, List.length_nil]; decide)
  rw [List.length_nil, ← hwindow] at hframe
  refine ⟨{ x with
      frameStart := x.source.position - size
      frame := frame
      filled := size
      header? := some header
      waiting := 0 }, ?_, H.source, List.nil_prefix, rfl, rfl, hprefix, hlen.symm, ?_⟩
  · rw [lock, hframe]
    rfl
  · dsimp only [Synchronizer.lock]
    rw [H.source]

/-- Once three bytes wait, every byte read makes for one window to be examined. -/
theorem scan_slide (budget : Nat) :
    ∀ (examined : Nat) (x : Buffered) (s : Synchronizer), Represents x s → 3 ≤ s.window.length →
      s.window.length ≤ size →
      ∃ r, scan (examined + budget) examined x = some r ∧
        Matched Represents r (Synchronizer.slide examined budget s) := by
  induction budget with
  | zero =>
      intro examined x s H _ _
      exact ⟨_, scan_of_done (by omega) x, .ok _ H⟩
  | succ budget ih =>
      intro examined x s H hthree hle
      have hlt : examined < examined + (budget + 1) := by omega
      rw [Synchronizer.slide, Synchronizer.onSource]
      rcases hread : s.source.readByte? with ⟨_ | byte, source⟩ | ⟨fault, source⟩ <;>
        rw [← H.source] at hread
      · exact ⟨_, scan_of_end hlt hread, .ok _ (H.onSource source)⟩
      · obtain ⟨x', hpush, H'⟩ :=
          push_represents (H.onSource source) hle (by decide) le_rfl byte
        change Represents x'
          { s with source := source, window := Synchronizer.slid s.window byte } at H'
        have hfour : (Synchronizer.slid s.window byte).length = size := by
          rw [Synchronizer.slid, List.length_append, List.length_drop, List.length_singleton, size]
          omega
        have hfull : x'.window.bytes = Synchronizer.slid s.window byte := by
          refine (H'.window.eq_of_length ?_).symm
          rw [x'.window.length_eq]
          exact hfour
        rw [scan_of_byte hlt hread hpush, if_neg (by rw [H'.waiting]; exact hfour.not_lt), hfull]
        dsimp only
        cases hheader : ofBytes? (Synchronizer.slid s.window byte) with
        | none =>
            have hsum : examined + (budget + 1) = examined + 1 + budget := by omega
            rw [hsum]
            exact ih (examined + 1) x' _ H' (hfour.symm ▸ (by decide)) hfour.le
        | some header =>
            obtain ⟨x'', hlock, H''⟩ := lock_represents header H' hfull
            refine ⟨_, ?_, .ok _ H''⟩
            dsimp only
            rw [hlock]
            rfl
      · exact ⟨_, scan_of_error hlt hread, .error _ (H.onSource source)⟩

/-- Before that the window is filled, and the one loop goes on as the second of two. -/
theorem scan_prime (missing : Nat) :
    ∀ (x : Buffered) (s : Synchronizer), Represents x s → missing = 3 - s.window.length →
      s.window.length ≤ size → 0 < budget →
      ∃ r, scan budget 0 x = some r ∧
        Matched Represents r
          (match Synchronizer.prime missing s with
          | .error fault s => .error fault s
          | .ok false s => .ok (.missed 0) s
          | .ok true s => Synchronizer.slide 0 budget s) := by
  induction missing with
  | zero =>
      intro x s H hmissing hle _
      have key := scan_slide budget 0 x s H (by omega) hle
      rw [Nat.zero_add] at key
      exact key
  | succ missing ih =>
      intro x s H hmissing hle hbudget
      rw [Synchronizer.prime, Synchronizer.onSource]
      rcases hread : s.source.readByte? with ⟨_ | byte, source⟩ | ⟨fault, source⟩ <;>
        rw [← H.source] at hread
      · exact ⟨_, scan_of_end hbudget hread, .ok _ (H.onSource source)⟩
      · obtain ⟨x', hpush, H'⟩ :=
          push_represents (H.onSource source) hle (by decide) le_rfl byte
        have hkept : s.window.length - (size - 1) = 0 := by
          rw [size]
          omega
        dsimp only at H'
        rw [hkept, List.drop_zero] at H'
        have hlen : (s.window ++ [byte]).length = s.window.length + 1 := by
          rw [List.length_append, List.length_singleton]
        have hwaiting : x'.waiting < size := by
          rw [H'.waiting, size]
          dsimp only
          omega
        rw [scan_of_byte hbudget hread hpush, if_pos hwaiting]
        exact ih x' _ H' (by dsimp only; omega) (by dsimp only; rw [size]; omega) hbudget
      · exact ⟨_, scan_of_error hbudget hread, .error _ (H.onSource source)⟩

/-- **A search stays in range**, and finds what the search with lists finds. -/
theorem search_represents (H : Represents x s) (hle : s.window.length ≤ size) (budget : Nat) :
    ∃ r, search budget x = some r ∧ Matched Represents r (Synchronizer.search budget s) := by
  have H₀ : Represents { x with header? := none, filled := 0 } { s with held := none } :=
    ⟨H.source, H.window, H.waiting, rfl, List.nil_prefix, rfl, H.frameStart⟩
  rw [search, Synchronizer.search]
  by_cases hbudget : budget = 0
  · simp only [if_pos hbudget]
    exact ⟨_, scan_of_done (by omega) _, .ok _ H₀⟩
  · simp only [if_neg hbudget]
    exact scan_prime _ _ _ H₀ rfl hle (by omega)

/-! ## Filling -/

/-- **Reading the rest of a frame stays in range.** -/
theorem complete_represents {f : Held} (H : Represents x s) (hheld : s.held = some f)
    (hf : f.WellFormed) :
    ∃ r, complete f.header x = some r ∧ Matched Represents r (Synchronizer.complete f s) := by
  have hframe : s.frame = f.bytes := by
    rw [Synchronizer.frame, hheld]
    rfl
  have hheader : x.header? = some f.header := by
    rw [H.header, Synchronizer.header?, hheld]
    rfl
  have hfilled : x.filled = f.bytes.length := by rw [H.filled, hframe]
  have hle := hf.length_le
  have hbound := hf.frameSize_bounds.2
  rw [complete, Synchronizer.complete]
  by_cases hlt : x.filled < f.header.frameSize
  · obtain ⟨room, hroom, hlen⟩ := Buffer.exists_read? (b := x.frame) hlt.le hbound
    rw [hfilled] at hlen
    simp only [if_pos hlt, hroom, hlen, Option.bind_eq_bind, Option.bind_some, H.source]
    rcases hread : s.source.readExact (f.header.frameSize - f.bytes.length) with
      ⟨rest, source⟩ | ⟨fault, source⟩
    · have hrest := Source.length_readExact hread
      have hsum : (f.bytes ++ rest).length = f.header.frameSize := by
        rw [List.length_append]
        omega
      obtain ⟨frame, hwrite, hprefix⟩ := Buffer.write?_of_prefix (hframe ▸ H.frame) rest
        (by rw [← List.length_append, hsum]; exact hbound)
      simp only [hfilled, hwrite, Option.bind_some]
      exact ⟨_, rfl, .ok _ ⟨rfl, H.window, H.waiting, hheader, hprefix, hsum.symm, H.frameStart⟩⟩
    · refine ⟨_, rfl, ?_⟩
      by_cases hend : fault.IsEnd
      · simp only [if_pos hend]
        exact .ok _ (H.onSource source)
      · simp only [if_neg hend]
        exact .error _ (H.onSource source)
  · have hzero : f.header.frameSize - f.bytes.length = 0 := by omega
    rw [if_neg hlt, hzero, Source.readExact_zero]
    refine ⟨_, rfl, .ok _ ?_⟩
    simp only [List.append_nil, ← hheld]
    exact H

/-- **Filling stays in range.** -/
theorem fill_represents (H : Represents x s) (hs : s.WellFormed) :
    ∃ r, fill x = some r ∧ Matched Represents r (Synchronizer.fill s) := by
  rw [fill, Synchronizer.fill, H.header, Synchronizer.header?]
  rcases hheld : s.held with _ | f
  · obtain ⟨r, hsearch, hmatched⟩ := search_represents H hs.window_le maxFrameSize
    have hwell := Synchronizer.wellFormed_search hs maxFrameSize
    simp only [Option.map_none, hsearch, Option.bind_eq_bind, Option.bind_some]
    obtain ⟨outcome, x', s', rfl, hsearch', H'⟩ | ⟨fault, x', s', rfl, hsearch', H'⟩ := hmatched
    · rw [hsearch'] at hwell ⊢
      simp only [H'.header, Synchronizer.header?]
      rcases hheld' : s'.held with _ | f
      · exact ⟨_, rfl, .ok _ H'⟩
      · exact complete_represents H' hheld' (hwell.held f hheld')
    · rw [hsearch']
      exact ⟨_, rfl, .error _ H'⟩
  · exact complete_represents H hheld (hs.held f hheld)

/-! ## Whatever is asked -/

open Synchronizer (Request)

/-- The reader that a step leaves behind, where the step stays in range. -/
def leftBy {α : Type} : Option (EStateM.Result Fault Buffered α) → Option Buffered
  | none => none
  | some (.ok _ x) => some x
  | some (.error _ x) => some x

/-- The reader after one request, if every access is in range. -/
def serve (x : Buffered) : Request → Option Buffered
  | .giveBack bs => x.giveBack bs
  | .search call => leftBy (x.search call.budget)
  | .fill => leftBy x.fill
  | .release => some x.release
  | .elsewhere act => some { x with source := act x.source }

def serveAll (x : Buffered) (requests : List Request) : Option Buffered := requests.foldlM serve x

/-- Steps that match leave readers of which one stands for the other. -/
theorem exists_leftBy {α : Type} {step : Option (EStateM.Result Fault Buffered α)}
    {y : EStateM.Result Fault Synchronizer α}
    (h : ∃ r, step = some r ∧ Matched Represents r y) :
    ∃ x', leftBy step = some x' ∧ Represents x' (Synchronizer.afterwards y) := by
  obtain ⟨r, rfl, ⟨_, x', _, rfl, rfl, H⟩ | ⟨_, x', _, rfl, rfl, H⟩⟩ := h
  · exact ⟨x', rfl, H⟩
  · exact ⟨x', rfl, H⟩

/-- **One request stays in range** if there is room for what it gives back. -/
theorem serve_represents (H : Represents x s) (hs : s.WellFormed) {request : Request}
    (hfits : request.Fits s) :
    ∃ x', x.serve request = some x' ∧ Represents x' (s.serve request) := by
  cases request with
  | giveBack bs => exact giveBack_represents bs x s H hfits
  | search call =>
      rw [Synchronizer.serve, Synchronizer.afterwards_run]
      exact exists_leftBy (search_represents H hs.window_le call.budget)
  | fill => exact exists_leftBy (fill_represents H hs)
  | release => exact ⟨_, rfl, release_represents H⟩
  | elsewhere act =>
      refine ⟨_, rfl, ?_⟩
      rw [H.source]
      exact H.onSource (act s.source)

/-- If there is no room, an access is out of range. -/
theorem serve_eq_none (H : Represents x s) (hs : s.WellFormed) {request : Request}
    (hfits : ¬request.Fits s) : x.serve request = none := by
  cases request with
  | giveBack bs =>
      obtain ⟨hbs, hroom⟩ := not_or.mp hfits
      obtain ⟨byte, bs, rfl⟩ := List.exists_cons_of_ne_nil hbs
      have hfull : s.window.length = size := le_antisymm hs.window_le (Nat.le_of_not_lt hroom)
      rw [serve, giveBack, List.foldlM_cons, push_full H hfull]
      rfl
  | search call => exact absurd trivial hfits
  | fill => exact absurd trivial hfits
  | release => exact absurd trivial hfits
  | elsewhere act => exact absurd trivial hfits

/-- **All requests do.** -/
theorem serveAll_represents (H : Represents x s) (hs : s.WellFormed) {requests : List Request}
    (hfits : Synchronizer.Fits s requests) :
    ∃ x', x.serveAll requests = some x' ∧ Represents x' (s.serveAll requests) := by
  induction requests generalizing x s with
  | nil => exact ⟨x, rfl, H⟩
  | cons request requests ih =>
      obtain ⟨x₁, hserve, H₁⟩ := serve_represents H hs hfits.1
      obtain ⟨x', hall, H'⟩ := ih H₁ (Synchronizer.wellFormed_serve hs request) hfits.2
      refine ⟨x', ?_, H'⟩
      rw [serveAll, List.foldlM_cons, hserve]
      exact hall

end Buffered

end MpegAudio
