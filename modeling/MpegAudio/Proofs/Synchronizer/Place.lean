import MpegAudio.Proofs.Frames
import MpegAudio.Proofs.Source.Faultless
import MpegAudio.Synchronizer

/-!
# A reader of frames over a faultless source

A synchronizer spreads its place in the data over four fields: the source stands at a byte, the
window holds the last bytes before it, a frame may be held in part or as a whole, and its start is
noted. `Standing` ties them to one `Place`. The window matters only through its last three bytes:
a fourth one has been examined already.

From there each operation has one outcome, computed from the data alone. A search finds the leftmost
header within its budget or counts the positions it examined; filling gives the frame that comes
next, as long as it is whole.
-/

namespace MpegAudio.Synchronizer

open Bytes Header

/-- The bytes of the window that can still be part of a header. -/
def tail (s : Synchronizer) : List UInt8 := s.window.drop (s.window.length - 3)

/-- The synchronizer is at a place in the data, over a source that refuses nothing. -/
inductive Standing (data : List UInt8) (length : Option Nat) : Place → Synchronizer → Prop where
  /-- The window holds the bytes from the next position up to where the source stands. -/
  | searching {s : Synchronizer} {next : Nat} (held : s.held = none)
      (window : s.tail = slice data next s.tail.length)
      (source : s.source.At data length (next + s.tail.length)) :
      Standing data length (.searching next) s
  /-- The bytes held are the first `n` of the frame. The source stands behind them, unless an
  attempt to read the rest of a frame that is cut off used up the data. -/
  | holding {s : Synchronizer} {p n pos : Nat} {h : Header} (header : at? data p = some h)
      (held : s.held = some ⟨h, slice data p n⟩) (start : s.frameStart = p)
      (window : s.window = []) (size_le : size ≤ n) (le_frameSize : n ≤ h.frameSize)
      (inside : p + n ≤ data.length) (source : s.source.At data length pos)
      (reached : pos = p + n ∨ data.length ≤ pos ∧ data.length < p + h.frameSize) :
      Standing data length (.holding p h) s

variable {data : List UInt8} {length : Option Nat} {s : Synchronizer} {b c p : Nat} {h : Header}

theorem Standing.exists_at {place : Place} (H : Standing data length place s) :
    ∃ pos, s.source.At data length pos := by
  cases H with
  | searching _ _ source => exact ⟨_, source⟩
  | holding _ _ _ _ _ _ _ source _ => exact ⟨_, source⟩

theorem Standing.frameStart_eq (H : Standing data length (.holding p h) s) : s.frameStart = p := by
  cases H with
  | holding _ _ start _ _ _ _ _ _ => exact start

theorem tail_of_length_le (hlen : s.window.length ≤ 3) : s.tail = s.window := by
  rw [tail, Nat.sub_eq_zero_of_le hlen, List.drop_zero]

theorem standing_of_window_eq_nil {pos : Nat} (hwindow : s.window = [])
    (H : s.source.At data length pos) :
    Standing data length (.searching pos) { s with held := none } := by
  have htail : tail { s with held := none } = [] := by rw [tail, hwindow, List.drop_nil]
  refine .searching rfl ?_ ?_
  · rw [htail, List.length_nil, slice_zero]
  · rw [htail]
    exact H

/-- Letting go leaves the search to begin where the source stands. -/
theorem standing_release {pos : Nat} (H : s.source.At data length pos) :
    Standing data length (.searching pos) s.release :=
  standing_of_window_eq_nil (s := s.release) rfl H

/-! ## Searching -/

/-- Reading into a window that is not full yet. The window ends up with the three bytes at the next
position, or with what is left of the data. -/
private theorem prime_spec (missing : Nat) :
    ∀ s : Synchronizer, s.window.length + missing = 3 →
      s.window = slice data b s.window.length → s.source.At data length (b + s.window.length) →
      ∃ s', prime missing s = .ok (decide (b + 3 ≤ data.length)) s' ∧ s'.held = s.held ∧
        s'.frameStart = s.frameStart ∧ s'.window = slice data b 3 ∧
        s'.source.At data length (b + s'.window.length) := by
  induction missing with
  | zero =>
      intro s hlen hwindow H
      have hthree : s.window.length = 3 := by omega
      rw [hthree] at hwindow
      have hfull := congrArg List.length hwindow
      rw [length_slice] at hfull
      exact ⟨s, by rw [prime, decide_eq_true (by omega)], rfl, rfl, hwindow, H⟩
  | succ missing ih =>
      intro s hlen hwindow H
      by_cases hlt : b + s.window.length < data.length
      · obtain ⟨source, hread, hat⟩ := Source.readByte?_spec H hlt
        have hnext : s.window ++ [data[b + s.window.length]] =
            slice data b (s.window.length + 1) := by
          rw [slice_succ hlt, ← hwindow]
        have hlength := congrArg List.length hnext
        rw [List.length_append, List.length_singleton] at hlength
        have key := ih
          { s with source := source, window := s.window ++ [data[b + s.window.length]] }
          (by simp only [List.length_append, List.length_singleton]; omega)
          (by simp only [List.length_append, List.length_singleton]; exact hnext)
          (by simp only [List.length_append, List.length_singleton]; exact hat)
        rw [prime, onSource, hread]
        exact key
      · obtain ⟨source, hread, hat⟩ := Source.readByte?_end H (by omega)
        refine ⟨{ s with source := source }, ?_, rfl, rfl, ?_, hat⟩
        · rw [prime, onSource, hread, decide_eq_false (by omega)]
        · rw [hwindow, slice, slice, List.take_of_length_le, List.take_of_length_le] <;>
            rw [List.length_drop] <;> omega

/-- Sliding on from a position whose first three bytes are in the window. -/
private theorem slide_spec (budget : Nat) :
    ∀ (s : Synchronizer) (c examined : Nat), s.held = none → s.tail = slice data c 3 →
      c + 3 ≤ data.length → s.source.At data length (c + 3) →
      match leftmost? data budget c with
      | some (p, h) => ∃ s', slide examined budget s = .ok .found s' ∧
          s'.held = some ⟨h, slice data p size⟩ ∧ Standing data length (.holding p h) s' ∧
          s'.source.At data length (p + size)
      | none => ∃ s',
          slide examined budget s =
            .ok (.missed (examined + min budget (data.length - c - 3))) s' ∧
          Standing data length (.searching (c + min budget (data.length - c - 3))) s' ∧
          s'.frameStart = s.frameStart ∧
          s'.source.At data length (c + min budget (data.length - c - 3) + 3) := by
  induction budget with
  | zero =>
      intro s c examined hheld htail hle H
      rw [leftmost?, Nat.zero_min]
      have hlen : s.tail.length = 3 := by rw [htail, length_slice_of_le hle]
      exact ⟨s, rfl, .searching hheld (by rw [hlen]; exact htail) (by rw [hlen]; exact H), rfl, H⟩
  | succ budget ih =>
      intro s c examined hheld htail hle H
      by_cases hlt : c + 3 < data.length
      · obtain ⟨source, hread, hat⟩ := Source.readByte?_spec H hlt
        have hslid : slid s.window data[c + 3] = slice data c size := by
          rw [slid, ← tail, htail, size, slice_succ hlt]
        rw [slide, onSource, hread]
        simp only [hslid]
        rcases hheader : ofBytes? (slice data c size) with _ | header
        · -- The window slides on by one byte, and its last three are those of the next position.
          rw [leftmost?_succ_of_none hheader]
          have htail' : (slice data c size).drop ((slice data c size).length - 3) =
              slice data (c + 1) 3 := by
            rw [length_slice_of_le (by rw [size]; omega), size, drop_slice]
          have key := ih { s with source := source, window := slice data c size } (c + 1)
            (examined + 1) hheld htail' (by omega) hat
          have hcount : examined + 1 + min budget (data.length - (c + 1) - 3) =
              examined + min (budget + 1) (data.length - c - 3) := by omega
          have hnext : c + 1 + min budget (data.length - (c + 1) - 3) =
              c + min (budget + 1) (data.length - c - 3) := by omega
          rw [hcount, hnext] at key
          exact key
        · rw [leftmost?_succ_of_some hheader]
          have hsize : size ≤ header.frameSize := by
            have := (frameSize_bounds hheader).1
            rw [size]
            omega
          have hstart : source.position - size = c := by
            rw [hat.position_eq, size]
            omega
          exact ⟨_, rfl, rfl, .holding hheader rfl hstart rfl le_rfl hsize
            (by rw [size]; omega) hat (Or.inl rfl), hat⟩
      · obtain ⟨source, hread, hat⟩ := Source.readByte?_end H (by omega)
        have hnone : leftmost? data (budget + 1) c = none := by
          rw [leftmost?_eq_none_iff]
          intro c' hc' _
          apply at?_eq_none
          rw [size]
          omega
        have hzero : min (budget + 1) (data.length - c - 3) = 0 := by omega
        rw [hnone, hzero, slide, onSource, hread]
        have hlen : s.tail.length = 3 := by rw [htail, length_slice_of_le hle]
        refine ⟨_, rfl, .searching hheld ?_ ?_, rfl, hat⟩
        · exact htail.trans (by rw [← hlen]; rfl)
        · exact hlen ▸ hat

/-- **A search finds the leftmost header within its budget**, and the source stands behind it.
Otherwise it has examined as many positions as the budget allows and the data has room for, and the
source stands three bytes behind the last of them, or at the end of the data when that comes
earlier. -/
theorem search_exact (H : Standing data length (.searching b) s) (budget : Nat) :
    match leftmost? data budget b with
    | some (p, h) => ∃ s', search budget s = .ok .found s' ∧
        s'.held = some ⟨h, slice data p size⟩ ∧ Standing data length (.holding p h) s' ∧
        s'.source.At data length (p + size)
    | none => ∃ s', search budget s = .ok (.missed (min budget (data.length - b - 3))) s' ∧
        Standing data length (.searching (b + min budget (data.length - b - 3))) s' ∧
        s'.frameStart = s.frameStart ∧
        s'.source.At data length
          (if budget = 0 then b + s.tail.length
          else max (b + s.tail.length) (min data.length (b + budget + 3))) := by
  obtain ⟨hheld, hwindow, hat⟩ := H
  have hs : { s with held := none } = s := by rw [← hheld]
  rw [search, hs]
  by_cases hbudget : budget = 0
  · subst hbudget
    rw [leftmost?, Nat.zero_min]
    exact ⟨s, rfl, .searching hheld hwindow hat, rfl, hat⟩
  · simp only [if_neg hbudget]
    have hinside := congrArg List.length hwindow
    rw [length_slice] at hinside
    by_cases hlen : s.window.length ≤ 3
    · -- The window may have room, and all of it is waiting.
      rw [tail_of_length_le hlen] at hwindow hat hinside ⊢
      obtain ⟨s', hprime, hheld', hstart, hwindow', hat'⟩ := prime_spec
        (b := b) (3 - s.window.length) s (by omega) hwindow hat
      rw [hprime]
      have hle : s'.window.length ≤ 3 := by
        rw [hwindow', length_slice]
        omega
      have htail : s'.tail = slice data b 3 := (tail_of_length_le hle).trans hwindow'
      by_cases hfits : b + 3 ≤ data.length
      · rw [decide_eq_true hfits]
        rw [hwindow', length_slice_of_le hfits] at hat'
        have hpos : max (b + s.window.length) (min data.length (b + budget + 3)) =
            b + min budget (data.length - b - 3) + 3 := by omega
        have key := slide_spec budget s' b 0 (hheld'.trans hheld) htail hfits hat'
        rwa [Nat.zero_add, hstart, ← hpos] at key
      · rw [decide_eq_false hfits]
        have hnone : leftmost? data budget b = none := by
          rw [leftmost?_eq_none_iff]
          intro c hc _
          apply at?_eq_none
          rw [size]
          omega
        have hzero : min budget (data.length - b - 3) = 0 := by omega
        have hpos : max (b + s.window.length) (min data.length (b + budget + 3)) =
            b + s'.window.length := by
          rw [hwindow', length_slice]
          omega
        rw [hnone, hzero, hpos]
        refine ⟨s', rfl, .searching (hheld'.trans hheld) ?_ ?_, hstart, hat'⟩
        · rw [htail, Nat.add_zero, slice_length_slice]
        · rw [tail_of_length_le hle]
          exact hat'
    · -- The window is full, and its first byte has been examined.
      have hthree : s.tail.length = 3 := by
        rw [tail, List.length_drop]
        omega
      have hmissing : 3 - s.window.length = 0 := by omega
      rw [hthree] at hwindow hat hinside ⊢
      have hpos : max (b + 3) (min data.length (b + budget + 3)) =
          b + min budget (data.length - b - 3) + 3 := by omega
      rw [hmissing, prime, hpos]
      have key := slide_spec budget s b 0 hheld hwindow (by omega) hat
      rwa [Nat.zero_add] at key

theorem search_spec (H : Standing data length (.searching b) s) (budget : Nat) :
    match leftmost? data budget b with
    | some (p, h) => ∃ s', search budget s = .ok .found s' ∧
        s'.held = some ⟨h, slice data p size⟩ ∧ Standing data length (.holding p h) s'
    | none => ∃ s', search budget s = .ok (.missed (min budget (data.length - b - 3))) s' ∧
        Standing data length (.searching (b + min budget (data.length - b - 3))) s' := by
  have key := search_exact H budget
  rcases hl : leftmost? data budget b with _ | ⟨p, h⟩
  · rw [hl] at key
    obtain ⟨s', hsearch, hstanding, -⟩ := key
    exact ⟨s', hsearch, hstanding⟩
  · rw [hl] at key
    obtain ⟨s', hsearch, hheld, hstanding, -⟩ := key
    exact ⟨s', hsearch, hheld, hstanding⟩

/-! ## Filling -/

/-- Reading the rest of the frame that is held. It is there or it is not, and in either case the
place stays the same. -/
theorem complete_spec (H : Standing data length (.holding p h) s) :
    ∃ f, s.held = some f ∧
      (p + h.frameSize ≤ data.length → ∃ s', complete f s = .ok true s' ∧
        s'.held = some ⟨h, slice data p h.frameSize⟩ ∧ Standing data length (.holding p h) s' ∧
        s'.source.At data length (p + h.frameSize)) ∧
      (data.length < p + h.frameSize → ∃ s', complete f s = .ok false s' ∧
        s'.held = s.held ∧ Standing data length (.holding p h) s') := by
  cases H with
  | @holding _ _ n pos _ header held start window size_le le_frameSize inside source reached =>
      refine ⟨_, held, ?_, ?_⟩
      · intro hfits
        have hpos : pos = p + n := by omega
        subst hpos
        obtain ⟨source', hread, hat⟩ := Source.readExact_spec source
          (n := h.frameSize - n) (by omega)
        have hend : p + n + (h.frameSize - n) = p + h.frameSize := by omega
        have hbytes : slice data p n ++ slice data (p + n) (h.frameSize - n) =
            slice data p h.frameSize := by
          rw [slice_append_slice]
          congr 1
          omega
        rw [hend] at hat
        rw [complete]
        simp only [length_slice_of_le inside, hread, hbytes]
        exact ⟨_, rfl, rfl, .holding header rfl start window (le_trans size_le le_frameSize) le_rfl
          hfits hat (Or.inl rfl), hat⟩
      · intro hcut
        obtain ⟨source', hread, hat⟩ := Source.readExact_end source
          (n := h.frameSize - n) (by omega) (by omega)
        rw [complete]
        simp only [length_slice_of_le inside, hread, Fault.isEnd_endOfData, if_true]
        exact ⟨_, rfl, rfl, .holding header held start window size_le le_frameSize inside hat
          (Or.inr ⟨by omega, hcut⟩)⟩

theorem frameSize_of_held {f : Held} (H : s.held = some f) : s.frameSize = f.header.frameSize := by
  rw [frameSize, header?, H]
  rfl

theorem fill_of_held {f : Held} (H : s.held = some f) : fill s = complete f s := by
  rw [fill, H]

/-- **Filling goes to the header that counts next.** If its frame is all there, it is held as a whole
and the source stands behind it. -/
theorem fill_place {place : Place} (H : Standing data length place s) :
    match place.next? data with
    | none => ∃ s', fill s = .ok false s' ∧ Standing data length (place.beyond data) s'
    | some (p, h) =>
      (p + h.frameSize ≤ data.length → ∃ s', fill s = .ok true s' ∧
        s'.held = some ⟨h, slice data p h.frameSize⟩ ∧ Standing data length (.holding p h) s' ∧
        s'.source.At data length (p + h.frameSize)) ∧
      (data.length < p + h.frameSize → ∃ s', fill s = .ok false s' ∧
        Standing data length (.holding p h) s') := by
  -- With a frame held, only its end matters.
  have key : ∀ {s p h}, Standing data length (.holding p h) s →
      (p + h.frameSize ≤ data.length → ∃ s', fill s = .ok true s' ∧
        s'.held = some ⟨h, slice data p h.frameSize⟩ ∧ Standing data length (.holding p h) s' ∧
        s'.source.At data length (p + h.frameSize)) ∧
      (data.length < p + h.frameSize → ∃ s', fill s = .ok false s' ∧
        Standing data length (.holding p h) s') := by
    intro s p h H
    obtain ⟨f, held, hwhole, hcut⟩ := complete_spec H
    rw [fill_of_held held]
    refine ⟨hwhole, fun hlt => ?_⟩
    obtain ⟨s', hc, -, hstanding⟩ := hcut hlt
    exact ⟨s', hc, hstanding⟩
  cases place with
  | holding p h => exact key H
  | searching b =>
      have hsearch := search_spec H 1441
      obtain ⟨hheld, -, -⟩ := H
      rw [Place.next?]
      rcases hl : leftmost? data 1441 b with _ | ⟨p, h⟩
      · rw [hl] at hsearch
        obtain ⟨s', hs', hstanding⟩ := hsearch
        refine ⟨s', ?_, hstanding⟩
        obtain ⟨hnone, -, -⟩ := hstanding
        rw [fill, hheld, maxFrameSize]
        simp only [hs', hnone]
      · rw [hl] at hsearch
        obtain ⟨s', hs', hheld', hstanding⟩ := hsearch
        have hfill : fill s = fill s' := by
          rw [fill_of_held hheld', fill, hheld, maxFrameSize]
          simp only [hs', hheld']
        rw [hfill]
        exact key hstanding

/-- **Filling gives the frame that comes next.** When there is none, filling says so and the reader
is at some place still; when there is one, letting go of it leads to the frames behind it. -/
theorem fill_spec {place : Place} (H : Standing data length place s) :
    match place.frames data with
    | [] => ∃ s' place', fill s = .ok false s' ∧ Standing data length place' s'
    | f :: rest => ∃ s' q, fill s = .ok true s' ∧ s'.frame = f ∧
        Standing data length (.searching q) s'.release ∧ framesFrom data q = rest := by
  have hplace := fill_place H
  rcases hnext : place.next? data with _ | ⟨p, h⟩
  · rw [hnext] at hplace
    obtain ⟨s', hfill, hstanding⟩ := hplace
    rw [Place.frames_of_next?_eq_none hnext]
    exact ⟨s', _, hfill, hstanding⟩
  · rw [hnext] at hplace
    obtain ⟨hwhole, hcut⟩ := hplace
    rw [Place.frames_of_next?_eq_some hnext]
    by_cases hfits : p + h.frameSize ≤ data.length
    · obtain ⟨s', hfill, hheld, -, hat⟩ := hwhole hfits
      rw [framesAt_of_fits hfits]
      refine ⟨s', p + h.frameSize, hfill, ?_, standing_release hat, rfl⟩
      rw [frame, hheld]
      rfl
    · obtain ⟨s', hfill, hstanding⟩ := hcut (by omega)
      rw [framesAt_of_cut (by omega)]
      exact ⟨s', _, hfill, hstanding⟩

end MpegAudio.Synchronizer
