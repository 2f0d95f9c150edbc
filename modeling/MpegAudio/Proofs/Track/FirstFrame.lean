import MpegAudio.Proofs.Track.Tags

/-!
# The first frame

The first frame settles how times are found and from where the stream is played. It is read as far
as it is there. A summary is only recognised in a frame that is all there, since it stands behind
the side information, so a frame that is passed over has been read to its end.

## Main definitions

* `Track.firstBytes`, `Track.locatorAt` — the bytes of the first frame, and what follows from them.
* `Track.placeAt` — the place that reading the headers leads to.
* `Track.audioStart` — the position from which frames are played.
* `Track.firstFrame data start limit` — the first frame, or a count of positions.
* `Track.read_spec` — reading the headers, computed from the data alone.
-/

namespace MpegAudio

open Bytes Header

theorem Summary.ofFrame?_of_short {start length : Nat} {header : Header} {frame : List UInt8}
    (H : frame.length < header.sideInfoEnd + 4) : ofFrame? start length header frame = none := by
  rw [ofFrame?, field?_eq_none (by omega) H]
  rfl

theorem Locator.isSummary_choose_of_none {start : Nat} {length : Option Nat} {header : Header}
    {frame : List UInt8}
    (H : ∀ n, length = some n → Summary.ofFrame? start n header frame = none) :
    (choose start length header frame).isSummary = false := by
  cases length with
  | none => rfl
  | some n =>
      rw [choose]
      simp only [H n rfl]
      rfl

namespace Track

open Synchronizer

/-- The bytes of the frame at `p` that reading the headers collects: the whole frame, or its header
alone where the data ends inside the frame. -/
def firstBytes (data : List UInt8) (p : Nat) (h : Header) : List UInt8 :=
  slice data p (if p + h.frameSize ≤ data.length then h.frameSize else size)

/-- The way to find times in a stream of which the first frame stands at `p`. -/
def locatorAt (data : List UInt8) (length : Option Nat) (p : Nat) (h : Header) : Locator :=
  Locator.choose p length h (firstBytes data p h)

/-- The place to which reading the headers leads. A summary has been passed over, and any other
first frame is held. -/
def placeAt (data : List UInt8) (length : Option Nat) (p : Nat) (h : Header) : Place :=
  if (locatorAt data length p h).isSummary then .searching (p + h.frameSize) else .holding p h

/-- Where the audio begins: behind the first frame if it is a summary, and otherwise with it. -/
def audioStart (data : List UInt8) (length : Option Nat) (p : Nat) (h : Header) : Nat :=
  if (locatorAt data length p h).isSummary then p + h.frameSize else p

variable {data : List UInt8} {length : Option Nat} {pos p : Nat} {h : Header} {s : Synchronizer}

/-- The frames still to come after the headers are those from the start of the audio on. -/
theorem frames_placeAt (H : at? data p = some h) :
    (placeAt data length p h).frames data = framesFrom data (audioStart data length p h) := by
  rw [placeAt, audioStart]
  by_cases hsummary : (locatorAt data length p h).isSummary
  · rw [if_pos hsummary, if_pos hsummary]
    rfl
  · rw [if_neg hsummary, if_neg hsummary, framesFrom_of_at? H]
    rfl

theorem isSummary_locatorAt_of_cut (H : data.length < p + h.frameSize) :
    (locatorAt data length p h).isSummary = false := by
  apply Locator.isSummary_choose_of_none
  intro n _
  apply Summary.ofFrame?_of_short
  have hlen : (firstBytes data p h).length ≤ size := by
    rw [firstBytes, if_neg (by omega), length_slice]
    omega
  have hside : size < h.sideInfoEnd + 4 := by
    rw [sideInfoEnd]
    omega
  omega

/-- Once the header of the first frame has been found, the rest never fails. -/
theorem readLocator_spec (H : Standing data length (.holding p h) s)
    (hheld : s.held = some ⟨h, slice data p size⟩) :
    ∃ s', readLocator h s = .ok (locatorAt data length p h) s' ∧ s'.frameStart = p ∧
      Standing data length (placeAt data length p h) s' := by
  -- What has been read of the frame decides, and in either case it is `firstBytes`.
  have key : ∀ (whole : Bool) (s' : Synchronizer), s.fill = .ok whole s' →
      s'.frame = firstBytes data p h → Standing data length (.holding p h) s' →
      readLocator h s = .ok (locatorAt data length p h)
        (if (locatorAt data length p h).isSummary then s'.release else s') := by
    intro whole s' hfill hframe hstanding
    obtain ⟨pos, hat⟩ := hstanding.exists_at
    rw [readLocator, hfill]
    simp only [hstanding.frameStart_eq, hat.length_eq, hframe]
    rfl
  obtain ⟨f, held, hwhole, hcut⟩ := complete_spec H
  rw [← fill_of_held held] at hwhole hcut
  by_cases hfits : p + h.frameSize ≤ data.length
  · obtain ⟨s', hfill, hheld', hstanding, hat⟩ := hwhole hfits
    have hframe : s'.frame = firstBytes data p h := by
      rw [frame, hheld', firstBytes, if_pos hfits]
      rfl
    refine ⟨_, key true s' hfill hframe hstanding, ?_⟩
    rw [placeAt]
    by_cases hsummary : (locatorAt data length p h).isSummary
    · rw [if_pos hsummary, if_pos hsummary]
      exact ⟨hstanding.frameStart_eq, standing_release hat⟩
    · rw [if_neg hsummary, if_neg hsummary]
      exact ⟨hstanding.frameStart_eq, hstanding⟩
  · obtain ⟨s', hfill, hheld', hstanding⟩ := hcut (by omega)
    have hframe : s'.frame = firstBytes data p h := by
      rw [frame, hheld', hheld, firstBytes, if_neg hfits]
      rfl
    have hsummary : ¬(locatorAt data length p h).isSummary := by
      rw [isSummary_locatorAt_of_cut (by omega)]
      decide
    refine ⟨_, key false s' hfill hframe hstanding, ?_⟩
    rw [placeAt, if_neg hsummary, if_neg hsummary]
    exact ⟨hstanding.frameStart_eq, hstanding⟩

/-- The first frame of a stream that is read from `start` on: the leftmost header behind the tag, at
one of `limit` positions, with its place. When there is none, the number of positions that the data
had room for. -/
def firstFrame (data : List UInt8) (start limit : Nat) : Except Nat (Nat × Header) :=
  match searchStart? data start with
  | none => .error 0
  | some e =>
    match leftmost? data limit e with
    | none => .error (min limit (data.length - e - 3))
    | some found => .ok found

theorem firstFrame_of_cut {limit : Nat} (H : searchStart? data pos = none) :
    firstFrame data pos limit = .error 0 := by
  rw [firstFrame, H]

theorem firstFrame_of_start {limit e : Nat} (H : searchStart? data pos = some e) :
    firstFrame data pos limit =
      match leftmost? data limit e with
      | none => .error (min limit (data.length - e - 3))
      | some found => .ok found := by
  rw [firstFrame, H]

theorem firstFrame_eq_ok_iff {limit : Nat} :
    firstFrame data pos limit = .ok (p, h) ↔
      ∃ e, searchStart? data pos = some e ∧ leftmost? data limit e = some (p, h) := by
  rcases he : searchStart? data pos with _ | e
  · rw [firstFrame_of_cut he]
    simp
  · rw [firstFrame_of_start he]
    rcases hl : leftmost? data limit e with _ | found
    · simp [hl]
    · simp [hl]

theorem at?_of_firstFrame {limit : Nat} (H : firstFrame data pos limit = .ok (p, h)) :
    at? data p = some h := by
  obtain ⟨e, -, hl⟩ := firstFrame_eq_ok_iff.mp H
  exact (leftmost?_eq_some_iff.mp hl).2.2.1

private theorem leftmost?_of_cut {limit e : Nat} (H : data.length < e + size) :
    leftmost? data limit e = none := by
  rw [leftmost?_eq_none_iff]
  intro c hle _
  apply at?_eq_none
  omega

/-- **Reading the headers is decided by the data.** The headers are those of the stream behind the
tag whose first frame is the leftmost one within the limit. When there is none, or when the preamble
of the tag is cut off, the error tells how many positions were examined. -/
theorem read_spec (H : Fresh data length pos s) (limit : Nat) :
    match firstFrame data pos limit with
    | .error count => ∃ s', read limit s = .error (.noFrame count) s'
    | .ok (p, h) => ∃ tags s',
        read limit s = .ok ⟨tags, h.clock, locatorAt data length p h⟩ s' ∧ s'.frameStart = p ∧
          Standing data length (placeAt data length p h) s' := by
  -- A tag that cannot be read leaves no positions to examine.
  have hfailed : ∀ s', skipTag s = .error .endOfData s' →
      read limit s = .error (.noFrame 0) s' := by
    intro s' hskip
    have htags : readTags s = .error (.noFrame 0) s' := by
      rw [readTags, hskip]
      rfl
    rw [read, bind_of_error htags]
  have hskip := skipTag_spec H
  rcases he : searchStart? data pos with _ | e
  · rw [he] at hskip
    rw [firstFrame_of_cut he]
    obtain ⟨s', hskip⟩ := hskip
    exact ⟨s', hfailed s' hskip⟩
  · rw [he] at hskip
    rw [firstFrame_of_start he]
    rcases hskip with ⟨tags, s₁, hskip, hstanding⟩ | ⟨s', hskip, hcut⟩
    · have htags : readTags s = .ok tags s₁ := by rw [readTags, hskip]
      have hsearch := search_spec hstanding limit
      rw [read, bind_of_ok htags]
      rcases hl : leftmost? data limit e with _ | ⟨p, h⟩
      · rw [hl] at hsearch
        obtain ⟨s₂, hsearch, -⟩ := hsearch
        have hrequire : require limit s₁ =
            .error (.noFrame (min limit (data.length - e - 3))) s₂ := by
          rw [require, hsearch]
        exact ⟨s₂, bind_of_error hrequire⟩
      · rw [hl] at hsearch
        obtain ⟨s₂, hsearch, hheld, hstanding⟩ := hsearch
        have hrequire : require limit s₁ = .ok () s₂ := by rw [require, hsearch]
        obtain ⟨s₃, hlocator, hstart, hplace⟩ := readLocator_spec hstanding hheld
        have hheader : s₂.header? = some h := by
          rw [header?, hheld]
          rfl
        have hget : (get : Action Synchronizer) s₂ = .ok s₂ s₂ := rfl
        refine ⟨tags, s₃, ?_, hstart, hplace⟩
        rw [bind_of_ok hrequire, bind_of_ok hget]
        simp only [hheader]
        rw [bind_of_ok hlocator]
        rfl
    · have hzero : min limit (data.length - e - 3) = 0 := by
        rw [size] at hcut
        omega
      rw [leftmost?_of_cut hcut, hzero]
      exact ⟨s', hfailed s' hskip⟩

end Track

end MpegAudio
