import MpegAudio.Proofs.Locator.Choice
import MpegAudio.Proofs.Session.Runs

/-!
# The end of the stream

Playing ends with the stream when no frame can be filled. That need not mean that no frame is left.
A search examines as many positions as the longest frame has bytes, and gives up behind a longer
gap; and a frame that is cut off hides whatever stands inside it. Both are the only ways: from the
position where playback was taken up last, a frame that is left is hidden by one or the other.

The position is a matter of what was done with the session: the end of the last frame that the
decoder was given, or the place that was sought last, or where the headers left playback. No field
of the session holds it, so it is computed alongside.
-/

namespace MpegAudio.Session

open Bytes Header Synchronizer

variable {δ : Type} {data : List UInt8} {length : Option Nat} {pos limit b : Nat} {s : Session δ}

/-! ## Where playback is taken up -/

/-- Where the headers leave playback: behind a summary, and otherwise at the first frame. -/
def audioStart (s : Session δ) : Nat :=
  match s.locator? with
  | some (.summary summary) => summary.dataStart
  | _ => s.synchronizer.frameStart

theorem follows_placeAt {p : Nat} {h : Header} {tags : Tag.Table} (hat : at? data p = some h)
    (hheaders : s.headers = .known ⟨tags, h.clock, Track.locatorAt data length p h⟩)
    (hstart : s.synchronizer.frameStart = p) :
    (Track.placeAt data length p h).Follows data s.audioStart := by
  have hlocator : s.locator? = some (Track.locatorAt data length p h) := by
    rw [locator?, track?, hheaders]
    rfl
  rw [audioStart, hlocator, Track.placeAt]
  rcases hl : Track.locatorAt data length p h with summary | rate | _
  · have hdata : summary.dataStart = p + h.frameSize := Locator.dataStart_of_choose hl
    simp only [Locator.isSummary, if_true, hdata]
    exact Place.follows_searching data _
  all_goals
    simp only [Locator.isSummary, Bool.false_eq_true, if_false, hstart]
    exact Place.follows_holding hat

variable [Decoder δ]

/-- Where the last frame ends that playing gives to the decoder, and `b` when there is none. -/
def lastEnd (limit : Option Nat) (s : Session δ) (b : Nat) : Nat :=
  if limit = some 0 then b
  else
    match _h : s.synchronizer.fill with
    | .error _ _ => b
    | .ok false _ => b
    | .ok true synchronizer =>
      lastEnd (limit.map (· - 1)) { s with synchronizer := synchronizer }.playHeld
        (synchronizer.frameStart + synchronizer.frameSize)
termination_by s.synchronizer.pending
decreasing_by
  simpa using Synchronizer.pending_release_lt_of_fill _h

/-- Where playback is taken up after an operation, if it was at `b` before. -/
def resumptionStep (s : Session δ) (b : Nat) : Operation → Nat
  | .readHeaders =>
    match s.headers, readHeaders s with
    | .unread, .ok () s' => s'.audioStart
    | _, _ => b
  | .play limit => if s.track?.isSome ∧ s.closed = false then lastEnd limit s b else b
  | .seekTo requested =>
    match seekTo requested s with
    | .ok _ s' => s'.synchronizer.source.position
    | .error _ _ => b
  | .close => b

/-- Where playback is taken up after a series of operations, if it was at `b` before. -/
def resumption (s : Session δ) (b : Nat) : List Operation → Nat
  | [] => b
  | op :: ops => resumption (s.perform op) (s.resumptionStep b op) ops

/-- Until the session is closed, playing with known headers goes into the loop. -/
theorem play_eq_playOn (hknown : s.track?.isSome) (hopen : s.closed = false)
    (count : Option Nat) : play count s = playOn count s := by
  obtain ⟨track, htrack⟩ := Option.isSome_iff_exists.mp hknown
  rw [play, htrack]
  simp only [hopen, Bool.false_eq_true, if_false]

/-- Playing takes up at the end of the last frame that it gives to the decoder. -/
theorem resumptionStep_play (hknown : s.track?.isSome) (hopen : s.closed = false) (b : Nat)
    (count : Option Nat) : s.resumptionStep b (.play count) = lastEnd count s b :=
  if_pos ⟨hknown, hopen⟩

theorem lastEnd_zero (s : Session δ) (b : Nat) : lastEnd (some 0) s b = b := by
  rw [lastEnd, if_pos rfl]

theorem lastEnd_of_end {limit : Option Nat} {synchronizer : Synchronizer} (b : Nat)
    (hlimit : limit ≠ some 0) (H : s.synchronizer.fill = .ok false synchronizer) :
    lastEnd limit s b = b := by
  rw [lastEnd, if_neg hlimit]
  split
  · rfl
  · rfl
  · rename_i hfill
    rw [H] at hfill
    cases hfill

theorem lastEnd_of_frame {limit : Option Nat} {synchronizer : Synchronizer} (b : Nat)
    (hlimit : limit ≠ some 0) (H : s.synchronizer.fill = .ok true synchronizer) :
    lastEnd limit s b =
      lastEnd (limit.map (· - 1)) { s with synchronizer := synchronizer }.playHeld
        (synchronizer.frameStart + synchronizer.frameSize) := by
  rw [lastEnd, if_neg hlimit]
  split
  · rename_i hfill
    rw [H] at hfill
    cases hfill
  · rename_i hfill
    rw [H] at hfill
    cases hfill
  · rename_i hfill
    rw [H] at hfill
    cases hfill
    rfl

/-! ## Playing -/

/-- The data ends, as far as playing from `b` on can tell: as many positions as the longest frame has
bytes hold no header, or the first header is that of a frame that is cut off. -/
def Ended (data : List UInt8) (b : Nat) : Prop :=
  (∀ c, b ≤ c → c < b + maxFrameSize → at? data c = none) ∨
    ∃ p h, b ≤ p ∧ at? data p = some h ∧ data.length < p + h.frameSize ∧
      ∀ c, b ≤ c → c < p → at? data c = none

theorem ended_of_frames_eq_nil {place : Place} (H : place.Follows data b)
    (hframes : place.frames data = []) : Ended data b := by
  rcases hnext : place.next? data with _ | ⟨p, h⟩
  · left
    cases place with
    | searching next =>
        obtain ⟨hle, hnone⟩ := H
        intro c hc hlt
        rw [maxFrameSize] at hlt
        by_cases hcn : c < next
        · exact hnone c hc hcn
        · exact leftmost?_eq_none_iff.mp hnext c (by omega) (by omega)
    | holding start header => cases hnext
  · right
    obtain ⟨hle, hat, hbefore⟩ := H.holding hnext
    refine ⟨p, h, hle, hat, ?_, hbefore⟩
    rw [Place.frames_of_next?_eq_some hnext] at hframes
    by_contra hfits
    rw [framesAt_of_fits (by omega)] at hframes
    cases hframes

/-- Where no frame is to come, filling passes nothing over. -/
theorem fill_of_frames_eq_nil {r : Synchronizer} {place : Place} (H : Standing data length place r)
    (hfollows : place.Follows data b) (hframes : place.frames data = []) :
    ∃ r' place', fill r = .ok false r' ∧ Standing data length place' r' ∧
      place'.Follows data b := by
  have hfill := fill_place H
  rcases hnext : place.next? data with _ | ⟨p, h⟩
  · rw [hnext] at hfill
    obtain ⟨r', hfill, hstanding⟩ := hfill
    exact ⟨r', _, hfill, hstanding, hfollows.beyond hnext⟩
  · rw [hnext] at hfill
    rw [Place.frames_of_next?_eq_some hnext] at hframes
    by_cases hfits : p + h.frameSize ≤ data.length
    · rw [framesAt_of_fits hfits] at hframes
      cases hframes
    · obtain ⟨r', hfill, hstanding⟩ := hfill.2 (by omega)
      exact ⟨r', _, hfill, hstanding, hfollows.holding hnext⟩

/-- Where a frame is to come, filling leads to its end. -/
theorem fill_of_frames_eq_cons {r : Synchronizer} {place : Place} {frame : List UInt8}
    {rest : List (List UInt8)} (H : Standing data length place r)
    (hframes : place.frames data = frame :: rest) :
    ∃ r', fill r = .ok true r' ∧
      Standing data length (.searching (r'.frameStart + r'.frameSize)) r'.release ∧
      framesFrom data (r'.frameStart + r'.frameSize) = rest := by
  have hfill := fill_place H
  rcases hnext : place.next? data with _ | ⟨p, h⟩
  · rw [Place.frames_of_next?_eq_none hnext] at hframes
    cases hframes
  · rw [hnext] at hfill
    rw [Place.frames_of_next?_eq_some hnext] at hframes
    by_cases hfits : p + h.frameSize ≤ data.length
    · obtain ⟨r', hfill, hheld, hstanding, hat⟩ := hfill.1 hfits
      have hend : r'.frameStart + r'.frameSize = p + h.frameSize := by
        rw [hstanding.frameStart_eq, frameSize_of_held hheld]
      rw [framesAt_of_fits hfits, List.cons.injEq] at hframes
      exact ⟨r', hfill, hend ▸ standing_release hat, hend ▸ hframes.2⟩
    · rw [framesAt_of_cut (by omega)] at hframes
      cases hframes

/-- **Playing passes nothing over.** It goes on from the end of the last frame that it gave to the
decoder, and where it ends the data has ended. -/
theorem playOn_follows (frames : List (List UInt8)) :
    ∀ (limit : Option Nat) (s : Session δ) (place : Place) (b : Nat),
      Standing data length place s.synchronizer → place.frames data = frames →
      place.Follows data b →
      ∃ outcome s' place', playOn limit s = .ok outcome s' ∧
        Standing data length place' s'.synchronizer ∧ place'.Follows data (lastEnd limit s b) ∧
        (outcome = .endOfStream → Ended data (lastEnd limit s b)) := by
  induction frames with
  | nil =>
      intro limit s place b H hframes hfollows
      by_cases hlimit : limit = some 0
      · subst hlimit
        rw [playOn_zero, lastEnd_zero]
        exact ⟨_, s, place, rfl, H, hfollows, fun h => nomatch h⟩
      · obtain ⟨r, place', hfill, hstanding, hfollows'⟩ := fill_of_frames_eq_nil H hfollows hframes
        rw [playOn_of_end hlimit hfill, lastEnd_of_end b hlimit hfill]
        exact ⟨_, _, place', rfl, hstanding, hfollows',
          fun _ => ended_of_frames_eq_nil hfollows hframes⟩
  | cons frame rest ih =>
      intro limit s place b H hframes hfollows
      by_cases hlimit : limit = some 0
      · subst hlimit
        rw [playOn_zero, lastEnd_zero]
        exact ⟨_, s, place, rfl, H, hfollows, fun h => nomatch h⟩
      · obtain ⟨r, hfill, hstanding, hrest⟩ := fill_of_frames_eq_cons H hframes
        rw [playOn_of_frame hlimit hfill, lastEnd_of_frame b hlimit hfill]
        refine ih _ _ (.searching (r.frameStart + r.frameSize)) _ ?_ hrest
          (Place.follows_searching data _)
        rw [synchronizer_playHeld]
        exact hstanding

/-! ## Any series of operations -/

/-- If the headers are known, the reader is at a place, and nothing that could be a frame has been
passed over since `b`. -/
def Tracked (data : List UInt8) (length : Option Nat) (b : Nat) (s : Session δ) : Prop :=
  s.track?.isSome → ∃ place, Standing data length place s.synchronizer ∧ place.Follows data b

theorem tracked_readHeaders (hs : Consistent data length pos limit s)
    (H : Tracked data length b s) :
    Tracked data length (s.resumptionStep b .readHeaders) (s.perform .readHeaders) := by
  rw [resumptionStep, perform]
  cases hs with
  | unread hunread limit_eq =>
      rcases hfirst : Track.firstFrame data pos s.searchLimit with count | ⟨p, h⟩
      · have hspec := readHeaders_spec hunread
        rw [hfirst] at hspec
        obtain ⟨synchronizer, hspec⟩ := hspec
        rw [hspec]
        intro hknown
        cases hknown
      · obtain ⟨tags, synchronizer, hspec, hstart, hplace⟩ :=
          readHeaders_of_firstFrame hunread hfirst
        rw [hspec, hunread.headers, left, openSink_eq]
        intro _
        exact ⟨_, hplace, follows_placeAt (Track.at?_of_firstFrame hfirst) rfl hstart⟩
  | failed missing headers =>
      rw [readHeaders, headers]
      exact H
  | known found headers standing =>
      rw [readHeaders, headers]
      exact H

theorem tracked_play (H : Tracked data length b s) (count : Option Nat) :
    Tracked data length (s.resumptionStep b (.play count)) (s.perform (.play count)) := by
  rw [perform]
  by_cases hready : s.track?.isSome ∧ s.closed = false
  · obtain ⟨hknown, hopen⟩ := hready
    obtain ⟨place, hstanding, hfollows⟩ := H hknown
    obtain ⟨outcome, s', place', hplay, hstanding', hfollows', -⟩ :=
      playOn_follows _ count s place b hstanding rfl hfollows
    rw [resumptionStep_play hknown hopen, play_eq_playOn hknown hopen, hplay]
    intro _
    exact ⟨place', hstanding', hfollows'⟩
  · have hsame : left (play count s) = s := by
      rw [play]
      rcases htrack : s.track? with _ | track
      · rfl
      · have hclosed : s.closed := by
          by_contra hopen
          exact hready ⟨by rw [htrack]; rfl, by simpa using hopen⟩
        simp only [hclosed, if_true, left]
    rw [resumptionStep, if_neg hready, hsame]
    exact H

theorem tracked_seekTo (H : Tracked data length b s) (requested : Duration) :
    Tracked data length (s.resumptionStep b (.seekTo requested))
      (s.perform (.seekTo requested)) := by
  rw [resumptionStep, perform]
  rcases hheaders : s.headers with _ | error | track
  · rw [seekTo, track?, hheaders]
    exact H
  · rw [seekTo, track?, hheaders]
    exact H
  · rcases ht : track.locator.target? requested.toMillis with _ | target
    · rw [seekTo_of_live hheaders ht]
      exact H
    · obtain ⟨place, hstanding, -⟩ := H (by rw [track?, hheaders]; rfl)
      obtain ⟨synchronizer, hseek, hstanding', hposition⟩ :=
        seekTo_of_target hheaders ht hstanding
      rw [hseek, left, tell_eq]
      intro _
      refine ⟨_, hstanding', ?_⟩
      simp only [hposition]
      exact Place.follows_searching data _

theorem tracked_close (H : Tracked data length b s) :
    Tracked data length (s.resumptionStep b .close) (s.perform .close) := by
  rw [resumptionStep, perform, close]
  by_cases hclosed : s.closed
  · rw [if_pos hclosed]
    exact H
  · rw [if_neg hclosed, tell_eq]
    exact H

/-- **Whatever is done with a session, nothing is passed over.** -/
theorem tracked_run (hs : Consistent data length pos limit s) (H : Tracked data length b s)
    (ops : List Operation) : Tracked data length (s.resumption b ops) (s.run ops) := by
  induction ops generalizing s b with
  | nil => exact H
  | cons op ops ih =>
      apply ih (consistent_perform hs op)
      cases op with
      | readHeaders => exact tracked_readHeaders hs H
      | play count => exact tracked_play H count
      | seekTo requested => exact tracked_seekTo H requested
      | close => exact tracked_close H

theorem resumption_append (s : Session δ) (b : Nat) (ops ops' : List Operation) :
    s.resumption b (ops ++ ops') = (s.run ops).resumption (s.resumption b ops) ops' := by
  induction ops generalizing s b with
  | nil => rfl
  | cons op ops ih => exact ih (s.perform op) (s.resumptionStep b op)

/-! ## Where no frame is left -/

/-- The frames that the decoder has been given. -/
def decoded (s : Session δ) : List (List UInt8) := s.journal.toList.filterMap Event.frame?

theorem decoded_of_play {place : Place} {outcome : Outcome} {s' : Session δ}
    (hknown : s.track?.isSome) (hopen : s.closed = false)
    (H : Standing data length place s.synchronizer) (hplay : play none s = .ok outcome s') :
    s'.decoded = s.decoded ++ place.frames data := by
  obtain ⟨s'', hplay'', hjournal, -⟩ := play_spec hknown hopen H none
  rw [hplay] at hplay''
  injection hplay'' with _ hs'
  rw [decoded, hs', hjournal, List.filterMap_append, filterMap_events]
  rfl

/-- No frame from `b` on is all there. -/
def Exhausted (data : List UInt8) (b : Nat) : Prop :=
  ∀ p h, b ≤ p → at? data p = some h → data.length < p + h.frameSize

theorem frames_of_exhausted {place : Place} (H : place.Follows data b) (hnone : Exhausted data b) :
    place.frames data = [] := by
  rcases hnext : place.next? data with _ | ⟨p, h⟩
  · exact Place.frames_of_next?_eq_none hnext
  · obtain ⟨hle, hat, -⟩ := H.holding hnext
    rw [Place.frames_of_next?_eq_some hnext, framesAt_of_cut (hnone p h hle hat)]

theorem play_of_exhausted (hknown : s.track?.isSome) (H : Tracked data length b s)
    (hnone : Exhausted data b) (count : Option Nat) :
    ∃ outcome s', play count s = .ok outcome s' ∧
      (count ≠ some 0 → outcome = .endOfStream) ∧ s'.track? = s.track? ∧
      s'.decoded = s.decoded ∧ Tracked data length b s' := by
  obtain ⟨place, hstanding, hfollows⟩ := H hknown
  by_cases hclosed : s.closed
  · obtain ⟨track, htrack⟩ := Option.isSome_iff_exists.mp hknown
    rw [play, htrack]
    simp only [if_pos hclosed]
    exact ⟨_, s, rfl, fun _ => rfl, htrack, rfl, H⟩
  · rw [play_eq_playOn hknown (by simpa using hclosed)]
    by_cases hcount : count = some 0
    · subst hcount
      rw [playOn_zero]
      exact ⟨_, s, rfl, fun h => absurd rfl h, rfl, rfl, H⟩
    · obtain ⟨r, place', hfill, hstanding', hfollows'⟩ :=
        fill_of_frames_eq_nil hstanding hfollows (frames_of_exhausted hfollows hnone)
      rw [playOn_of_end hcount hfill]
      exact ⟨_, _, rfl, fun _ => rfl, rfl, rfl, fun _ => ⟨place', hstanding', hfollows'⟩⟩

/-- Where no frame is left, nothing that takes up no other time changes this, and the decoder is
given nothing. -/
theorem perform_of_exhausted (hknown : s.track?.isSome) (H : Tracked data length b s)
    (hnone : Exhausted data b) {op : Operation} (hop : ∀ t, op ≠ .seekTo t) :
    (s.perform op).track?.isSome ∧ Tracked data length b (s.perform op) ∧
      (s.perform op).decoded = s.decoded := by
  cases op with
  | readHeaders =>
      rw [perform, readHeaders_of_known hknown]
      exact ⟨hknown, H, rfl⟩
  | play count =>
      obtain ⟨outcome, s', hplay, -, htrack, hdecoded, H'⟩ :=
        play_of_exhausted hknown H hnone count
      rw [perform, hplay, left, htrack]
      exact ⟨hknown, H', hdecoded⟩
  | seekTo requested => exact absurd rfl (hop requested)
  | close =>
      rw [perform, close]
      by_cases hclosed : s.closed
      · rw [if_pos hclosed]
        exact ⟨hknown, H, rfl⟩
      · rw [if_neg hclosed, tell_eq]
        refine ⟨hknown, H, ?_⟩
        simp only [decoded, note, Array.toList_push, Array.toList_append, List.filterMap_append]
        split <;> simp [Event.frame?]

theorem run_of_exhausted (hknown : s.track?.isSome) (H : Tracked data length b s)
    (hnone : Exhausted data b) {ops : List Operation} (hops : ∀ t, .seekTo t ∉ ops) :
    (s.run ops).track?.isSome ∧ Tracked data length b (s.run ops) ∧
      (s.run ops).decoded = s.decoded := by
  induction ops generalizing s with
  | nil => exact ⟨hknown, H, rfl⟩
  | cons op ops ih =>
      have hop : ∀ t, op ≠ .seekTo t := by
        rintro t rfl
        exact hops t List.mem_cons_self
      obtain ⟨hknown', H', hdecoded⟩ := perform_of_exhausted hknown H hnone hop
      obtain ⟨hknown'', H'', hdecoded'⟩ :=
        ih hknown' H' fun t hmem => hops t (List.mem_cons_of_mem op hmem)
      exact ⟨hknown'', H'', hdecoded'.trans hdecoded⟩

/-! ## What the end of the stream says -/

/-- **At the end of the stream a frame is left only where it is hidden.** Whatever has been done with
a session, let playing end with the stream, and let `b` be the position at which playback would be
taken up then. A frame from `b` on that is all there has the longest frame's length of positions
from `b` on before it, none of which holds a header, or stands behind the header of a frame that is
cut off. And if no frame from `b` on is all there, playing goes on to end with the stream and to give
the decoder nothing, whatever is done in between, until another time is sought. -/
theorem play_endOfStream {m : Medium} (hm : m.conduct.Faultless) {decoder : δ}
    {settings : Settings} (hs : setUp (some (.ofMedium m length)) (some decoder) settings = .ok s)
    (ops : List Operation) {count : Option Nat} {s₁ : Session δ}
    (hopen : (s.run ops).closed = false) (hplay : play count (s.run ops) = .ok .endOfStream s₁) :
    let data := m.data.toList
    let b := s.resumption m.cursor (ops ++ [.play count])
    (∀ p h, b ≤ p → at? data p = some h → p + h.frameSize ≤ data.length →
      (b + maxFrameSize ≤ p ∧ ∀ c, b ≤ c → c < b + maxFrameSize → at? data c = none) ∨
        ∃ c cut, b ≤ c ∧ c < p ∧ at? data c = some cut ∧ data.length < c + cut.frameSize) ∧
    ((∀ p h, b ≤ p → at? data p = some h → data.length < p + h.frameSize) →
      ∀ more, (∀ t, .seekTo t ∉ more) → ∀ count', count' ≠ some 0 →
        ∃ s₂, play count' (s₁.run more) = .ok .endOfStream s₂ ∧ s₂.decoded = s₁.decoded) := by
  intro data b
  have hstart := consistent_of_setUp hm hs
  have hunknown : s.track? = none := by
    rw [track?, (unread_of_setUp hm hs).1.headers]
  have htracked : Tracked data length m.cursor s := by
    intro hknown
    rw [hunknown] at hknown
    cases hknown
  have hrun := tracked_run hstart htracked ops
  -- Playing succeeds only when the headers are known.
  obtain ⟨track, htrack⟩ : ∃ track, (s.run ops).track? = some track := by
    rcases htrack : (s.run ops).track? with _ | track
    · rw [play, htrack] at hplay
      cases hplay
    · exact ⟨track, rfl⟩
  have hknown : (s.run ops).track?.isSome := by rw [htrack]; rfl
  have hb : b = lastEnd count (s.run ops) (s.resumption m.cursor ops) := by
    have hstep : b = (s.run ops).resumptionStep (s.resumption m.cursor ops) (.play count) :=
      resumption_append s m.cursor ops [.play count]
    rw [hstep, resumptionStep_play hknown hopen]
  obtain ⟨place, hstanding, hfollows⟩ := hrun hknown
  obtain ⟨outcome, s', place', hplayOn, hstanding₁, hfollows₁, hended⟩ :=
    playOn_follows _ count (s.run ops) place _ hstanding rfl hfollows
  obtain ⟨_, _, _, _, hshape, -⟩ := playOn_spec _ count (s.run ops) place hstanding rfl
  rw [play_eq_playOn hknown hopen, hplayOn] at hplay
  cases hplay
  rw [← hb] at hfollows₁ hended
  have hknown₁ : s₁.track?.isSome := by
    rw [hplayOn] at hshape
    injection hshape with _ hs₁
    rw [hs₁]
    exact hknown
  constructor
  · intro p h hle hat hfits
    rcases hended rfl with hgap | ⟨c, cut, hc, hcat, hcut, hbefore⟩
    · left
      refine ⟨?_, hgap⟩
      by_contra hnear
      rw [hgap p hle (by omega)] at hat
      cases hat
    · right
      refine ⟨c, cut, hc, ?_, hcat, hcut⟩
      by_contra hnot
      have hpc : p = c := by
        by_contra hne
        rw [hbefore p hle (by omega)] at hat
        cases hat
      subst hpc
      rw [hcat] at hat
      cases hat
      exact absurd hfits (Nat.not_le.mpr hcut)
  · intro hnone more hmore count' hcount'
    obtain ⟨hknown₂, htracked₂, hdecoded⟩ := run_of_exhausted (s := s₁) hknown₁
      (fun _ => ⟨place', hstanding₁, hfollows₁⟩) hnone hmore
    obtain ⟨outcome, s₂, hplay₂, hend, -, hdecoded₂, -⟩ :=
      play_of_exhausted hknown₂ htracked₂ hnone count'
    cases hend hcount'
    exact ⟨s₂, hplay₂, hdecoded₂.trans hdecoded⟩

private theorem exists_first_frame {m : Medium} (hm : m.conduct.Faultless) {decoder : δ}
    {settings : Settings} {p : Nat} {h : Header}
    (hs : setUp (some (.ofMedium m none)) (some decoder) settings = .ok s)
    (hfirst : Track.firstFrame m.data.toList m.cursor settings.searchLimit = .ok (p, h)) :
    ∃ s₁, readHeaders s = .ok () s₁ ∧ s₁.track?.isSome ∧ s₁.closed = false ∧ s₁.decoded = [] ∧
      Standing m.data.toList none (.holding p h) s₁.synchronizer ∧
      s.resumptionStep m.cursor .readHeaders = p := by
  obtain ⟨hunread, hlimit⟩ := unread_of_setUp hm hs
  rw [← hlimit] at hfirst
  obtain ⟨tags, synchronizer, hread, hstart, hplace⟩ := readHeaders_of_firstFrame hunread hfirst
  refine ⟨_, hread, ?_⟩
  rw [resumptionStep, hunread.headers, hread, openSink_eq]
  refine ⟨rfl, ?_, ?_, hplace, hstart⟩
  · cases hs
    rfl
  · cases hs
    cases settings.hasSink <;> rfl

/-- The header of a frame that is cut off, and inside it a frame that is all there. Playing ends with
the stream at once, and the one hides the other. -/
theorem play_endOfStream_cut :
    let cut : List UInt8 := [0xFF, 0xFB, 0x90, 0x00]
    let frame : List UInt8 := [0xFF, 0xF3, 0x14, 0x00] ++ List.replicate 20 0
    let m : Medium := ⟨(cut ++ frame).toArray, 0, .plain, {}, 0⟩
    ∃ s s₁ : Session Stamp,
      setUp (some (.ofMedium m none)) (some ⟨.call, 0, none, 0⟩) {} = .ok s ∧
        play none (s.run [.readHeaders]) = .ok .endOfStream s₁ ∧
        s.resumption 0 [.readHeaders, .play none] = 0 ∧
        (∃ h, at? m.data.toList 4 = some h ∧ 4 + h.frameSize ≤ m.data.toList.length) ∧
        ∃ c h, 0 ≤ c ∧ c < 4 ∧ at? m.data.toList c = some h ∧
          m.data.toList.length < c + h.frameSize := by
  intro cut frame m
  obtain ⟨s, hs⟩ : ∃ s : Session Stamp,
      setUp (some (.ofMedium m none)) (some ⟨.call, 0, none, 0⟩) {} = .ok s := ⟨_, rfl⟩
  obtain ⟨h, hat⟩ : ∃ h, at? m.data.toList 0 = some h := ⟨_, rfl⟩
  obtain ⟨h', hat'⟩ : ∃ h, at? m.data.toList 4 = some h := ⟨_, rfl⟩
  have hcut : m.data.toList.length < 0 + h.frameSize := by
    cases hat
    decide
  have hfits : 4 + h'.frameSize ≤ m.data.toList.length := by
    cases hat'
    decide
  have hlimit : (none : Option Nat) ≠ some 0 := by simp
  obtain ⟨s₁, hread, hknown, hopen, -, hplace, hresume⟩ :=
    exists_first_frame Conduct.faultless_plain hs
      (Track.firstFrame_eq_ok_iff.mpr ⟨0, by decide, leftmost?_succ_of_some hat⟩)
  have hrun : s.run [.readHeaders] = s₁ := by
    rw [run, List.foldl_cons, List.foldl_nil, perform, hread, left]
  obtain ⟨r, hfill, -⟩ := (fill_place hplace).2 hcut
  have hplay : play none s₁ = .ok .endOfStream { s₁ with synchronizer := r } := by
    rw [play_eq_playOn hknown hopen, playOn_of_end hlimit hfill]
  have hb : s.resumption m.cursor ([.readHeaders] ++ [.play none]) = 0 := by
    rw [resumption_append, hrun]
    simp only [resumption, hresume]
    rw [resumptionStep_play hknown hopen, lastEnd_of_end 0 hlimit hfill]
  rw [← hrun] at hopen hplay
  obtain ⟨hhidden, -⟩ :=
    play_endOfStream Conduct.faultless_plain hs [.readHeaders] hopen hplay
  rw [hb] at hhidden
  refine ⟨s, _, hs, hplay, hb, ⟨h', hat', hfits⟩, ?_⟩
  rcases hhidden 4 h' (by decide) hat' hfits with ⟨hfar, -⟩ | hfound
  · exact absurd hfar (by decide)
  · exact hfound

/-- Behind a frame that a long gap follows, playing gives up as far into the gap as it searches. -/
theorem play_of_gap {p : Nat} {h : Header} (hknown : s.track?.isSome) (hopen : s.closed = false)
    (H : Standing data length (.holding p h) s.synchronizer) (hfits : p + h.frameSize ≤ data.length)
    (hgap : leftmost? data 1441 (p + h.frameSize) = none) :
    ∃ s', play none s = .ok .endOfStream s' ∧ s'.track?.isSome ∧ s'.closed = false ∧
      s'.decoded = s.decoded ++ [slice data p h.frameSize] ∧
      (∀ b, lastEnd none s b = p + h.frameSize) ∧
      Standing data length ((Place.searching (p + h.frameSize)).beyond data) s'.synchronizer := by
  have hlimit : (none : Option Nat) ≠ some 0 := by simp
  obtain ⟨r₁, hfill₁, hheld, hholding, hat⟩ := (fill_place H).1 hfits
  have hsearch := fill_place (standing_release hat)
  rw [Place.next?, hgap] at hsearch
  obtain ⟨r₂, hfill₂, hplace₂⟩ := hsearch
  have hfill' : { s with synchronizer := r₁ }.playHeld.synchronizer.fill = .ok false r₂ := by
    rw [synchronizer_playHeld]
    exact hfill₂
  have hplay : play none s =
      .ok .endOfStream { { s with synchronizer := r₁ }.playHeld with synchronizer := r₂ } := by
    rw [play_eq_playOn hknown hopen, playOn_of_frame hlimit hfill₁]
    exact playOn_of_end hlimit hfill'
  refine ⟨_, hplay, ?_, ?_, ?_, ?_, hplace₂⟩
  · rw [playHeld_eq]
    exact hknown
  · rw [playHeld_eq]
    exact hopen
  · rw [decoded_of_play hknown hopen H hplay, Place.frames, framesAt_of_fits hfits,
      framesFrom_of_none hgap]
  · intro b
    rw [lastEnd_of_frame b hlimit hfill₁, hholding.frameStart_eq, frameSize_of_held hheld]
    exact lastEnd_of_end _ hlimit hfill'

/-- **A long gap ends playing before the last frame.** Behind a frame stand 1500 zeros, and then
another one. Playing ends with the stream behind the first frame, though the second one is left. When
it is tried again, the second one is played. -/
theorem play_endOfStream_gap :
    let frame : List UInt8 := [0xFF, 0xF3, 0x14, 0x00] ++ List.replicate 20 0
    let m : Medium := ⟨(frame ++ (List.replicate 1500 0 ++ frame)).toArray, 0, .plain, {}, 0⟩
    ∃ s s₁ s₂ s₃ : Session Stamp,
      setUp (some (.ofMedium m none)) (some ⟨.call, 0, none, 0⟩) {} = .ok s ∧
        readHeaders s = .ok () s₁ ∧
        play none s₁ = .ok .endOfStream s₂ ∧ s₂.decoded = [frame] ∧
        (∃ p h, s.resumption 0 [.readHeaders, .play none] ≤ p ∧ at? m.data.toList p = some h ∧
          p + h.frameSize ≤ m.data.toList.length) ∧
        play none s₂ = .ok .endOfStream s₃ ∧ s₃.decoded = [frame, frame] := by
  intro frame m
  obtain ⟨s, hs⟩ : ∃ s : Session Stamp,
      setUp (some (.ofMedium m none)) (some ⟨.call, 0, none, 0⟩) {} = .ok s := ⟨_, rfl⟩
  obtain ⟨h, hh⟩ : ∃ h, ofBytes? frame = some h := ⟨_, rfl⟩
  have hsize : h.frameSize = 24 := by
    cases hh
    rfl
  -- The two frames, and the zeros between them.
  have hframe : frame.length = 24 := rfl
  have hlen : m.data.toList.length = 1548 := by
    simp only [m, frame, List.length_append, List.length_replicate, List.length_cons,
      List.length_nil]
  have hfirst : slice m.data.toList 0 24 = frame := slice_part [] frame _
  have hat : at? m.data.toList 0 = some h := by
    rw [← hh]
    exact at?_length_append (f := frame) (by decide) [] _
  have hsplit : m.data.toList = (frame ++ List.replicate 1500 0) ++ (frame ++ []) := by
    rw [List.append_nil, List.append_assoc]
  have hbehind : (frame ++ List.replicate 1500 (0 : UInt8)).length = 1524 := by
    rw [List.length_append, hframe, List.length_replicate]
  have hsecond : slice m.data.toList 1524 24 = frame := by
    rw [hsplit, ← hbehind]
    exact slice_part _ frame []
  have hat' : at? m.data.toList 1524 = some h := by
    rw [← hh, hsplit, ← hbehind]
    exact at?_length_append (by decide) _ _
  have hgap : ∀ c, 24 ≤ c → c < 1524 → at? m.data.toList c = none := by
    intro c hle hlt
    have hzero : m.data.toList[c]? = some 0 := by
      rw [hsplit, List.getElem?_append_left (by omega), List.getElem?_append_right (by omega),
        List.getElem?_replicate, if_pos (by omega)]
    exact at?_eq_none_of_ne (by simp [hzero])
  have hnone : leftmost? m.data.toList 1441 24 = none :=
    leftmost?_eq_none_iff.mpr fun c hle hlt => hgap c hle (by omega)
  have hsome : leftmost? m.data.toList 1441 1465 = some (1524, h) :=
    leftmost?_eq_some_iff.mpr ⟨by decide, by decide, hat', fun c hle hlt => hgap c (by omega) hlt⟩
  have hframes' : framesFrom m.data.toList 1465 = [frame] := by
    rw [framesFrom_of_some hsome, framesAt_of_fits (by omega), hsize, hsecond,
      framesFrom_of_length_le (by omega)]
  obtain ⟨s₁, hread, hknown, hopen, hdecoded, hplace, hresume⟩ :=
    exists_first_frame Conduct.faultless_plain hs
      (Track.firstFrame_eq_ok_iff.mpr ⟨0, by decide, leftmost?_succ_of_some hat⟩)
  -- Playing gives the first frame and gives up in the gap. From there the second one is near.
  have hfits : 0 + h.frameSize ≤ m.data.toList.length := by omega
  obtain ⟨s₂, hplay, hknown₂, hopen₂, hdecoded₂, hlast, hplace₂⟩ :=
    play_of_gap hknown hopen hplace hfits (by rw [hsize]; exact hnone)
  rw [hdecoded, List.nil_append, hsize, hfirst] at hdecoded₂
  have hnext : 0 + 24 + min 1441 (1548 - (0 + 24) - 3) = 1465 := by decide
  rw [Place.beyond, hsize, hlen, hnext] at hplace₂
  have hb : s.resumption m.cursor ([.readHeaders] ++ [.play none]) = 24 := by
    rw [resumption_append, run, List.foldl_cons, List.foldl_nil, perform, hread, left]
    simp only [resumption]
    rw [resumptionStep_play hknown hopen, hlast, hsize]
  obtain ⟨s₃, hplay₃, -⟩ := play_spec hknown₂ hopen₂ hplace₂ none
  have hdecoded₃ := decoded_of_play hknown₂ hopen₂ hplace₂ hplay₃
  rw [hdecoded₂, Place.frames, hframes'] at hdecoded₃
  exact ⟨s, s₁, s₂, s₃, hs, hread, hplay, hdecoded₂,
    ⟨1524, h, hb.trans_le (by decide), hat', by omega⟩, hplay₃, hdecoded₃⟩

end MpegAudio.Session
