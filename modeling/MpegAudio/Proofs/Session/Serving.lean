import MpegAudio.Decoder.Stamp
import MpegAudio.Proofs.Session.Answers
import MpegAudio.Proofs.Synchronizer.Buffers

/-!
# A session and its reader of frames

All that a session does with its reader is a series of requests, and bytes go back to the window only
while there is room. So what holds of a reader at all times holds of the reader of a session, and
every frame that the decoder is given is as long as its own header says.

This does not depend on the source. It may fail at any point, and what is read after a failure need
not be what the data says; its length is right nevertheless.
-/

namespace MpegAudio

open Bytes Header Synchronizer

/-! ## Reading the headers -/

namespace Track

private theorem reaches_bind {ε α β : Type} {act : EStateM ε Synchronizer α}
    {next : α → EStateM ε Synchronizer β} {s : Synchronizer} (H : Reaches s (afterwards (act s)))
    (hnext : ∀ a s', act s = .ok a s' → Reaches s' (afterwards (next a s'))) :
    Reaches s (afterwards ((act >>= next) s)) := by
  rcases hact : act s with ⟨a, s'⟩ | ⟨e, s'⟩ <;> rw [hact] at H
  · rw [bind_of_ok hact]
    exact H.trans (hnext a s' hact)
  · rw [bind_of_error hact]
    exact H

/-- The tag is read from the source, and what is none of it goes back where there is room. -/
theorem reaches_skipTag {s : Synchronizer} (hroom : s.window.length < size) :
    Reaches s (afterwards (skipTag s)) := by
  rw [skipTag, onSource]
  rcases Tag.read s.source with ⟨⟨tags, unread⟩, source⟩ | ⟨fault, source⟩
  · have hmoved : Reaches s { s with source := source } :=
      .one (.elsewhere fun _ => source) trivial
    exact hmoved.trans (.one (.giveBack unread) (.inr hroom))
  · exact .one (.elsewhere fun _ => source) trivial

theorem reaches_readTags {s : Synchronizer} (hroom : s.window.length < size) :
    Reaches s (afterwards (readTags s)) := by
  have hskip := reaches_skipTag hroom
  rw [readTags]
  rcases hs : skipTag s with ⟨tags, s'⟩ | ⟨fault, s'⟩ <;> rw [hs] at hskip <;> exact hskip

theorem reaches_readLocator (header : Header) (s : Synchronizer) :
    Reaches s (afterwards (readLocator header s)) := by
  have hfill : Reaches s (afterwards (fill s)) := .one .fill trivial
  rw [readLocator]
  rcases hs : fill s with ⟨whole, s'⟩ | ⟨fault, s'⟩ <;> rw [hs] at hfill
  · refine hfill.trans ?_
    dsimp only [afterwards]
    split
    · exact .one .release trivial
    · exact .refl s'
  · exact hfill

/-- **Reading the headers is a series of requests.** -/
theorem reaches_read {s : Synchronizer} (hroom : s.window.length < size) (limit : Nat) :
    Reaches s (afterwards (read limit s)) := by
  refine reaches_bind (reaches_readTags hroom) fun tags s' _ => ?_
  have hrequire : Reaches s' (afterwards (require limit s')) := by
    rw [afterwards_require, ← afterwards_run ⟨limit, true⟩]
    exact .one (.search ⟨limit, true⟩) trivial
  refine reaches_bind hrequire fun _ s'' _ => ?_
  refine reaches_bind (.refl s'') fun t u hget => ?_
  cases hget
  cases s''.header? with
  | none => exact .refl s''
  | some header =>
      exact reaches_bind (reaches_readLocator header s'') fun locator t _ => .refl t

end Track

/-! ## Sessions -/

namespace Session

variable {δ : Type} {source : Source} {s : Session δ}

/-- All that has happened to the reader is a series of requests, none before the headers are read.
The decoder was given whole frames only. -/
structure Served (source : Source) (s : Session δ) : Prop where
  reaches : Reaches { source := source } s.synchronizer
  fresh : s.headers = .unread → s.synchronizer = { source := source }
  frames : ∀ f ∈ s.decoded, IsFrame f

theorem Served.wellFormed (H : Served source s) : s.synchronizer.WellFormed :=
  H.reaches.wellFormed (wellFormed_of_none rfl (Nat.zero_le _))

theorem served_of_setUp {decoder : δ} {settings : Settings}
    (hs : setUp (some source) (some decoder) settings = .ok s) : Served source s := by
  rw [setUp, Except.ok.injEq] at hs
  subst hs
  exact ⟨.refl _, fun _ => rfl, nofun⟩

theorem served_readHeaders (H : Served source s) : Served source (left (readHeaders s)) := by
  have hframes := H.frames
  rw [← decoded_readHeaders] at hframes
  rcases hheaders : s.headers with _ | error | track
  · have hroom : s.synchronizer.window.length < size := by
      rw [H.fresh hheaders]
      exact Nat.succ_pos _
    have hread := H.reaches.trans (Track.reaches_read hroom s.searchLimit)
    rcases hr : Track.read s.searchLimit s.synchronizer with ⟨track, x⟩ | ⟨error, x⟩ <;>
      rw [hr] at hread
    · have hs : left (readHeaders s) = { s with synchronizer := x, headers := .known track }.openSink
          track.clock.sampleRate := by
        simp only [readHeaders, hheaders, hr, left]
      rw [hs, openSink_eq] at hframes ⊢
      exact ⟨hread, by rintro ⟨⟩, hframes⟩
    · have hs : left (readHeaders s) = { s with synchronizer := x, headers := .failed error } := by
        simp only [readHeaders, hheaders, hr, left]
      rw [hs] at hframes ⊢
      exact ⟨hread, by rintro ⟨⟩, hframes⟩
  · have hs : left (readHeaders s) = s := by simp only [readHeaders, hheaders, left]
    rw [hs]
    exact H
  · have hs : left (readHeaders s) = s := by simp only [readHeaders, hheaders, left]
    rw [hs]
    exact H

theorem served_seekTo (H : Served source s) (requested : Duration) :
    Served source (left (seekTo requested s)) := by
  by_cases hknown : s.track?.isSome
  · have hunread := ne_unread_of_known hknown
    have hframes := H.frames
    rw [← decoded_seekTo s requested] at hframes
    have hmoved (moved : Source) : Reaches s.synchronizer { s.synchronizer with source := moved } :=
      .one (.elsewhere fun _ => moved) trivial
    rcases hseek : seekTo requested s with ⟨actual, s'⟩ | ⟨error, s'⟩ <;> rw [hseek] at hframes
    · obtain ⟨track, target, moved, -, -, rfl⟩ := exists_target_of_seekTo_ok hseek
      rw [left, tell_eq] at hframes ⊢
      exact ⟨(H.reaches.trans (hmoved moved)).trans (.one .release trivial),
        fun h => absurd h hunread, hframes⟩
    · obtain ⟨moved, rfl⟩ := exists_source_of_seekTo_error hseek
      exact ⟨H.reaches.trans (hmoved moved), fun h => absurd h hunread, hframes⟩
  · have hnone : s.track? = none := by simpa using hknown
    rw [seekTo_of_unknown hnone]
    exact H

variable [Decoder δ]

/-- Playing goes from frame to frame, each of them whole. -/
theorem served_playOn (limit : Option Nat) (s : Session δ) (hknown : s.headers ≠ .unread)
    (H : Served source s) : Served source (left (playOn limit s)) := by
  fun_induction playOn limit s with
  | case1 s => exact H
  | case2 limit s hlimit fault x hx =>
      have hfill : Reaches s.synchronizer (afterwards (fill s.synchronizer)) := .one .fill trivial
      rw [hx] at hfill
      exact ⟨H.reaches.trans hfill, fun h => absurd h hknown, H.frames⟩
  | case3 limit s hlimit x hx =>
      have hfill : Reaches s.synchronizer (afterwards (fill s.synchronizer)) := .one .fill trivial
      rw [hx] at hfill
      exact ⟨H.reaches.trans hfill, fun h => absurd h hknown, H.frames⟩
  | case4 limit s hlimit x hx ih =>
      have hfill : Reaches s.synchronizer (afterwards (fill s.synchronizer)) := .one .fill trivial
      rw [hx] at hfill
      have hframe : IsFrame x.frame := (fill_whole H.wellFormed hx).isFrame
      have hheaders : ({ s with synchronizer := x }.playHeld).headers = s.headers := by
        rw [playHeld_eq]
      refine ih (by rw [hheaders]; exact hknown) ⟨?_, ?_, ?_⟩
      · rw [synchronizer_playHeld]
        exact (H.reaches.trans hfill).trans (.one .release trivial)
      · intro hunread
        rw [hheaders] at hunread
        exact absurd hunread hknown
      · intro f hf
        rw [decoded_playHeld, List.mem_append, List.mem_singleton] at hf
        rcases hf with hf | rfl
        · exact H.frames f hf
        · exact hframe

theorem served_play (H : Served source s) (limit : Option Nat) :
    Served source (left (play limit s)) := by
  by_cases hknown : s.track?.isSome
  · by_cases hclosed : s.closed
    · rw [play_of_closed hknown hclosed]
      exact H
    · rw [play_eq_playOn hknown (by simpa using hclosed)]
      exact served_playOn limit s (ne_unread_of_known hknown) H
  · rw [play_of_unknown (by simpa using hknown)]
    exact H

theorem served_close (H : Served source s) : Served source s.close := by
  by_cases hclosed : s.closed
  · rw [close_of_closed hclosed]
    exact H
  · have hframes := H.frames
    rw [← decoded_close, close_of_open (by simpa using hclosed)] at hframes
    rw [close_of_open (by simpa using hclosed)]
    exact ⟨H.reaches, H.fresh, hframes⟩

theorem served_run (H : Served source s) (ops : List Operation) : Served source (s.run ops) := by
  induction ops generalizing s with
  | nil => exact H
  | cons op ops ih =>
      apply ih
      cases op with
      | readHeaders => exact served_readHeaders H
      | play limit => exact served_play H limit
      | seekTo requested => exact served_seekTo H requested
      | close => exact served_close H

/-- **A reader of frames keeps its shape, and its buffers suffice.** Whatever is asked of a reader and
whatever happens to its source in between, at most four bytes wait; a frame that is held begins with
its header, of 24 to 1441 bytes by that header, and has been read up to there or as a whole. In fixed
buffers every access is in range, as long as no bytes are given back to a window of four. A reader
that has filled its frame holds as many bytes as the header says, and filling it once more leaves it
and its source as they are.

The reader of a session is such a reader. So every frame that the decoder is given is exactly as long
as its own header says, over any source and after any operations. -/
theorem reader_in_range {requests : List Request} (hfits : Fits { source := source } requests)
    {decoder : δ} {settings : Settings}
    (hs : setUp (some source) (some decoder) settings = .ok s) (ops : List Operation) :
    let r := serveAll { source := source } requests
    (r.window.length ≤ 4 ∧ (r.header? = none → r.frame = []) ∧
      ∀ h, r.header? = some h → ofBytes? (r.frame.take 4) = some h ∧
        (r.frame.length = 4 ∨ r.frame.length = h.frameSize) ∧
        24 ≤ h.frameSize ∧ h.frameSize ≤ 1441) ∧
      (∃ x, Buffered.serveAll { source := source } requests = some x ∧ x.Represents r ∧
        x.frame.read? 0 x.filled = some r.frame) ∧
      (∀ r', fill r = .ok true r' →
        (∃ h, r'.header? = some h ∧ ofBytes? r'.frame = some h ∧
          r'.frame.length = h.frameSize ∧ r'.frameSize = h.frameSize) ∧
        fill r' = .ok true r') ∧
      (∃ own, Fits { source := source } own ∧
        serveAll { source := source } own = (s.run ops).synchronizer) ∧
      ∀ f ∈ (s.run ops).decoded, ∃ h, ofBytes? f = some h ∧ f.length = h.frameSize := by
  intro r
  have hnew : WellFormed { source := source } := wellFormed_of_none rfl (Nat.zero_le _)
  have hwell : r.WellFormed := wellFormed_serveAll hnew requests
  obtain ⟨x, hserve, hx⟩ := Buffered.serveAll_represents (Buffered.represents_new source) hnew hfits
  have hserved := served_run (served_of_setUp hs) ops
  refine ⟨hwell.bounds, ⟨x, hserve, hx, hx.read?_frame⟩, ?_, hserved.reaches, hserved.frames⟩
  intro r' hfill
  exact (fill_whole hwell hfill).spec

/-- Three frames of 24 bytes, in a medium that refuses one read in the middle of the second. -/
def stumbling : Source :=
  let frame : List UInt8 := [0xFF, 0xF3, 0x14, 0x00] ++ List.replicate 20 0
  .ofMedium
    { data := (frame ++ frame ++ frame).toArray
      cursor := 0
      conduct := Schedule.conduct { failAt := some 30, failTimes := some 1 } } none

/-- Bytes are read by others and given back, a frame is filled, and filling the next one fails before
it succeeds. A session that stumbles in the same place decodes two frames, the second put together
from two stretches of the data; both have the length that they declare. -/
theorem reader_in_range_stumbling :
    let others : Source → Source := fun source => left (source.readExact 3)
    let requests : List Request :=
      [.elsewhere others, .giveBack [0xFF, 0xF3, 0x14], .search ⟨1, true⟩, .fill, .release, .fill,
        .fill]
    let ops : List Operation := [.readHeaders, .play none, .play none]
    (∃ x, Buffered.serveAll { source := stumbling } requests = some x) ∧
      ∃ s, setUp (some stumbling) (some (⟨.call, 0, none, 0⟩ : Stamp)) {} = .ok s ∧
        (s.run ops).decoded.map List.length = [24, 24] ∧
        ∀ f ∈ (s.run ops).decoded, ∃ h, ofBytes? f = some h ∧ f.length = h.frameSize := by
  intro others requests ops
  have hfits : Fits { source := stumbling } requests :=
    ⟨trivial, .inr (Nat.succ_pos _), trivial, trivial, trivial, trivial, trivial, trivial⟩
  rcases hs : setUp (some stumbling) (some (⟨.call, 0, none, 0⟩ : Stamp)) {} with error | s
  · cases hs
  · obtain ⟨-, ⟨x, hserve, -⟩, -, -, hframes⟩ := reader_in_range hfits hs ops
    refine ⟨⟨x, hserve⟩, s, rfl, ?_, hframes⟩
    cases hs
    decide +kernel

end Session

end MpegAudio
