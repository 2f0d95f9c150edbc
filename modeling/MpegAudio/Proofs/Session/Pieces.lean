import MpegAudio.Decoder.Stamp
import MpegAudio.Proofs.Session.Answers

/-!
# Playing in pieces

Playing that was stopped goes on where it stopped. It stops between two frames only, when the one
before has been counted and let go of, and that is where the loop begins again. So playing piece
after piece is playing once, with the limits added up, and it does not show in the state that is
left behind where the cuts were. This holds over any source.

The number of the next frame keeps account of it: every frame given to the decoder is counted, be
something heard of it or not, and nothing else but a seek that succeeds changes the number.
-/

namespace MpegAudio.Session

open Synchronizer

variable {δ : Type} [Decoder δ] {s : Session δ}

/-! ## Going on -/

/-- What follows when playing has stopped. After the end of the stream, or an error, nothing does.
-/
def goOn (next : Session δ → EStateM.Result Error (Session δ) Outcome) :
    EStateM.Result Error (Session δ) Outcome → EStateM.Result Error (Session δ) Outcome
  | .ok .stopped s => next s
  | .ok .endOfStream s => .ok .endOfStream s
  | .error error s => .error error s

/-- Plays with one limit after another, as long as the stream does not end. -/
def playPieces : List (Option Nat) → Action δ Outcome
  | [], s => .ok .stopped s
  | limit :: limits, s => goOn (playPieces limits) (play limit s)

/-- The limits of several pieces added up. One piece without a limit leaves the whole without. -/
def total : List (Option Nat) → Option Nat
  | [] => some 0
  | limit :: limits => limit.bind fun a => (total limits).map (a + ·)

/-- **Playing with a sum as the limit is playing twice**, since playing stops where a round begins.
-/
theorem playOn_add (a : Nat) (limit : Option Nat) (s : Session δ) :
    playOn (limit.map (a + ·)) s = goOn (playOn limit) (playOn (some a) s) := by
  induction a generalizing s with
  | zero =>
      rw [playOn_zero, goOn]
      simp only [Nat.zero_add, Option.map_id']
  | succ a ih =>
      have hsome : some (a + 1) ≠ some 0 := by simp
      have hsum : limit.map (a + 1 + ·) ≠ some 0 := by
        cases limit with
        | none => simp
        | some b => simp
      rcases hfill : s.synchronizer.fill with ⟨_ | _, x⟩ | ⟨fault, x⟩
      · rw [playOn_of_end hsum hfill, playOn_of_end hsome hfill, goOn]
      · have hless : (limit.map (a + 1 + ·)).map (· - 1) = limit.map (a + ·) := by
          rw [Option.map_map]
          congr 1
          funext b
          simp only [Function.comp]
          omega
        rw [playOn_of_frame hsum hfill, playOn_of_frame hsome hfill, hless]
        exact ih _
      · rw [playOn_of_fault hsum hfill, playOn_of_fault hsome hfill, goOn]

theorem goOn_playOn_none (next : Session δ → EStateM.Result Error (Session δ) Outcome)
    (s : Session δ) : goOn next (playOn none s) = playOn none s := by
  generalize hnone : (none : Option Nat) = limit
  fun_induction playOn limit s with
  | case1 s => cases hnone
  | case2 limit s hlimit fault x hx => rfl
  | case3 limit s hlimit x hx => rfl
  | case4 limit s hlimit x hx ih =>
      subst hnone
      exact ih rfl

/-- **Playing in pieces is playing with the total as the limit.** -/
theorem playPieces_eq_play (limits : List (Option Nat)) (hknown : s.track?.isSome)
    (hopen : s.closed = false) : playPieces limits s = play (total limits) s := by
  induction limits generalizing s with
  | nil => rw [playPieces, total, play_eq_playOn hknown hopen, playOn_zero]
  | cons limit limits ih =>
      rw [playPieces, total, play_eq_playOn hknown hopen, play_eq_playOn hknown hopen]
      rcases limit with _ | a
      · exact goOn_playOn_none _ s
      · rw [Option.bind_some, playOn_add]
        rcases hplay : playOn (some a) s with ⟨_ | _, s'⟩ | ⟨error, s'⟩
        · rfl
        · obtain ⟨hheaders, hclosed, -⟩ := playOn_keeps (some a) s
          rw [hplay, left] at hheaders hclosed
          have hknown' : s'.track?.isSome := by
            rw [track?, hheaders]
            exact hknown
          show playPieces limits s' = playOn (total limits) s'
          rw [ih hknown' (hclosed.trans hopen), play_eq_playOn hknown' (hclosed.trans hopen)]
        · rfl

/-- Where playing in pieces has come to the end of the stream, playing without a limit comes to the
same end. -/
theorem play_of_playPieces {limits : List (Option Nat)} {s' : Session δ}
    (h : playPieces limits s = .ok .endOfStream s') : play none s = .ok .endOfStream s' := by
  have hsome : limits ≠ [] := by
    rintro rfl
    cases h
  obtain ⟨limit, limits, rfl⟩ := List.exists_cons_of_ne_nil hsome
  by_cases hknown : s.track?.isSome
  · by_cases hclosed : s.closed
    · rw [playPieces, play_of_closed hknown hclosed] at h
      rw [play_of_closed hknown hclosed]
      exact h
    · have hopen : s.closed = false := by simpa using hclosed
      rw [playPieces_eq_play _ hknown hopen, play_eq_playOn hknown hopen] at h
      rw [play_eq_playOn hknown hopen]
      rcases htotal : total (limit :: limits) with _ | a
      · rw [htotal] at h
        exact h
      · -- What is left behind the total is played from a stream that has ended.
        have hadd := playOn_add a none s
        rw [htotal] at h
        rw [h] at hadd
        exact hadd
  · rw [playPieces, play_of_unknown (by simpa using hknown)] at h
    cases h

/-! ## What is counted -/

/-- Each frame that the decoder was given in between has been counted. -/
def Counted (s s' : Session δ) : Prop :=
  ∃ frames, s'.decoded = s.decoded ++ frames ∧ s'.frameIndex = s.frameIndex + frames.length

omit [Decoder δ] in
theorem counted_of_eq {s' : Session δ} (hdecoded : s'.decoded = s.decoded)
    (hindex : s'.frameIndex = s.frameIndex) : Counted s s' :=
  ⟨[], by rw [hdecoded, List.append_nil], hindex⟩

omit [Decoder δ] in
theorem Counted.trans {s' s'' : Session δ} (H : Counted s s') (H' : Counted s' s'') :
    Counted s s'' := by
  obtain ⟨frames, hdecoded, hindex⟩ := H
  obtain ⟨frames', hdecoded', hindex'⟩ := H'
  refine ⟨frames ++ frames', ?_, ?_⟩
  · rw [hdecoded', hdecoded, List.append_assoc]
  · rw [hindex', hindex, List.length_append, Nat.add_assoc]

theorem counted_playOn (limit : Option Nat) (s : Session δ) :
    Counted s (left (playOn limit s)) := by
  fun_induction playOn limit s with
  | case1 s => exact counted_of_eq rfl rfl
  | case2 limit s hlimit fault x hx => exact counted_of_eq rfl rfl
  | case3 limit s hlimit x hx => exact counted_of_eq rfl rfl
  | case4 limit s hlimit x hx ih =>
      refine Counted.trans ⟨[x.frame], decoded_playHeld _, ?_⟩ ih
      rw [playHeld_eq]
      rfl

/-- **Only a seek that succeeds changes the number of the next frame in any other way.** -/
theorem counted_perform {op : Operation} (hop : ∀ actual, s.answer op ≠ .ok (.sought actual)) :
    Counted s (s.perform op) := by
  cases op with
  | readHeaders => exact counted_of_eq (decoded_readHeaders s) (frameIndex_readHeaders s)
  | play limit =>
      rw [perform]
      by_cases hknown : s.track?.isSome
      · by_cases hclosed : s.closed
        · rw [play_of_closed hknown hclosed]
          exact counted_of_eq rfl rfl
        · rw [play_eq_playOn hknown (by simpa using hclosed)]
          exact counted_playOn limit s
      · rw [play_of_unknown (by simpa using hknown)]
        exact counted_of_eq rfl rfl
  | seekTo requested =>
      refine counted_of_eq (decoded_seekTo s requested) ?_
      rw [perform]
      rcases hseek : seekTo requested s with ⟨actual, s'⟩ | ⟨error, s'⟩
      · refine absurd ?_ (hop actual)
        rw [answer, respond]
        simp only [Functor.map, EStateM.map, hseek]
      · obtain ⟨_, hs'⟩ := exists_source_of_seekTo_error hseek
        rw [left, hs']
  | close => exact counted_of_eq (decoded_close s) (frameIndex_close s)

/-- No seek of the series succeeds. -/
def SeeksNowhere (s : Session δ) (ops : List Operation) : Prop :=
  ∀ actual, .ok (.sought actual) ∉ s.answers ops

/-- **The number of the next frame.** It counts the frames that the decoder has been given since the
last seek that succeeded, from the number that this one set, or else from where the series began. -/
theorem frameIndex_run (s : Session δ) (ops : List Operation) :
    s.SeeksNowhere ops ∧ Counted s (s.run ops) ∨
      ∃ before t after actual r, ops = before ++ .seekTo t :: after ∧
        seekTo t (s.run before) = .ok actual r ∧ r.SeeksNowhere after ∧
        Counted r (s.run ops) := by
  induction ops generalizing s with
  | nil => exact .inl ⟨fun _ => List.not_mem_nil, counted_of_eq rfl rfl⟩
  | cons op ops ih =>
      obtain ⟨hnowhere, hcounted⟩ | ⟨before, t, after, actual, r, rfl, hseek, hnowhere, hcounted⟩ :=
        ih (s.perform op)
      · by_cases hop : ∀ actual, s.answer op ≠ .ok (.sought actual)
        · refine .inl ⟨fun actual hmem => ?_, (counted_perform hop).trans hcounted⟩
          rcases List.mem_cons.mp hmem with h | h
          · exact hop actual h.symm
          · exact hnowhere actual h
        · obtain ⟨actual, hop⟩ := not_forall_not.mp hop
          obtain ⟨t, r, rfl, hseek⟩ := exists_seekTo_of_answer hop
          have hr : s.perform (.seekTo t) = r := by rw [perform, hseek, left]
          rw [hr] at hnowhere
          refine .inr ⟨[], t, ops, actual, r, rfl, hseek, hnowhere, ?_⟩
          rw [← hr]
          exact hcounted
      · exact .inr ⟨op :: before, t, after, actual, r, rfl, hseek, hnowhere, hcounted⟩

/-! ## Over a medium that refuses nothing -/

/-- Where `frames` are to come, playing gives as many of them as the limit admits. -/
theorem play_of_frames {data : List UInt8} {length : Option Nat} {place : Place}
    (hknown : s.track?.isSome) (hopen : s.closed = false)
    (H : Standing data length place s.synchronizer) :
    let frames := place.frames data
    ∃ e, play none s = .ok .endOfStream e ∧
      e.journal.toList = s.journal.toList ++
        events (s.outlet = .opened) s.decoder s.output frames ∧
      e.frameIndex = s.frameIndex + frames.length ∧
      (∀ k, k ≤ frames.length → ∃ r, play (some k) s = .ok .stopped r ∧
        r.journal.toList = s.journal.toList ++
          events (s.outlet = .opened) s.decoder s.output (frames.take k) ∧
        r.frameIndex = s.frameIndex + k) ∧
      (∀ k, frames.length < k → play (some k) s = .ok .endOfStream e) := by
  intro frames
  obtain ⟨e, hplay, hjournal, hindex⟩ := play_spec hknown hopen H none
  refine ⟨e, hplay, hjournal, hindex, fun k hk => ?_, fun k hk => ?_⟩
  · obtain ⟨r, hplay', hjournal', hindex'⟩ := play_spec hknown hopen H (some k)
    have hstopped : outcomeOf (some k) frames = .stopped := by
      rw [outcomeOf, if_pos (by simpa using hk)]
    rw [played, List.length_take_of_le hk] at hindex'
    rw [hstopped] at hplay'
    exact ⟨r, hplay', hjournal', hindex'⟩
  · obtain ⟨r, hplay', -⟩ := play_spec hknown hopen H (some k)
    have hended : outcomeOf (some k) frames = .endOfStream := by
      rw [outcomeOf, if_neg (by simpa using hk)]
    rw [hended] at hplay'
    -- Playing on from the end of the stream would end there too.
    have hadd := playOn_add k none s
    rw [← play_eq_playOn hknown hopen, ← play_eq_playOn hknown hopen, hplay'] at hadd
    have hagain : play none s = .ok .endOfStream r := hadd
    rw [hplay] at hagain
    cases hagain
    exact hplay'

/-- **Stopping and going on loses nothing and repeats nothing.** Take any state that can be reached.
Where playing in pieces has come to the end of the stream, by whatever limits, playing at once
leaves the very same state behind, over any medium.

Over a medium that refuses nothing there are `frames` to come, which playing gives to the decoder. A
limit of `k` frames stops playing with the first `k` of them decoded, passed on and counted. A limit
that exceeds their number makes no difference, and nor do any pieces that exceed it together.

And the number of the next frame is always the number of frames that the decoder was given, or of
those since the last seek that succeeded, counted from the frame that this seek found. -/
theorem play_in_pieces {m : Medium} {length : Option Nat} {decoder : δ} {settings : Settings}
    (hs : setUp (some (.ofMedium m length)) (some decoder) settings = .ok s)
    (ops : List Operation) :
    let here := s.run ops
    (∀ limits s', playPieces limits here = .ok .endOfStream s' →
      play none here = .ok .endOfStream s') ∧
    (m.conduct.Faultless → here.track?.isSome → here.closed = false → ∃ frames e,
      play none here = .ok .endOfStream e ∧
        e.journal.toList = here.journal.toList ++
          events (here.outlet = .opened) here.decoder here.output frames ∧
        e.frameIndex = here.frameIndex + frames.length ∧
        (∀ k, k ≤ frames.length → ∃ r, play (some k) here = .ok .stopped r ∧
          r.journal.toList = here.journal.toList ++
            events (here.outlet = .opened) here.decoder here.output (frames.take k) ∧
          r.frameIndex = here.frameIndex + k) ∧
        (∀ k, frames.length < k → play (some k) here = .ok .endOfStream e) ∧
        ∀ limits, (∀ k, total limits = some k → frames.length < k) →
          playPieces limits here = .ok .endOfStream e) ∧
    (s.SeeksNowhere ops ∧ here.frameIndex = here.decoded.length ∨
      ∃ before t after actual r track target, ops = before ++ .seekTo t :: after ∧
        seekTo t (s.run before) = .ok actual r ∧ r.SeeksNowhere after ∧
        (s.run before).track? = some track ∧
        track.locator.target? t.toMillis = some target ∧ r.frameIndex = target.frame ∧
        ∃ frames, here.decoded = r.decoded ++ frames ∧
          here.frameIndex = target.frame + frames.length) := by
  intro here
  refine ⟨fun limits s' h => play_of_playPieces h, fun hm hknown hopen => ?_, ?_⟩
  · have hsame := consistent_run (consistent_of_setUp hm hs) ops
    obtain ⟨place, hstanding⟩ : ∃ place, Standing m.data.toList length place here.synchronizer := by
      cases hsame with
      | unread hunread _ => simp [here, track?, hunread.headers] at hknown
      | failed _ headers => simp [here, track?, headers] at hknown
      | known _ _ standing => exact ⟨_, standing⟩
    obtain ⟨e, hplay, hjournal, hindex, hstop, hend⟩ := play_of_frames hknown hopen hstanding
    refine ⟨_, e, hplay, hjournal, hindex, hstop, hend, fun limits hlimits => ?_⟩
    rw [playPieces_eq_play limits hknown hopen]
    rcases htotal : total limits with _ | k
    · exact hplay
    · exact hend k (hlimits k htotal)
  · obtain ⟨hnowhere, frames, hdecoded, hindex⟩ |
      ⟨before, t, after, actual, r, hops, hseek, hnowhere, frames, hdecoded, hindex⟩ :=
      frameIndex_run s ops
    · left
      cases hs
      refine ⟨hnowhere, ?_⟩
      rw [hdecoded, hindex]
      exact Nat.zero_add _
    · right
      obtain ⟨track, target, source, htrack, htarget, hr⟩ := exists_target_of_seekTo_ok hseek
      have hset : r.frameIndex = target.frame := by rw [hr, frameIndex_tell]
      rw [hset] at hindex
      exact ⟨before, t, after, actual, r, track, target, hops, hseek, hnowhere, htrack, htarget,
        hset, frames, hdecoded, hindex⟩

/-- Two frames, and the start of a third one. Playing is stopped after one frame, and once more
before it has given another. The third attempt ends where playing at once ends. -/
theorem play_in_pieces_twice :
    let frame : List UInt8 := [0xFF, 0xF3, 0x14, 0x00] ++ List.replicate 20 0
    let m : Medium := ⟨(frame ++ frame ++ frame.take 10).toArray, 0, .plain, {}, 0⟩
    ∃ s e : Session Stamp,
      setUp (some (.ofMedium m none)) (some ⟨.call, 0, none, 0⟩) {} = .ok s ∧
        playPieces [some 1, some 0, none] (s.run [.readHeaders]) = .ok .endOfStream e ∧
        play none (s.run [.readHeaders]) = .ok .endOfStream e ∧ e.frameIndex = 2 := by
  intro frame m
  obtain ⟨s, hs⟩ : ∃ s : Session Stamp,
      setUp (some (.ofMedium m none)) (some ⟨.call, 0, none, 0⟩) {} = .ok s := ⟨_, rfl⟩
  have hknown : (s.run [.readHeaders]).track?.isSome := by
    cases hs
    decide +kernel
  have hopen : (s.run [.readHeaders]).closed = false := by
    cases hs
    decide +kernel
  have hindex : (left (play none (s.run [.readHeaders]))).frameIndex = 2 := by
    cases hs
    decide +kernel
  obtain ⟨-, hfaultless, -⟩ := play_in_pieces hs [.readHeaders]
  obtain ⟨frames, e, hplay, -, -, -, -, hpieces⟩ :=
    hfaultless Conduct.faultless_plain hknown hopen
  rw [hplay, left] at hindex
  -- The last piece has no limit, and so has the whole.
  have hunlimited : total [some 1, some 0, none] = none := rfl
  refine ⟨s, e, hs, hpieces _ fun k hk => ?_, hplay, hindex⟩
  rw [hunlimited] at hk
  cases hk

end MpegAudio.Session
