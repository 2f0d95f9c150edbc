import MpegAudio.Medium.Schedule
import MpegAudio.Proofs.Locator.Choice
import MpegAudio.Proofs.Session.Coupled
import MpegAudio.Proofs.Session.Seeking

/-!
# A seek makes the past forgotten

Over a source that refuses nothing, two sessions that play the same stream may have come to quite
different states: one holds a frame that is cut off, another has given up a search with bytes in its
window, a third has not played anything. Once both have sought the same time, that makes no
difference any more. What is done with both from then on is answered alike and gives both decoders
the same frames.

So the frames that are played from the start can be played again: seeking the time zero leads back
to the first frame, wherever a constant bit rate is assumed, whatever the bytes are.
-/

namespace MpegAudio

open Header Synchronizer

theorem Clock.timecode_zero (c : Clock) : c.timecode 0 = 0 := by
  rw [timecode, Nat.zero_mul, Nat.zero_mul, Nat.zero_div, saturate_of_le (Nat.zero_le ceiling),
    ite_self]

theorem Locator.eq_of_choose_constantRate {start : Nat} {length : Option Nat} {header : Header}
    {frame : List UInt8} {c : ConstantRate}
    (H : choose start length header frame = constantRate c) :
    ∃ n, c = .ofHeader start n header := by
  cases length with
  | none => cases H
  | some n =>
      rw [choose] at H
      split at H
      · cases H
      · cases H
        exact ⟨n, rfl⟩

/-- At a constant bit rate the time zero leads to the first frame. -/
theorem Locator.target?_zero {bs : List UInt8} {h : Header} (H : ofBytes? bs = some h)
    {start length : Nat} (hstart : start ≤ ceiling) :
    (constantRate (.ofHeader start length h)).target? 0 = some ⟨0, start⟩ := by
  obtain ⟨hlong, -, -, hfast⟩ := clock_bounds H
  have hclock : h.clock.frameAt 0 = 0 := by
    have hfirst : (h.sampleRate - 1) / (h.samplesPerFrame * 1000) = 0 :=
      Nat.div_eq_of_lt (by omega)
    rw [Clock.frameAt_of_pos (Nat.lt_of_lt_of_le (by decide) hlong), Nat.zero_add, Nat.one_mul]
    exact congrArg saturate hfirst
  have hframe : (ConstantRate.ofHeader start length h).frameAt 0 = 0 := by
    rw [ConstantRate.frameAt]
    exact (congrArg (min · _) hclock).trans (Nat.zero_min _)
  rw [target?, hframe, ConstantRate.position, Nat.zero_mul, Nat.zero_div]
  simp only [saturate_of_le (Nat.zero_le ceiling), Nat.add_zero]
  rw [show (ConstantRate.ofHeader start length h).start = start from rfl, saturate_of_le hstart]

namespace Session

variable {δ δ' : Type} {data : List UInt8} {length : Option Nat} {pos limit : Nat} {s : Session δ}

/-! ## What a seek leaves -/

/-- A seek that succeeds leads to a place that the headers alone settle, with nothing held and
nothing in the window. -/
theorem exists_of_seekTo_ok {r : Session δ} {requested actual : Duration}
    (H : Consistent data length pos limit s) (h : seekTo requested s = .ok actual r) :
    ∃ p header tags target source,
      Track.firstFrame data pos limit = .ok (p, header) ∧
        s.headers = .known ⟨tags, header.clock, Track.locatorAt data length p header⟩ ∧
        (Track.locatorAt data length p header).target? requested.toMillis = some target ∧
        source.At data length target.position ∧
        actual = .ofMillis (header.clock.timecode target.frame) ∧
        r = ({ s with
                synchronizer := { s.synchronizer with source := source }.release
                frameIndex := target.frame }.tell (.sought requested actual)) := by
  cases H with
  | unread hunread _ =>
      rw [seekTo, track?, hunread.headers] at h
      cases h
  | failed _ headers =>
      rw [seekTo, track?, headers] at h
      cases h
  | @known p header tags place found headers standing =>
      rcases htarget : (Track.locatorAt data length p header).target? requested.toMillis with
        _ | target
      · rw [seekTo_of_live headers htarget] at h
        cases h
      · obtain ⟨_, hat⟩ := standing.exists_at
        obtain ⟨source, hseek, hat'⟩ := Source.seek_spec hat target.position
        rw [seekTo_of_seek headers htarget hseek] at h
        cases h
        exact ⟨p, header, tags, target, source, found, headers, htarget, hat', rfl, rfl⟩

/-! ## Playing the same -/

/-- The sessions agree in all that decides what they answer, and what their decoders have been given
since they had `d` and `d'` is the same. -/
structure InStep (data : List UInt8) (length : Option Nat) (d d' : List (List UInt8))
    (s : Session δ) (t : Session δ') : Prop where
  level : Level (Source.Together data length) s t
  known : s.track?.isSome
  decoded : ∃ frames, s.decoded = d ++ frames ∧ t.decoded = d' ++ frames

theorem InStep.known_right {d d' : List (List UInt8)} {t : Session δ'}
    (H : InStep data length d d' s t) : t.track?.isSome := by
  have hpace := congrArg Option.isSome H.level.pace_eq
  rw [pace?, pace?, Option.isSome_map, Option.isSome_map, H.known] at hpace
  exact hpace

/-- Sessions that play the same stream agree as soon as both have sought the same time. -/
theorem inStep_of_seekTo {t : Session δ'} {r : Session δ} {r' : Session δ'}
    {requested actual actual' : Duration} (H : Consistent data length pos limit s)
    (H' : Consistent data length pos limit t) (hclosed : t.closed = s.closed)
    (h : seekTo requested s = .ok actual r) (h' : seekTo requested t = .ok actual' r') :
    actual' = actual ∧ InStep data length r.decoded r'.decoded r r' := by
  obtain ⟨p, header, tags, target, x, hfirst, hheaders, htarget, hx, rfl, hr⟩ :=
    exists_of_seekTo_ok H h
  obtain ⟨p', header', tags', target', y, hfirst', hheaders', htarget', hy, rfl, hr'⟩ :=
    exists_of_seekTo_ok H' h'
  rw [hfirst] at hfirst'
  cases hfirst'
  rw [htarget] at htarget'
  cases htarget'
  refine ⟨rfl, ⟨?_, ?_, ?_, ?_⟩, ?_, [], ?_, ?_⟩
  · rw [hr, hr', synchronizer_tell, synchronizer_tell]
    exact coupled_release ⟨_, hx, hy⟩
  · rw [hr, hr', tell_eq, tell_eq, pace?, pace?, track?, track?]
    simp only [hheaders, hheaders', Option.map_some]
  · rw [hr, hr', tell_eq, tell_eq]
    exact hclosed
  · rw [hr, hr', tell_eq, tell_eq]
  · rw [hr, tell_eq, track?]
    simp only [hheaders, Option.isSome_some]
  · rw [List.append_nil]
  · rw [List.append_nil]

variable [Decoder δ]

/-- **Sessions that play the same go on playing the same.** -/
theorem coupling_inStep [Decoder δ'] (data : List UInt8) (length : Option Nat)
    (d d' : List (List UInt8)) :
    Coupling (Source.Together data length)
      (InStep data length d d' : Session δ → Session δ' → Prop) where
  synchronizer H := H.level.synchronizer
  pace_eq H := H.level.pace_eq
  closed_eq H := H.level.closed_eq
  readHeaders H := by
    rw [readHeaders_of_known H.known, readHeaders_of_known H.known_right]
    exact .ok () H
  move H h := ⟨H.level.move h, H.known, H.decoded⟩
  playHeld := by
    intro s t H
    obtain ⟨frames, hs, ht⟩ := H.decoded
    have hframe : t.synchronizer.frame = s.synchronizer.frame := by
      rw [frame, frame, H.level.synchronizer.held_eq]
    refine ⟨H.level.playHeld, ?_, frames ++ [s.synchronizer.frame], ?_, ?_⟩
    · rw [playHeld_eq]
      exact H.known
    · rw [decoded_playHeld, hs, List.append_assoc]
    · rw [decoded_playHeld, ht, hframe, List.append_assoc]
  sought H h frame event := by
    refine ⟨H.level.sought h frame event, ?_, ?_⟩
    · rw [tell_eq]
      exact H.known
    · rw [decoded_tell, decoded_tell]
      exact H.decoded
  close H := by
    refine ⟨H.level.close, ?_, ?_⟩
    · rw [track?, headers_close]
      exact H.known
    · rw [decoded_close, decoded_close]
      exact H.decoded

/-! ## From the start again -/

theorem known_run (hknown : s.track?.isSome) (hat : ∃ pos, s.synchronizer.source.At data length pos)
    (ops : List Operation) : (s.run ops).track?.isSome := by
  obtain ⟨pos, hat⟩ := hat
  have hstep : InStep data length s.decoded s.decoded s s :=
    ⟨⟨⟨⟨pos, hat, hat⟩, rfl, rfl, fun _ => rfl⟩, rfl, rfl, rfl⟩, hknown, [],
      (List.append_nil _).symm, (List.append_nil _).symm⟩
  exact (run_coupled (Source.coupling_together _ _) (coupling_inStep _ _ _ _) hstep ops).2.known

/-- What is played from the start of a stream with a constant bit rate is played again after the
time zero has been sought, whatever came between. -/
theorem replay_of_constantRate {m : Medium} (hm : m.conduct.Faultless) {decoder : δ}
    {settings : Settings} (hs : setUp (some (.ofMedium m length)) (some decoder) settings = .ok s)
    (hceiling : m.data.size ≤ ceiling) {s₁ : Session δ} {c : ConstantRate}
    (hread : readHeaders s = .ok () s₁) (hlocator : s₁.locator? = some (.constantRate c))
    (ops : List Operation) (hclosed : (s₁.run ops).closed = false) :
    ∃ s₂ r r₂, play none s₁ = .ok .endOfStream s₂ ∧
      seekTo ⟨0⟩ (s₁.run ops) = .ok ⟨0⟩ r ∧ r.frameIndex = 0 ∧
      play none r = .ok .endOfStream r₂ ∧ r₂.decoded = r.decoded ++ s₂.decoded := by
  obtain ⟨hunread, hlimit⟩ := unread_of_setUp hm hs
  obtain ⟨p, h, tags, synchronizer, hfirst, hs₁, hplace⟩ := exists_of_readHeaders_ok hunread hread
  have hat := Track.at?_of_firstFrame hfirst
  rw [hlimit] at hfirst
  -- The first play gives the frames from the first one on.
  have hheaders :
      s₁.headers = .known ⟨tags, h.clock, Track.locatorAt m.data.toList length p h⟩ := by
    rw [hs₁, openSink_eq]
  have hchosen : Track.locatorAt m.data.toList length p h = .constantRate c := by
    rw [locator?, track?, hheaders] at hlocator
    exact Option.some.inj hlocator
  have hknown : s₁.track?.isSome := by
    rw [track?, hheaders]
    rfl
  have hopen : s₁.closed = false := by
    cases hs
    rw [hs₁, openSink_eq]
  have hnothing : s₁.decoded = [] := by
    have hleft := decoded_readHeaders s
    rw [hread, left] at hleft
    cases hs
    exact hleft
  have hstanding : Standing m.data.toList length (Track.placeAt m.data.toList length p h)
      s₁.synchronizer := by
    rw [hs₁, synchronizer_openSink]
    exact hplace
  obtain ⟨s₂, hplay, -⟩ := play_spec hknown hopen hstanding none
  have hdecoded := decoded_of_play hknown hopen hstanding hplay
  have hstart : Track.audioStart m.data.toList length p h = p := by
    rw [Track.audioStart, hchosen]
    rfl
  rw [hnothing, List.nil_append, Track.frames_placeAt hat, hstart] at hdecoded
  -- So does the second one, after the seek.
  have hsame := consistent_run
    (Consistent.known hfirst hheaders hstanding : Consistent _ _ _ _ s₁) ops
  have hknown' := known_run hknown hstanding.exists_at ops
  cases hsame with
  | unread hunread' _ => simp [track?, hunread'.headers] at hknown'
  | failed _ headers' => simp [track?, headers'] at hknown'
  | @known p' h' tags' place' found' headers' standing' =>
      rw [hfirst] at found'
      cases found'
      obtain ⟨n, rfl⟩ := Locator.eq_of_choose_constantRate hchosen
      have hp : p ≤ ceiling := by
        have := le_length_of_at? hat
        rw [Array.length_toList] at this
        omega
      have htarget : (Track.locatorAt m.data.toList length p h).target? (Duration.toMillis ⟨0⟩) =
          some ⟨0, p⟩ := by
        rw [hchosen]
        exact Locator.target?_zero hat hp
      obtain ⟨r, r₂, hseek, hindex, -, hplay', hjournal, -⟩ :=
        play_after_seekTo headers' hclosed htarget standing'
      simp only [Clock.timecode_zero] at hseek
      refine ⟨s₂, r, r₂, hplay, hseek, hindex, hplay', ?_⟩
      rw [hdecoded, decoded, hjournal, List.filterMap_append, filterMap_events]
      rfl

/-- **A seek makes the past forgotten.** Two sessions play the same data, of the same length as far
as it is known, from media that refuse nothing but may hand it out differently. Anything may have
been done with each. If neither is closed and both can seek the same time, both tell the same start,
and whatever is done with both afterwards is answered alike, leads to the same numbers of frames and
gives both decoders the same frames. In particular, at a constant bit rate seeking the time zero and
playing gives the frames that playing gave at first.

Positions are words of 64 bits, which is what the last part says of the data. -/
theorem seekTo_forgets [Decoder δ'] {m m' : Medium} (hm : m.conduct.Faultless)
    (hm' : m'.conduct.Faultless)
    (hdata : m'.data = m.data) (hcursor : m'.cursor = m.cursor) {decoder : δ} {decoder' : δ'}
    {settings settings' : Settings} (hlimit : settings'.searchLimit = settings.searchLimit)
    {s' : Session δ'} (hs : setUp (some (.ofMedium m length)) (some decoder) settings = .ok s)
    (hs' : setUp (some (.ofMedium m' length)) (some decoder') settings' = .ok s') :
    (∀ ops ops' t actual actual' r r', (s.run ops).closed = false → (s'.run ops').closed = false →
      seekTo t (s.run ops) = .ok actual r → seekTo t (s'.run ops') = .ok actual' r' →
      actual' = actual ∧ ∀ more, r'.answers more = r.answers more ∧
        (r'.run more).frameIndex = (r.run more).frameIndex ∧
        ∃ frames, (r.run more).decoded = r.decoded ++ frames ∧
          (r'.run more).decoded = r'.decoded ++ frames) ∧
    (m.data.size ≤ ceiling → ∀ s₁ c, readHeaders s = .ok () s₁ →
      s₁.locator? = some (.constantRate c) → ∀ ops, (s₁.run ops).closed = false →
      ∃ s₂ r r₂, play none s₁ = .ok .endOfStream s₂ ∧
        seekTo ⟨0⟩ (s₁.run ops) = .ok ⟨0⟩ r ∧ r.frameIndex = 0 ∧
        play none r = .ok .endOfStream r₂ ∧ r₂.decoded = r.decoded ++ s₂.decoded) := by
  constructor
  · intro ops ops' t actual actual' r r' hopen hopen' h h'
    have hstart := consistent_of_setUp hm hs
    have hstart' := consistent_of_setUp hm' hs'
    rw [hdata, hcursor, hlimit] at hstart'
    obtain ⟨hactual, hstep⟩ := inStep_of_seekTo (consistent_run hstart ops)
      (consistent_run hstart' ops') (hopen'.trans hopen.symm) h h'
    refine ⟨hactual, fun more => ?_⟩
    obtain ⟨hanswers, hlast⟩ :=
      run_coupled (Source.coupling_together _ _) (coupling_inStep _ _ _ _) hstep more
    exact ⟨hanswers, hlast.level.frameIndex_eq, hlast.decoded⟩
  · intro hceiling s₁ c hread hlocator ops hopen
    exact replay_of_constantRate hm hs hceiling hread hlocator ops hopen

/-- A frame, and the start of another one. One session has played to the end and holds the frame
that is cut off, the other one, whose medium gives single bytes, has only read the headers. After
the time zero has been sought both play the same. -/
theorem seekTo_forgets_cut :
    let frame : List UInt8 := [0xFF, 0xF3, 0x14, 0x00] ++ List.replicate 20 0
    let data : Array UInt8 := (frame ++ frame.take 10).toArray
    let m : Medium := ⟨data, 0, .plain, {}, 0⟩
    let m' : Medium := ⟨data, 0, Schedule.conduct { chunk := some 1 }, {}, 0⟩
    ∃ s s' r r' : Session Stamp,
      setUp (some (.ofMedium m (some 34))) (some ⟨.call, 0, none, 0⟩) {} = .ok s ∧
        setUp (some (.ofMedium m' (some 34))) (some ⟨.call, 0, none, 0⟩) {} = .ok s' ∧
        seekTo ⟨0⟩ (s.run [.readHeaders, .play none]) = .ok ⟨0⟩ r ∧
        seekTo ⟨0⟩ (s'.run [.readHeaders]) = .ok ⟨0⟩ r' ∧
        r'.answers [.play none] = r.answers [.play none] ∧
        ∃ frames, (r.run [.play none]).decoded = r.decoded ++ frames ∧
          (r'.run [.play none]).decoded = r'.decoded ++ frames := by
  intro frame data m m'
  have hm : m.conduct.Faultless := Conduct.faultless_plain
  have hm' : m'.conduct.Faultless := ⟨fun _ _ _ => ⟨1, rfl⟩, fun _ _ => rfl⟩
  have hdata : m'.data = m.data := rfl
  obtain ⟨s, hs⟩ : ∃ s : Session Stamp,
      setUp (some (.ofMedium m (some 34))) (some ⟨.call, 0, none, 0⟩) {} = .ok s := ⟨_, rfl⟩
  obtain ⟨s', hs'⟩ : ∃ s' : Session Stamp,
      setUp (some (.ofMedium m' (some 34))) (some ⟨.call, 0, none, 0⟩) {} = .ok s' := ⟨_, rfl⟩
  have hopen : (s.run [.readHeaders, .play none]).closed = false := by
    cases hs
    decide +kernel
  have hopen' : (s'.run [.readHeaders]).closed = false := by
    cases hs'
    decide +kernel
  have hseek : (match seekTo ⟨0⟩ (s.run [.readHeaders, .play none]) with
      | .ok actual _ => decide (actual = ⟨0⟩)
      | .error _ _ => false) = true := by
    cases hs
    decide +kernel
  have hseek' : (match seekTo ⟨0⟩ (s'.run [.readHeaders]) with
      | .ok actual _ => decide (actual = ⟨0⟩)
      | .error _ _ => false) = true := by
    cases hs'
    decide +kernel
  split at hseek
  · rename_i actual r h
    obtain rfl := of_decide_eq_true hseek
    split at hseek'
    · rename_i actual' r' h'
      obtain rfl := of_decide_eq_true hseek'
      obtain ⟨hforget, -⟩ := seekTo_forgets hm hm' hdata rfl rfl hs hs'
      obtain ⟨-, hsame⟩ := hforget _ _ _ _ _ _ _ hopen hopen' h h'
      obtain ⟨hanswers, -, hdecoded⟩ := hsame [.play none]
      exact ⟨s, s', r, r', hs, hs', h, h', hanswers, hdecoded⟩
    · cases hseek'
  · cases hseek

end Session

end MpegAudio
