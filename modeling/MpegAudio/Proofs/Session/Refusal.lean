import MpegAudio.Medium.Schedule
import MpegAudio.Proofs.Session.Coupled

/-!
# Seeks that are refused

A seek fails when the headers have not been read, when the length of the stream is unknown, or when
the source refuses to go there. It then leaves the session as it was. Only the medium may have
counted the request, and where its conduct makes nothing of that, nothing that is done afterwards
can tell that the seek was ever tried.

This goes for every state that can be reached over any source, in the middle of a frame or of a
search, and whatever reading and seeking lead to afterwards.
-/

namespace MpegAudio

theorem Locator.choose_eq_live_iff {start : Nat} {length : Option Nat} {header : Header}
    {frame : List UInt8} : choose start length header frame = live ↔ length = none := by
  cases length with
  | none => simp [choose]
  | some n => cases hsummary : Summary.ofFrame? start n header frame <;> simp [choose, hsummary]

theorem Locator.target?_eq_none_iff {l : Locator} {t : Nat} : l.target? t = none ↔ l = live := by
  cases l <;> simp [target?]

/-- Headers that have been read know a way to find times just when the length is known. -/
theorem Track.locator_eq_live_iff {limit : Nat} {track : Track} {s s' : Synchronizer}
    (h : read limit s = .ok track s') : track.locator = .live ↔ s'.source.length = none := by
  obtain ⟨tags, s₁, -, h⟩ := exists_of_bind_ok h
  obtain ⟨_, s₂, -, h⟩ := exists_of_bind_ok h
  obtain ⟨r, s₃, -, h⟩ := exists_of_bind_ok h
  rcases hheader : r.header? with _ | header
  · simp only [hheader] at h
    cases h
  · simp only [hheader] at h
    obtain ⟨locator, s₄, hlocator, h⟩ := exists_of_bind_ok h
    cases h
    rw [readLocator] at hlocator
    split at hlocator
    · cases hlocator
    · cases hlocator
      rw [Locator.choose_eq_live_iff]
      split <;> rfl

/-- The medium after a seek that it refused. -/
def Medium.afterRefusal (m : Medium) : Medium := { m with tally := m.tally.later 0 0 1 }

/-- No answer depends on how many seeks there were. -/
def Conduct.Oblivious (c : Conduct) : Prop :=
  ∀ tally seeks, c.onRead { tally with seeks := seeks } = c.onRead tally ∧
    c.onSeek { tally with seeks := seeks } = c.onSeek tally

/-- A medium that takes no notice of the seeks goes on after a refused one as it would have. -/
theorem Medium.alike_afterRefusal {m : Medium} (H : m.conduct.Oblivious) :
    m.Alike m.afterRefusal :=
  ⟨rfl, rfl, rfl, fun a b c => (H (m.tally.later a b c) (m.tally.seeks + 1 + c)).1,
    fun a b c => (H (m.tally.later a b c) (m.tally.seeks + 1 + c)).2⟩

namespace Session

open Synchronizer

variable {δ : Type} {s t : Session δ}

/-! ## Media -/

def medium (s : Session δ) : Medium := s.synchronizer.source.medium

def onMedium (s : Session δ) (m : Medium) : Session δ :=
  { s with
    synchronizer := { s.synchronizer with source := { s.synchronizer.source with medium := m } } }

theorem beside_onMedium (s : Session δ) {m m' : Medium} (h : m.Alike m') :
    Beside Source.Alike (s.onMedium m) (s.onMedium m') :=
  ⟨(s.onMedium m').synchronizer, ⟨⟨m', h, rfl⟩, rfl, rfl, fun _ => rfl⟩, rfl⟩

/-- **A seek that fails changes nothing**, but that a medium that refused it has counted it. -/
theorem cases_of_seekTo_error {requested : Duration} {error : Error} {s' : Session δ}
    (h : seekTo requested s = .error error s') :
    error = .headersNotRead ∧ s.track? = none ∧ s' = s ∨
      error = .seek .unsupported ∧ (∃ track, s.headers = .known track ∧ track.locator = .live) ∧
        s' = s ∨
      (∃ fault, error = .seek (.source fault)) ∧ s.track?.isSome ∧
        s' = s.onMedium s.medium.afterRefusal := by
  rcases hheaders : s.headers with _ | _ | track
  · rw [seekTo, track?, hheaders] at h
    cases h
    exact .inl ⟨rfl, by rw [track?, hheaders], rfl⟩
  · rw [seekTo, track?, hheaders] at h
    cases h
    exact .inl ⟨rfl, by rw [track?, hheaders], rfl⟩
  · rcases htarget : track.locator.target? requested.toMillis with _ | target
    · rw [seekTo_of_live hheaders htarget] at h
      cases h
      exact .inr (.inl ⟨rfl, ⟨track, rfl, Locator.target?_eq_none_iff.mp htarget⟩, rfl⟩)
    · rw [seekTo, track?, hheaders] at h
      simp only [Locator.seek, htarget, Source.seek, Medium.seek] at h
      rcases hseek : s.synchronizer.source.medium.conduct.onSeek
        s.synchronizer.source.medium.tally target.position with _ | fault
      · simp only [hseek] at h
        cases h
      · simp only [hseek] at h
        cases h
        refine .inr (.inr ⟨⟨fault, rfl⟩, by rw [track?, hheaders]; rfl, ?_⟩)
        rw [← hheaders]
        rfl

/-! ## What is known of the length -/

/-- Headers that have been read know a way to find times just when the length is known. -/
def Settled (length : Option Nat) (s : Session δ) : Prop :=
  ∀ track, s.headers = .known track → (track.locator = .live ↔ length = none)

variable [Decoder δ]

/-- A session beside itself: what is fixed about the source stays so, and with the headers it is
settled whether times can be found. -/
theorem coupling_settled (length : Option Nat) (conduct : Conduct) :
    Coupling (δ := δ) (fun x y => x = y ∧ x.Fixed length conduct)
      (fun s t => Beside (fun x y => x = y ∧ x.Fixed length conduct) s t ∧ Settled length s) := by
  have H := Source.coupling_same length conduct
  have K := coupling_beside (δ := δ) H
  refine ⟨fun h => K.synchronizer h.1, fun h => K.pace_eq h.1, fun h => K.closed_eq h.1, ?_,
    fun h hxy => ⟨K.move h.1 hxy, h.2⟩, ?_, ?_, ?_⟩
  · rintro s _ ⟨⟨x, hx, rfl⟩, hsettled⟩
    rw [readHeaders, readHeaders]
    rcases hheaders : s.headers with _ | error | track
    · obtain ⟨track, y, z, hy, hz, hyz⟩ | ⟨error, y, z, hy, hz, hyz⟩ :=
        Track.read_coupled H hx s.searchLimit
      · simp only [hy, hz, openSink_eq]
        refine .ok () ⟨⟨z, hyz, rfl⟩, ?_⟩
        intro track' htrack
        cases htrack
        rw [Track.locator_eq_live_iff hy, hyz.source.2.1]
      · simp only [hy, hz]
        refine .error error ⟨⟨z, hyz, rfl⟩, ?_⟩
        intro track htrack
        cases htrack
    · exact .error error ⟨⟨x, hx, by rw [← hheaders]⟩, hsettled⟩
    · exact .ok () ⟨⟨x, hx, by rw [← hheaders]⟩, hsettled⟩
  · intro s t h
    refine ⟨K.playHeld h.1, ?_⟩
    rw [playHeld_eq]
    exact h.2
  · intro s t x y h hxy frame event
    refine ⟨K.sought h.1 hxy frame event, ?_⟩
    rw [tell_eq]
    exact h.2
  · intro s t h
    refine ⟨K.close h.1, ?_⟩
    rw [Settled, headers_close]
    exact h.2

/-- In every state that can be reached the source has the length and the conduct that it had, and
the headers, if they are known, settle whether times can be found. -/
theorem settled_run {source : Source} {decoder : δ} {settings : Settings}
    (hs : setUp (some source) (some decoder) settings = .ok s) (ops : List Operation) :
    (s.run ops).synchronizer.source.Fixed source.length source.medium.conduct ∧
      Settled source.length (s.run ops) := by
  have hstart : Beside
      (fun x y => x = y ∧ x.Fixed source.length source.medium.conduct) s s := by
    cases hs
    exact ⟨_, ⟨⟨rfl, rfl, rfl⟩, rfl, rfl, fun _ => rfl⟩, rfl⟩
  have hunread : Settled source.length s := by
    cases hs
    intro track htrack
    cases htrack
  obtain ⟨-, ⟨x, hx, -⟩, hsettled⟩ :=
    run_coupled (Source.coupling_same _ _) (coupling_settled _ _) ⟨hstart, hunread⟩ ops
  exact ⟨hx.source.2, hsettled⟩

/-! ## Seeks that fail -/

omit [Decoder δ] in
/-- Once the headers have been read, a seek finds no place just when the length is not known. -/
theorem seekTo_unsupported_iff {length : Option Nat} (H : Settled length s)
    (hknown : s.track?.isSome) (t : Duration) :
    (∃ s', seekTo t s = .error (.seek .unsupported) s') ↔ length = none := by
  constructor
  · rintro ⟨s', h⟩
    obtain ⟨herror, -⟩ | ⟨-, ⟨track, hheaders, hlive⟩, -⟩ | ⟨⟨fault, herror⟩, -⟩ :=
      cases_of_seekTo_error h
    · cases herror
    · exact (H track hheaders).mp hlive
    · cases herror
  · intro hlength
    rcases hheaders : s.headers with _ | _ | track
    · simp [track?, hheaders] at hknown
    · simp [track?, hheaders] at hknown
    · have hlive : track.locator.target? t.toMillis = none :=
        Locator.target?_eq_none_iff.mpr ((H track hheaders).mpr hlength)
      exact ⟨s, seekTo_of_live hheaders hlive⟩

/-- **A seek that fails leaves no trace.** Take any state that can be reached over any source. When
the headers have been read, seeking is not supported just when the length is not known. And when a
seek fails, for one of three reasons, the state is the same as before, but that a medium that
refused the seek has counted it. So where the medium goes on as `m` does, all that is done
afterwards answers what it would have answered over `m` without the seek, and gives the same frames
to the decoder, the same to the sink, and the same position and number of the next frame. A medium
whose answers do not depend on how many seeks there were is such an `m` itself. -/
theorem seekTo_invisible {source : Source} {decoder : δ} {settings : Settings}
    (hs : setUp (some source) (some decoder) settings = .ok s) (ops : List Operation)
    (t : Duration) :
    ((s.run ops).track?.isSome →
      ((∃ s', seekTo t (s.run ops) = .error (.seek .unsupported) s') ↔ source.length = none)) ∧
    ∀ error s', seekTo t (s.run ops) = .error error s' →
      (error = .headersNotRead ∧ (s.run ops).track? = none ∧ s' = s.run ops ∨
        error = .seek .unsupported ∧ source.length = none ∧ s' = s.run ops ∨
        ∃ fault, error = .seek (.source fault) ∧
          s' = (s.run ops).onMedium (s.run ops).medium.afterRefusal) ∧
      (source.medium.conduct.Oblivious → (s.run ops).medium.Alike s'.medium) ∧
      ∀ m, m.Alike s'.medium → ∀ more,
        let untried := (s.run ops).onMedium m
        s'.answers more = untried.answers more ∧
          (s'.run more).journal = (untried.run more).journal ∧
          (s'.run more).frameIndex = (untried.run more).frameIndex ∧
          (s'.run more).synchronizer.source.position =
            (untried.run more).synchronizer.source.position := by
  obtain ⟨hfixed, hsettled⟩ := settled_run hs ops
  refine ⟨fun hknown => seekTo_unsupported_iff hsettled hknown t, ?_⟩
  intro error s' h
  have hcases := cases_of_seekTo_error h
  have hover : s' = (s.run ops).onMedium s'.medium := by
    obtain ⟨-, -, hs'⟩ | ⟨-, -, hs'⟩ | ⟨-, -, hs'⟩ := hcases <;>
      rw [hs'] <;> rfl
  refine ⟨?_, fun hconduct => ?_, ?_⟩
  · obtain ⟨herror, hnone, hs'⟩ | ⟨herror, ⟨track, hheaders, hlive⟩, hs'⟩ |
      ⟨⟨fault, herror⟩, -, hs'⟩ := hcases
    · exact .inl ⟨herror, hnone, hs'⟩
    · exact .inr (.inl ⟨herror, (hsettled track hheaders).mp hlive, hs'⟩)
    · exact .inr (.inr ⟨fault, herror, hs'⟩)
  · obtain ⟨-, -, hs'⟩ | ⟨-, -, hs'⟩ | ⟨-, -, hs'⟩ := hcases
    · rw [hs']
      exact .refl _
    · rw [hs']
      exact .refl _
    · rw [hs']
      exact Medium.alike_afterRefusal (hfixed.2 ▸ hconduct)
  · intro m hm more untried
    have hbeside : Beside Source.Alike untried s' := by
      rw [hover]
      exact beside_onMedium (s.run ops) hm
    obtain ⟨hanswers, x, hx, hrun⟩ :=
      run_coupled Source.coupling_alike (coupling_beside Source.coupling_alike) hbeside more
    rw [hrun]
    exact ⟨hanswers, rfl, rfl, Source.coupling_alike.position_eq hx.source⟩

/-- Two frames of 24 bytes in a medium that goes nowhere beyond its tenth byte. The headers hold the
first frame when the seek to the second one is refused. Playing then answers and does the same as
without the seek. -/
theorem seekTo_invisible_refused :
    let frame : List UInt8 := [0xFF, 0xF3, 0x14, 0x00] ++ List.replicate 20 0
    let m : Medium := ⟨(frame ++ frame).toArray, 0, Schedule.conduct { seekMax := some 10 }, {}, 0⟩
    ∃ s s₁ s₂ : Session Stamp,
      setUp (some (.ofMedium m (some 48))) (some ⟨.call, 0, none, 0⟩) {} = .ok s ∧
        s₁ = s.run [.readHeaders] ∧
        (∃ fault, seekTo (.ofMillis 40) s₁ = .error (.seek (.source fault)) s₂) ∧
        s₂.answers [.play none] = s₁.answers [.play none] ∧
        (s₂.run [.play none]).journal = (s₁.run [.play none]).journal := by
  intro frame m
  obtain ⟨s, hs⟩ : ∃ s : Session Stamp,
      setUp (some (.ofMedium m (some 48))) (some ⟨.call, 0, none, 0⟩) {} = .ok s := ⟨_, rfl⟩
  have hrefused : (match seekTo (.ofMillis 40) (s.run [.readHeaders]) with
      | .error (.seek (.source _)) _ => true
      | _ => false) = true := by
    cases hs
    decide +kernel
  obtain ⟨-, hinvisible⟩ := seekTo_invisible hs [.readHeaders] (.ofMillis 40)
  split at hrefused
  · rename_i fault s₂ hseek
    obtain ⟨-, halike, hafter⟩ := hinvisible _ _ hseek
    obtain ⟨hanswers, hjournal, -⟩ := hafter _ (halike fun _ _ => ⟨rfl, rfl⟩) [.play none]
    exact ⟨s, _, s₂, hs, rfl, ⟨fault, hseek⟩, hanswers, hjournal⟩
  · cases hrefused

end Session

end MpegAudio
