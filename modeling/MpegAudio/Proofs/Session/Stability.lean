import MpegAudio.Proofs.Locator.Choice
import MpegAudio.Proofs.Session.Runs

/-!
# Seeking to the time that was told

Seeking leads to the frame playing at a time and tells when that frame starts. The start is told in
whole milliseconds, so it is a little early. All the same it leads back to the same frame and the
same place, in every stream of known length: the frame is the last one whose start, as it is told,
does not lie behind the time.

Nothing is asked of the stream. The length may be wrong, the first frame may be anything that a
summary is found in or not, and reading may fail. Only the source has to go where it is sent.
-/

namespace MpegAudio

/-- The source can be sent anywhere, whatever becomes of reading there. -/
def Source.Mobile (s : Source) : Prop :=
  ∀ tally target, s.medium.conduct.onSeek tally target = none

/-- A seek that cannot fail leaves a source that can be sent anywhere again. -/
theorem Source.seek_of_mobile {s : Source} (H : s.Mobile) (target : Nat) :
    ∃ s', seek target s = .ok () s' ∧ s'.position = target ∧ s'.Mobile :=
  ⟨_, seek_of_granted (H _ _), rfl, H⟩

namespace Session

open Header

variable {δ : Type} {s : Session δ}

/-- A place for the time is taken up, and the frame of that place is the next one. -/
theorem seekTo_of_mobile {track : Track} {target : Target} {requested : Duration}
    (hheaders : s.headers = .known track) (hmobile : s.synchronizer.source.Mobile)
    (H : track.locator.target? requested.toMillis = some target) :
    ∃ s', seekTo requested s = .ok (.ofMillis (track.clock.timecode target.frame)) s' ∧
      s'.headers = .known track ∧ s'.synchronizer.source.Mobile ∧
      s'.frameIndex = target.frame ∧ s'.synchronizer.source.position = target.position := by
  obtain ⟨source, hseek, hposition, hmobile'⟩ :=
    Source.seek_of_mobile hmobile target.position
  refine ⟨_, seekTo_of_seek hheaders H hseek, ?_⟩
  rw [tell_eq]
  exact ⟨hheaders, hmobile', rfl, hposition⟩

/-- **Seeking to the time that was told is stable.** In a stream of known length, with the way to
find times that follows from its first frame, every time `t` can be sought. The frame `i` that is
next then is the last one of the stream that starts by `t`, as starts are told in whole
milliseconds, and its start is told. Seeking to that start tells the same start again, and leads to
the same frame and the same position. A later time never leads to an earlier frame, whether it is
sought instead of `t` or after it. And as long as the end of the stream lies below the ceiling, the
start that is told lies before it.

Positions are words of 64 bits, which is what `hlength` says of the length. -/
theorem seekTo_stable {bs frame : List UInt8} {h : Header} {start length : Nat} {tags : Tag.Table}
    (H : ofBytes? bs = some h) (hlength : length ≤ ceiling)
    (hheaders : s.headers = .known ⟨tags, h.clock, .choose start (some length) h frame⟩)
    (hmobile : s.synchronizer.source.Mobile) (t : Duration) :
    ∃ count i s₁ s₂,
      let actual := Duration.ofMillis (h.clock.timecode i)
      (Locator.choose start (some length) h frame).frameCount = some count ∧
        IsGreatest {j | j ≤ max count 1 - 1 ∧ h.clock.timecode j ≤ t.nanoseconds / 1000000} i ∧
        seekTo t s = .ok actual s₁ ∧ s₁.frameIndex = i ∧ actual.nanoseconds ≤ t.nanoseconds ∧
        seekTo actual s₁ = .ok actual s₂ ∧ s₂.frameIndex = i ∧
        s₂.synchronizer.source.position = s₁.synchronizer.source.position ∧
        (∀ t' : Duration, t.nanoseconds ≤ t'.nanoseconds → ∀ s₀ ∈ [s, s₁],
          ∃ actual' s', seekTo t' s₀ = .ok actual' s' ∧ i ≤ s'.frameIndex) ∧
        (1 ≤ count → count * h.samplesPerFrame * 1000 / h.sampleRate ≤ ceiling →
          ∃ d, s.duration? = some d ∧ actual.nanoseconds < d.nanoseconds) := by
  obtain ⟨hsamples, -, hslow, hfast⟩ := clock_bounds H
  obtain ⟨count, place, hcount, hduration, hlast, htarget⟩ :=
    Locator.exists_places H hlength start frame
  have hmax : max count 1 - 1 = count - 1 := by omega
  -- The frame at a time is the greatest one that has started.
  have hgreatest : ∀ t : Duration,
      IsGreatest {j | j ≤ max count 1 - 1 ∧ h.clock.timecode j ≤ t.nanoseconds / 1000000}
        (min (h.clock.frameAt t.toMillis) (count - 1)) := by
    intro t
    rw [hmax]
    exact Clock.isGreatest_frameAt (Nat.lt_of_lt_of_le (by decide) hsamples)
      (Nat.lt_of_lt_of_le (by decide) hslow) hlast _
  obtain ⟨i, hi⟩ : ∃ i, i = min (h.clock.frameAt t.toMillis) (count - 1) := ⟨_, rfl⟩
  have hit := hgreatest t
  rw [← hi] at hit
  obtain ⟨⟨hile, hstart⟩, hupper⟩ := hit
  -- The frames that have started by the start of `i` have started by `t`, so `i` is the last.
  have hagain : min (h.clock.frameAt (Duration.ofMillis (h.clock.timecode i)).toMillis)
      (count - 1) = i := by
    refine (hgreatest (.ofMillis (h.clock.timecode i))).unique ⟨⟨hile, ?_⟩, ?_⟩
    · exact (Nat.le_div_iff_mul_le (by decide)).mpr le_rfl
    · rintro j ⟨hj, hearly⟩
      rw [Duration.ofMillis, Nat.mul_div_cancel _ (by decide)] at hearly
      exact hupper ⟨hj, by omega⟩
  obtain ⟨s₁, hseek₁, hheaders₁, hmobile₁, hindex₁, hposition₁⟩ :=
    seekTo_of_mobile hheaders hmobile (htarget t.toMillis)
  obtain ⟨s₂, hseek₂, -, -, hindex₂, hposition₂⟩ :=
    seekTo_of_mobile hheaders₁ hmobile₁
      (htarget (Duration.ofMillis (h.clock.timecode i)).toMillis)
  simp only [← hi] at hseek₁ hindex₁ hposition₁
  simp only [hagain] at hseek₂ hindex₂ hposition₂
  refine ⟨count, i, s₁, s₂, hcount, ⟨⟨hile, hstart⟩, hupper⟩, hseek₁, hindex₁, ?_, hseek₂, hindex₂,
    hposition₂.trans hposition₁.symm, ?_, ?_⟩
  · exact (Nat.le_div_iff_mul_le (by decide)).mp hstart
  · intro t' hlater s₀ hs₀
    have hready : s₀.headers = .known ⟨tags, h.clock, .choose start (some length) h frame⟩ ∧
        s₀.synchronizer.source.Mobile := by
      simp only [List.mem_cons, List.not_mem_nil, or_false] at hs₀
      rcases hs₀ with rfl | rfl
      · exact ⟨hheaders, hmobile⟩
      · exact ⟨hheaders₁, hmobile₁⟩
    obtain ⟨s', hseek', -, -, hindex', -⟩ :=
      seekTo_of_mobile hready.1 hready.2 (htarget t'.toMillis)
    refine ⟨_, s', hseek', ?_⟩
    rw [hindex']
    exact (hgreatest t').2 ⟨hile, le_trans hstart (Nat.div_le_div_right hlater)⟩
  · intro hone hbelow
    refine ⟨.ofMillis (h.clock.timecode count), ?_, ?_⟩
    · rw [duration?, locator?, track?, hheaders]
      exact hduration
    · have hlt : h.clock.timecode i < h.clock.timecode count :=
        Clock.timecode_lt_timecode (Nat.lt_of_lt_of_le (by decide) hslow)
          (show h.sampleRate ≤ h.samplesPerFrame * 1000 by omega) hbelow (by omega)
      exact Nat.mul_lt_mul_of_pos_right hlt (by decide)

/-- Frames of 26.12 milliseconds: 30 milliseconds lead to the start of the second one, which is told
as 26, and 26 lead there again. -/
theorem seekTo_stable_rounded :
    let h := ofSettings .mpeg1 false 128 44100 false .stereo
    let s : Session Unit :=
      { synchronizer := { source := .ofMedium ⟨#[], 0, .plain, {}, 0⟩ (some 4170) }
        decoder := ()
        output := .replicate outputSize 0
        outlet := .absent
        headers := .known ⟨.empty, h.clock, .choose 0 (some 4170) h []⟩
        searchLimit := 0 }
    ∃ s₁ s₂, seekTo (.ofMillis 30) s = .ok (.ofMillis 26) s₁ ∧ s₁.frameIndex = 1 ∧
      seekTo (.ofMillis 26) s₁ = .ok (.ofMillis 26) s₂ ∧ s₂.frameIndex = 1 ∧
      ∃ d, s.duration? = some d ∧ (Duration.ofMillis 26).nanoseconds < d.nanoseconds := by
  intro h s
  have H : ofBytes? [0xFF, 0xFB, 0x90, 0x00] = some h := by decide
  obtain ⟨count, i, s₁, s₂, hcount, hgreatest, hseek₁, hindex₁, -, hseek₂, hindex₂, -, -, hend⟩ :=
    seekTo_stable (s := s) H (by decide) rfl (fun _ _ => rfl) (.ofMillis 30)
  have hnine : count = 9 := (Option.some.inj hcount).symm.trans (by decide)
  have hone : i = 1 := by
    apply hgreatest.unique
    rw [hnine]
    refine ⟨by decide, ?_⟩
    rintro j ⟨hj, hstart⟩
    have hall : ∀ j ≤ max 9 1 - 1,
        h.clock.timecode j ≤ (Duration.ofMillis 30).nanoseconds / 1000000 → j ≤ 1 := by decide
    exact hall j hj hstart
  have htime : h.clock.timecode 1 = 26 := by decide
  subst hone
  rw [htime] at hseek₁ hseek₂ hend
  rw [hnine] at hend
  exact ⟨s₁, s₂, hseek₁, hindex₁, hseek₂, hindex₂, hend (by decide) (by decide)⟩

end Session

end MpegAudio
