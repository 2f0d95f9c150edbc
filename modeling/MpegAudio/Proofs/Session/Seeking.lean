import MpegAudio.Proofs.Session.Runs
import MpegAudio.Proofs.Steady

/-!
# Seeking in a steady stream

At a constant bit rate, seeking is exact: the frame that is announced is the frame that is played
next, and it is the one playing at the time asked for, or the last one. It does not matter what was
done with the session before, since a seek takes up a place without regard to where the reader
is.
-/

namespace MpegAudio.Session

open Header Synchronizer

variable {δ : Type} {s : Session δ} {x : Stream} {limit : Nat} {header : Header}

variable [Decoder δ]

/-- **What is played after a seek is what the data holds from the place on.** This goes for every way
to find times, as long as it knows a place, and for every state of the reader before. -/
theorem play_after_seekTo {data : List UInt8} {length : Option Nat} {place : Place} {track : Track}
    {target : Target} {requested : Duration} (hheaders : s.headers = .known track)
    (hclosed : s.closed = false)
    (H : track.locator.target? requested.toMillis = some target)
    (hplace : Standing data length place s.synchronizer) :
    let actual := Duration.ofMillis (track.clock.timecode target.frame)
    let frames := framesFrom data target.position
    ∃ s₁ s₂, seekTo requested s = .ok actual s₁ ∧ s₁.frameIndex = target.frame ∧
      s₁.journal.toList = s.journal.toList ++
        (if s.outlet = .opened then [.sink (.sought requested actual)] else []) ∧
      play none s₁ = .ok .endOfStream s₂ ∧
      s₂.journal.toList =
        s₁.journal.toList ++ events (s₁.outlet = .opened) s₁.decoder s₁.output frames ∧
      s₂.frameIndex = target.frame + frames.length := by
  intro actual frames
  obtain ⟨synchronizer, hseek, hstanding, -⟩ := seekTo_of_target hheaders H hplace
  -- The seek changes the place, the number of the frame and the journal.
  obtain ⟨s₁, hs₁⟩ : ∃ s₁, s₁ =
      { s with synchronizer := synchronizer, frameIndex := target.frame }.tell
        (.sought requested actual) := ⟨_, rfl⟩
  rw [← hs₁] at hseek
  rw [tell_eq] at hs₁
  have hindex : s₁.frameIndex = target.frame := by rw [hs₁]
  have hopen : s₁.closed = false := by
    rw [hs₁]
    exact hclosed
  have hknown : s₁.track?.isSome := by
    rw [track?, hs₁, hheaders]
    rfl
  have hstanding₁ : Standing data length (.searching target.position) s₁.synchronizer := by
    rw [hs₁]
    exact hstanding
  have htold : s₁.journal.toList = s.journal.toList ++
      (if s.outlet = .opened then [.sink (.sought requested actual)] else []) := by
    rw [hs₁]
    split <;> simp
  obtain ⟨s₂, hplay, hjournal, hindex₂⟩ := play_spec hknown hopen hstanding₁ none
  rw [hindex] at hindex₂
  exact ⟨s₁, s₂, hseek, hindex, htold, hplay, hjournal, hindex₂⟩

end MpegAudio.Session
