import MpegAudio.Locator
import MpegAudio.Proofs.Bytes.Digits
import MpegAudio.Proofs.Header.Grammar
import MpegAudio.Proofs.Timecode.Inverse

/-!
# What the ways to find times have in common

A summary and a constant rate count the frames differently and find their places differently. But
either of them first settles which frame plays at the time, from the clock and the number of
frames, and the place depends on that frame alone.

However the number of frames came about, the last of them has started by the ceiling: a summary
counts in 32 bits, and no stream is so dense that the bytes below the ceiling hold frames for more
milliseconds than that.
-/

namespace MpegAudio

open Header

variable {bs frame : List UInt8} {h : Header} {start length : Nat}

/-- A frame starts by the ceiling if the samples before it last no longer. -/
private theorem le_frameAt_ceiling (H : ofBytes? bs = some h) {i : Nat} (hi : i ≤ ceiling)
    (hroom : i * (h.samplesPerFrame * 1000) ≤ (ceiling + 1) * h.sampleRate - 1) :
    i ≤ h.clock.frameAt ceiling := by
  have hsamples : 0 < h.clock.samplesPerFrame := Nat.lt_of_lt_of_le (by decide) (clock_bounds H).1
  have hframe : i ≤ ((ceiling + 1) * h.sampleRate - 1) / (h.samplesPerFrame * 1000) :=
    (Nat.le_div_iff_mul_le (Nat.mul_pos hsamples (by decide))).mpr hroom
  rw [Clock.frameAt_of_pos hsamples]
  exact Nat.le_min.mpr ⟨hframe, hi⟩

/-- The last frame that a number of bytes has room for starts by the ceiling. -/
theorem ConstantRate.pred_frameCount_le (H : ofBytes? bs = some h) (hlength : length ≤ ceiling) :
    (ofHeader start length h).frameCount - 1 ≤ h.clock.frameAt ceiling := by
  obtain ⟨hsamples, -⟩ := clock_bounds H
  have hscaled := samples_le_scaledLength H
  have hceiling : (ofHeader start length h).frameCount ≤ ceiling := saturate_le_ceiling _
  have hcount : (ofHeader start length h).frameCount ≤
      (ceiling + 1) * h.sampleRate / (h.samplesPerFrame * 1000) := by
    calc (ofHeader start length h).frameCount
        ≤ (length - start + 1) * h.sampleRate / max h.scaledLength 1 := saturate_le _
      _ ≤ (ceiling + 1) * h.sampleRate / max h.scaledLength 1 :=
          Nat.div_le_div_right (Nat.mul_le_mul_right _ (by omega))
      _ ≤ (ceiling + 1) * h.sampleRate / (h.samplesPerFrame * 1000) :=
          Nat.div_le_div_left (by omega) (by omega)
  rw [Nat.le_div_iff_mul_le (by omega)] at hcount
  apply le_frameAt_ceiling H (by omega)
  rw [Nat.sub_mul]
  omega

/-- A first frame holds a summary exactly when all of this stands in it: a mark, flags that announce
the three parts, and the parts, with at least one frame. -/
theorem Summary.ofFrame?_eq_some_iff {s : Summary} :
    ofFrame? start length h frame = some s ↔
      ∃ mark flags count bytes table,
        Bytes.field? frame h.sideInfoEnd 4 = some mark ∧ mark ∈ marks ∧
        Bytes.number? frame (h.sideInfoEnd + 4) = some flags ∧ flags % 8 = 7 ∧
        Bytes.number? frame (h.sideInfoEnd + 8) = some count ∧
        Bytes.number? frame (h.sideInfoEnd + 12) = some bytes ∧
        table? frame (h.sideInfoEnd + 16) = some table ∧ count ≠ 0 ∧
        s = ⟨start + h.frameSize, min bytes (length - (start + h.frameSize)), count, table,
          h.clock⟩ := by
  simp only [ofFrame?, Option.bind_eq_bind, Option.bind_eq_some_iff, Option.some.injEq,
    Option.guard_eq_some']
  constructor
  · rintro ⟨mark, hmark, _, hmarks, flags, hflags, _, hseven, count, hcount, bytes, hbytes, table,
      htable, _, hsome, rfl⟩
    exact ⟨mark, flags, count, bytes, table, hmark, hmarks, hflags, hseven, hcount, hbytes, htable,
      hsome, rfl⟩
  · rintro ⟨mark, flags, count, bytes, table, hmark, hmarks, hflags, hseven, hcount, hbytes, htable,
      hsome, rfl⟩
    exact ⟨mark, hmark, (), hmarks, flags, hflags, (), hseven, count, hcount, bytes, hbytes, table,
      htable, (), hsome, rfl⟩

theorem Summary.frameCount_lt {s : Summary} (H : ofFrame? start length h frame = some s) :
    s.frameCount < 256 ^ 4 := by
  obtain ⟨_, _, count, _, _, -, -, -, -, hcount, -, -, -, rfl⟩ := ofFrame?_eq_some_iff.mp H
  exact Bytes.number?_lt hcount

theorem Summary.clock_eq {s : Summary} (H : ofFrame? start length h frame = some s) :
    s.clock = h.clock := by
  obtain ⟨_, _, _, _, _, -, -, -, -, -, -, -, -, rfl⟩ := ofFrame?_eq_some_iff.mp H
  rfl

theorem Summary.dataStart_eq {s : Summary} (H : ofFrame? start length h frame = some s) :
    s.dataStart = start + h.frameSize := by
  obtain ⟨_, _, _, _, _, -, -, -, -, -, -, -, -, rfl⟩ := ofFrame?_eq_some_iff.mp H
  rfl

theorem Summary.pred_frameCount_le (Hh : ofBytes? bs = some h) {s : Summary}
    (H : ofFrame? start length h frame = some s) :
    s.frameCount - 1 ≤ h.clock.frameAt ceiling := by
  obtain ⟨-, hlong, hslow, -⟩ := clock_bounds Hh
  have hcount := frameCount_lt H
  apply le_frameAt_ceiling Hh
  · rw [ceiling]
    omega
  · calc (s.frameCount - 1) * (h.samplesPerFrame * 1000)
        ≤ 256 ^ 4 * (1152 * 1000) := Nat.mul_le_mul (by omega) (by omega)
      _ ≤ (ceiling + 1) * 8000 - 1 := by decide
      _ ≤ (ceiling + 1) * h.sampleRate - 1 := Nat.sub_le_sub_right (Nat.mul_le_mul_left _ hslow) 1

/-- Behind a first frame that was chosen for its summary the audio begins. -/
theorem Locator.dataStart_of_choose {length : Option Nat} {s : Summary}
    (H : choose start length h frame = summary s) : s.dataStart = start + h.frameSize := by
  cases length with
  | none => cases H
  | some n =>
      rw [choose] at H
      rcases hsummary : Summary.ofFrame? start n h frame with _ | found
      · rw [hsummary] at H
        cases H
      · rw [hsummary] at H
        cases H
        exact Summary.dataStart_eq hsummary

/-- **The place of a time depends on the frame playing then alone.** Of a stream of known length the
frames are counted, in one way or the other, and the playing time is that of their number. The frame
at a time is the one that the clock tells, or the last one, and has its place. -/
theorem Locator.exists_places (H : ofBytes? bs = some h) (hlength : length ≤ ceiling) (start : Nat)
    (frame : List UInt8) :
    ∃ (count : Nat) (place : Nat → Nat),
      (choose start (some length) h frame).frameCount = some count ∧
        (choose start (some length) h frame).duration = some (.ofMillis (h.clock.timecode count)) ∧
        count - 1 ≤ h.clock.frameAt ceiling ∧
        ∀ t, (choose start (some length) h frame).target? t =
          some ⟨min (h.clock.frameAt t) (count - 1),
            place (min (h.clock.frameAt t) (count - 1))⟩ := by
  rw [choose]
  rcases hsummary : Summary.ofFrame? start length h frame with _ | s
  · exact ⟨_, (ConstantRate.ofHeader start length h).position, rfl, rfl,
      ConstantRate.pred_frameCount_le H hlength, fun _ => rfl⟩
  · have hclock := Summary.clock_eq hsummary
    refine ⟨s.frameCount, s.position, rfl, ?_, Summary.pred_frameCount_le H hsummary, ?_⟩
    · rw [← hclock]
      rfl
    · intro t
      rw [← hclock]
      rfl

end MpegAudio
