import MpegAudio.Locator
import MpegAudio.Proofs.Locator.ConstantRate
import Mathlib.Order.Bounds.Basic

/-!
# Frames that are not all there

The frames of a stream are counted by its bytes, and one byte is added to them because frames can be
a little shorter than their average lengths come to. So as many frames are counted as have ended,
rounded down, by the last byte. But where a number of average lengths is a whole number of bytes and
one byte more than there are, the frame that lacks this byte is counted too.

It then counts everywhere: the playing time includes it, and a seek to the end leads to it, although
it cannot be read.
-/

namespace MpegAudio

namespace Header

/-- One frame, if so many bytes are a byte less than a number of average lengths, and else none. -/
def surplus (h : Header) (audio : Nat) : Nat :=
  if h.scaledLength ∣ (audio + 1) * h.sampleRate then 1 else 0

theorem surplus_le (h : Header) (audio : Nat) : h.surplus audio ≤ 1 := by
  rw [surplus]
  split <;> decide

theorem lowOffset_add_le (h : Header) (i : Nat) :
    h.lowOffset i + h.scaledLength / h.sampleRate ≤ h.lowOffset (i + 1) := by
  rw [lowOffset, lowOffset, Nat.add_mul, Nat.one_mul]
  exact Nat.div_add_div_le_add_div

end Header

namespace ConstantRate

open Header

variable {bs : List UInt8} {h : Header} {start length i n : Nat}

/-- The frames that are counted, by their average lengths. -/
theorem le_frameCount_iff (H : ofBytes? bs = some h) (hlength : length ≤ ceiling) :
    n ≤ (ofHeader start length h).frameCount ↔
      n * h.scaledLength ≤ (length - start + 1) * h.sampleRate := by
  have hrate := sampleRate_pos H
  have hlong := mul_sampleRate_le H
  rw [frameCount_eq H hlength, Nat.le_div_iff_mul_le (by omega)]

/-- With a surplus the frames counted end one byte behind the last one. -/
theorem lowOffset_frameCount (H : ofBytes? bs = some h) (hlength : length ≤ ceiling)
    (hdvd : h.scaledLength ∣ (length - start + 1) * h.sampleRate) :
    h.lowOffset (ofHeader start length h).frameCount = length - start + 1 := by
  rw [lowOffset, frameCount_eq H hlength, Nat.div_mul_cancel hdvd]
  exact Nat.mul_div_cancel _ (sampleRate_pos H)

theorem surplus_le_frameCount (H : ofBytes? bs = some h) (hlength : length ≤ ceiling) :
    h.surplus (length - start) ≤ (ofHeader start length h).frameCount := by
  rw [surplus]
  split
  · rename_i hdvd
    have hroom : 0 < (length - start + 1) * h.sampleRate :=
      Nat.mul_pos (Nat.succ_pos _) (sampleRate_pos H)
    rw [le_frameCount_iff H hlength, Nat.one_mul]
    exact Nat.le_of_dvd hroom hdvd
  · exact Nat.zero_le _

/-- **The frames that fit are those that are counted without the surplus.** -/
theorem lowOffset_le_iff_le (H : ofBytes? bs = some h) (hlength : length ≤ ceiling) :
    h.lowOffset n ≤ length - start ↔
      n ≤ (ofHeader start length h).frameCount - h.surplus (length - start) := by
  have hcount : n ≤ (ofHeader start length h).frameCount ↔ _ := le_frameCount_iff H hlength
  rw [lowOffset_le_iff H]
  by_cases hdvd : h.scaledLength ∣ (length - start + 1) * h.sampleRate
  · -- The frames counted come to one byte more than there are, so the last one does not fit.
    have hone : h.surplus (length - start) = 1 := if_pos hdvd
    have hpos : _ ≤ (ofHeader start length h).frameCount := surplus_le_frameCount H hlength
    have hwhole : (ofHeader start length h).frameCount * h.scaledLength =
        (length - start + 1) * h.sampleRate := by
      rw [frameCount_eq H hlength, Nat.div_mul_cancel hdvd]
    have hlong : 0 < h.scaledLength :=
      Nat.lt_of_lt_of_le (Nat.mul_pos (by decide) (sampleRate_pos H)) (mul_sampleRate_le H)
    rw [hone] at hpos ⊢
    rw [← hwhole, Nat.mul_lt_mul_right hlong]
    omega
  · -- No number of average lengths comes to one byte more than there are.
    have hzero : h.surplus (length - start) = 0 := if_neg hdvd
    have hne : n * h.scaledLength ≠ (length - start + 1) * h.sampleRate :=
      fun heq => hdvd ⟨n, by rw [← heq, Nat.mul_comm]⟩
    rw [hzero, Nat.sub_zero, hcount]
    omega

/-- The frames counted end by the last byte, or one byte behind it where there is a surplus. -/
theorem lowOffset_le_of_le (H : ofBytes? bs = some h) (hlength : length ≤ ceiling)
    (hi : i ≤ (ofHeader start length h).frameCount) :
    h.lowOffset i ≤ length - start + h.surplus (length - start) := by
  by_cases hfits : i ≤ (ofHeader start length h).frameCount - h.surplus (length - start)
  · have := (lowOffset_le_iff_le H hlength).mpr hfits
    omega
  · -- Only the last frame can be left, and there is a surplus.
    have hdvd : h.scaledLength ∣ (length - start + 1) * h.sampleRate := by
      by_contra hnot
      have hzero : h.surplus (length - start) = 0 := if_neg hnot
      omega
    have hone : h.surplus (length - start) = 1 := if_pos hdvd
    have hlast : i = (ofHeader start length h).frameCount := by omega
    rw [hlast, lowOffset_frameCount H hlength hdvd, hone]

/-- Behind the place of a frame that is counted there is room for one of average length, but for the
missing byte. In particular the place is inside the data. -/
theorem place_add_le (H : ofBytes? bs = some h) (hlength : length ≤ ceiling)
    (hi : i < (ofHeader start length h).frameCount) :
    start + h.lowOffset i + h.scaledLength / h.sampleRate ≤
        length + h.surplus (length - start) ∧ start + h.lowOffset i < length := by
  have hnext : h.lowOffset (i + 1) ≤ length - start + h.surplus (length - start) :=
    lowOffset_le_of_le H hlength hi
  have hstep := lowOffset_add_le h i
  have hlong := (scaledLength_bounds H).1
  have hone := surplus_le h (length - start)
  omega

/-- **The frames that are counted.** Without the surplus they are as many as fit between the first
frame and the end of the data, by their average lengths. A surplus is one frame, which is counted
although the last byte of it is missing. The playing time is that of all the frames counted, and a
seek leads to one of them: to a place behind which there is room for an unpadded frame, or for one
that lacks the byte. -/
theorem isGreatest_frameCount (H : ofBytes? bs = some h) (hlength : length ≤ ceiling) :
    let c := ofHeader start length h
    let surplus := h.surplus (length - start)
    IsGreatest {n | h.lowOffset n ≤ length - start} (c.frameCount - surplus) ∧
      (surplus = 0 ∨
        surplus = 1 ∧ 1 ≤ c.frameCount ∧ h.lowOffset c.frameCount = length - start + 1) ∧
      (Locator.constantRate c).duration = some (.ofMillis (h.clock.timecode c.frameCount)) ∧
      (1 ≤ c.frameCount → ∀ t, ∃ i < c.frameCount,
        (Locator.constantRate c).target? t = some ⟨i, start + h.lowOffset i⟩ ∧
          start + h.lowOffset i + h.scaledLength / h.sampleRate ≤ length + surplus) := by
  intro c surplus
  have hpos : surplus ≤ c.frameCount := surplus_le_frameCount H hlength
  refine ⟨⟨(lowOffset_le_iff_le H hlength).mpr le_rfl, fun n hn =>
    (lowOffset_le_iff_le H hlength).mp hn⟩, ?_, rfl, ?_⟩
  · by_cases hdvd : h.scaledLength ∣ (length - start + 1) * h.sampleRate
    · have hone : surplus = 1 := if_pos hdvd
      exact .inr ⟨hone, by omega, lowOffset_frameCount H hlength hdvd⟩
    · exact .inl (if_neg hdvd)
  · intro hcount t
    have hi : c.frameAt t < c.frameCount :=
      Nat.lt_of_le_of_lt (Nat.min_le_right _ _) (by omega)
    obtain ⟨hroom, hinside⟩ := place_add_le H hlength hi
    refine ⟨c.frameAt t, hi, ?_, hroom⟩
    have hposition : c.position (c.frameAt t) = start + h.lowOffset (c.frameAt t) :=
      position_ofHeader H (Nat.le_trans hinside.le hlength)
    rw [← hposition]
    rfl

/-- Behind a hundred bytes stand 20479 bytes of frames of 417.96 bytes: 49 frames are counted, and
the last one ends a byte behind the data. -/
theorem isGreatest_frameCount_averages :
    let h := ofSettings .mpeg1 false 128 44100 false .stereo
    let c := ofHeader 100 20579 h
    c.frameCount = 49 ∧ IsGreatest {n | h.lowOffset n ≤ 20479} 48 ∧ h.lowOffset 49 = 20480 ∧
      ∀ t, ∃ i < 49, (Locator.constantRate c).target? t = some ⟨i, 100 + h.lowOffset i⟩ ∧
        100 + h.lowOffset i + 417 ≤ 20579 + 1 := by
  intro h c
  have H : ofBytes? [0xFF, 0xFB, 0x90, 0x00] = some h := by decide
  have hcount : c.frameCount = 49 := by decide
  have hone : h.surplus (20579 - 100) = 1 := by decide
  have hunpadded : h.scaledLength / h.sampleRate = 417 := by decide
  obtain ⟨hgreatest, hsurplus, -, htarget⟩ :=
    @isGreatest_frameCount _ h 100 20579 H (by decide)
  rw [show (ofHeader 100 20579 h).frameCount = 49 from hcount] at hgreatest hsurplus htarget
  rw [hone] at hgreatest hsurplus htarget
  rw [hunpadded] at htarget
  exact ⟨hcount, hgreatest, (hsurplus.resolve_left (by decide)).2.2, htarget (by decide)⟩

/-- A frame of 384 bytes and the first 383 bytes of another: two frames are counted and told in the
playing time, where only one is there, and a seek leads to the second one. -/
theorem isGreatest_frameCount_partial :
    let h := ofSettings .mpeg1 false 128 48000 false .stereo
    let c := ofHeader 0 767 h
    ofBytes? [0xFF, 0xFB, 0x94, 0x00] = some h ∧ h.scaledLength / h.sampleRate = 384 ∧
      c.frameCount = 2 ∧ ¬ IsGreatest {n | h.lowOffset n ≤ 767 - 0} c.frameCount ∧
      (Locator.constantRate c).duration = some (.ofMillis 48) ∧ h.clock.timecode 1 = 24 ∧
      (Locator.constantRate c).target? 24 = some ⟨1, 384⟩ ∧ 767 < 384 + 384 := by
  intro h c
  refine ⟨by decide, by decide, by decide, ?_, by decide, by decide, by decide, by decide⟩
  rintro ⟨hfits, -⟩
  have htwo : h.lowOffset c.frameCount = 768 := by decide
  have hshort : 768 ≤ 767 - 0 := htwo ▸ hfits
  exact absurd hshort (by decide)

end ConstantRate

end MpegAudio
