import MpegAudio.Header
import Mathlib.Data.Option.Basic
import Mathlib.Tactic.ByContra

/-!
# What a valid header is like

The four bytes of a header leave few choices: a version, an index into each of its two tables, and
single bits. So the length of a frame is bounded from both sides, and most byte strings are no
header at all. In particular no header has `FF` as its second byte, since the layer bits would be
those of Layer I: a header cannot start one byte before another one.
-/

namespace MpegAudio.Header

/-- A header has a version and one entry from each of the tables of that version. -/
theorem exists_settings {bs : List UInt8} {h : Header} (H : ofBytes? bs = some h) :
    ∃ version checksum bitrate sampleRate padded mode,
      h = ofSettings version checksum bitrate sampleRate padded mode ∧
        bitrate ∈ version.bitrates ∧ sampleRate ∈ version.sampleRates := by
  match bs, H with
  | b₀ :: b₁ :: b₂ :: b₃ :: _, H =>
      simp only [ofBytes?, Option.bind_eq_bind, Option.bind_eq_some_iff, Option.some.injEq] at H
      obtain ⟨_, _, version, _, _, _, bitrate, hb, sampleRate, hs, _, _, rfl⟩ := H
      refine ⟨version, _, bitrate, sampleRate, _, _, rfl, ?_, List.mem_of_getElem? hs⟩
      rcases hi : b₂.toNat / 16 with _ | i
      · simp [hi, Version.bitrate?] at hb
      · rw [hi] at hb
        exact List.mem_of_getElem? hb

theorem head_of_ofBytes? {b₀ : UInt8} {rest : List UInt8} {h : Header}
    (H : ofBytes? (b₀ :: rest) = some h) : b₀ = 0xFF := by
  match rest, H with
  | b₁ :: b₂ :: b₃ :: _, H =>
      simp only [ofBytes?, Option.bind_eq_bind, Option.bind_eq_some_iff,
        Option.guard_eq_some'] at H
      obtain ⟨_, hsync, _⟩ := H
      exact UInt8.toNat_inj.mp hsync.1

theorem size_le_of_ofBytes? {bs : List UInt8} {h : Header} (H : ofBytes? bs = some h) :
    size ≤ bs.length := by
  match bs, H with
  | _ :: _ :: _ :: _ :: _, _ => simp [size]

/-- The unpadded lengths that the tables of a version allow, and no sample rate is zero. -/
private theorem unpadded_bounds (version : Version) :
    ∀ bitrate ∈ version.bitrates, ∀ sampleRate ∈ version.sampleRates,
      0 < sampleRate ∧
        24 ≤ version.samplesPerFrame / 8 * bitrate * 1000 / sampleRate ∧
        version.samplesPerFrame / 8 * bitrate * 1000 / sampleRate ≤ 1440 := by
  cases version <;> decide

/-- The pace and the bit rate that the tables of a version allow. -/
private theorem pace_bounds (version : Version) :
    576 ≤ version.samplesPerFrame ∧ version.samplesPerFrame ≤ 1152 ∧
      ∀ bitrate ∈ version.bitrates, ∀ sampleRate ∈ version.sampleRates,
        8000 ≤ sampleRate ∧ sampleRate ≤ 48000 ∧
          version.samplesPerFrame ≤ version.samplesPerFrame / 8 * bitrate := by
  cases version <;> decide

/-- A frame has as many bytes as frames of its stream have on average, rounded down, and one more
if it is padded. -/
theorem frameSize_eq {bs : List UInt8} {h : Header} (H : ofBytes? bs = some h) :
    h.frameSize = h.scaledLength / h.sampleRate + h.padded.toNat := by
  obtain ⟨version, checksum, bitrate, sampleRate, padded, mode, rfl, -⟩ := exists_settings H
  rfl

theorem sampleRate_pos {bs : List UInt8} {h : Header} (H : ofBytes? bs = some h) :
    0 < h.sampleRate := by
  obtain ⟨version, checksum, bitrate, sampleRate, padded, mode, rfl, hb, hs⟩ := exists_settings H
  exact (unpadded_bounds version bitrate hb sampleRate hs).1

theorem scaledLength_bounds {bs : List UInt8} {h : Header} (H : ofBytes? bs = some h) :
    24 ≤ h.scaledLength / h.sampleRate ∧ h.scaledLength / h.sampleRate ≤ 1440 := by
  obtain ⟨version, checksum, bitrate, sampleRate, padded, mode, rfl, hb, hs⟩ := exists_settings H
  exact (unpadded_bounds version bitrate hb sampleRate hs).2

theorem frameSize_bounds {bs : List UInt8} {h : Header} (H : ofBytes? bs = some h) :
    24 ≤ h.frameSize ∧ h.frameSize ≤ maxFrameSize := by
  rw [frameSize_eq H]
  have hbounds := scaledLength_bounds H
  have hpad : h.padded.toNat ≤ 1 := Bool.toNat_le h.padded
  rw [maxFrameSize]
  omega

/-- A frame has 576 samples or twice as many, of which 8000 to 48000 pass in a second. -/
theorem clock_bounds {bs : List UInt8} {h : Header} (H : ofBytes? bs = some h) :
    576 ≤ h.samplesPerFrame ∧ h.samplesPerFrame ≤ 1152 ∧
      8000 ≤ h.sampleRate ∧ h.sampleRate ≤ 48000 := by
  obtain ⟨version, checksum, bitrate, sampleRate, padded, mode, rfl, hb, hs⟩ := exists_settings H
  obtain ⟨hlow, hhigh, hrates⟩ := pace_bounds version
  exact ⟨hlow, hhigh, (hrates bitrate hb sampleRate hs).1, (hrates bitrate hb sampleRate hs).2.1⟩

/-- At the lowest bit rate there is one byte to each sample of a channel on average, but for the
factor that the average length is scaled by. -/
theorem samples_le_scaledLength {bs : List UInt8} {h : Header} (H : ofBytes? bs = some h) :
    h.samplesPerFrame * 1000 ≤ h.scaledLength := by
  obtain ⟨version, checksum, bitrate, sampleRate, padded, mode, rfl, hb, hs⟩ := exists_settings H
  obtain ⟨-, -, hrates⟩ := pace_bounds version
  exact Nat.mul_le_mul_right 1000 (hrates bitrate hb sampleRate hs).2.2

/-- The longest frame that a header can announce is attained. -/
example : (ofBytes? [0xFF, 0xFB, 0xEA, 0x00]).map (·.frameSize) = some maxFrameSize := by decide

end MpegAudio.Header
