import MpegAudio.Proofs.Locator.Choice
import MpegAudio.Proofs.Locator.Surplus
import MpegAudio.Proofs.Timecode.Words

/-!
# Seeking in words

A position is a word of 64 bits, and so is the length that a stream is said to have, rightly or not.
Both ways to find times compute with such words and with products in words of 128 bits. As for times,
the computations are written down once more with a check of every result. None is given up: so no
product is too large, and where the two ways would stop at the ceiling, they never have to.

It follows how far a seek can go. At a constant rate it leads to a place inside the stream, if there
is a frame at all. With a summary it leads to the audio bytes, or right behind them, whatever the
table says and whatever number comes out of the interpolation in it: that number may be negative, be
no number at all, or lie beyond all words.
-/

namespace MpegAudio

open Header

variable {bs frame : List UInt8} {h : Header} {start length t : Nat}

namespace Header

theorem scaledLength_lt (H : ofBytes? bs = some h) : h.scaledLength < 2 ^ 32 := by
  have hlong := (scaledLength_bounds H).2
  obtain ⟨-, -, -, hfast⟩ := clock_bounds H
  calc h.scaledLength
      < (1440 + 1) * h.sampleRate :=
        (Nat.div_lt_iff_lt_mul (sampleRate_pos H)).mp (Nat.lt_succ_of_le hlong)
    _ ≤ 1441 * 48000 := Nat.mul_le_mul_left _ hfast
    _ < 2 ^ 32 := by decide

theorem clock_lt (H : ofBytes? bs = some h) :
    h.clock.samplesPerFrame < 2 ^ 32 ∧ h.clock.sampleRate < 2 ^ 32 := by
  obtain ⟨-, hlong, -, hfast⟩ := clock_bounds H
  exact ⟨Nat.lt_of_le_of_lt hlong (by decide), Nat.lt_of_le_of_lt hfast (by decide)⟩

end Header

namespace ConstantRate

/-- The frames of a stream, with both products and the number of frames in words. -/
def ofHeader? (start length : Nat) (header : Header) : Option ConstantRate := do
  let scaledLength ← word? 64 header.scaledLength
  let room ← word? 128 (length - start + 1)
  let scaled ← word? 128 (room * header.sampleRate)
  let frameCount ← word? 64 (scaled / max scaledLength 1)
  some
    { start := start
      scaledLength := max scaledLength 1
      frameCount := frameCount
      clock := header.clock }

/-- The frame playing at a millisecond and its place, with the product, the offset and the place in
words. -/
def target? (c : ConstantRate) (t : Nat) : Option Target := do
  let playing ← c.clock.frameAt? t
  let frame := min playing (c.frameCount - 1)
  let scaled ← word? 128 (frame * c.scaledLength)
  let offset ← word? 64 (scaled / max c.clock.sampleRate 1)
  let position ← word? 64 (c.start + offset)
  some ⟨frame, position⟩

/-- Nothing is given up when the frames are counted. -/
theorem ofHeader?_eq (H : ofBytes? bs = some h) (hlength : length ≤ ceiling) :
    ofHeader? start length h = some (ofHeader start length h) := by
  have hscaled := scaledLength_lt H
  have hrate := (clock_lt H).2
  have hroom : length - start + 1 ≤ 2 ^ 64 := by
    have := lt_two_pow_of_le_ceiling hlength
    omega
  have hproduct : (length - start + 1) * h.sampleRate ≤ 2 ^ 64 * 2 ^ 32 :=
    Nat.mul_le_mul hroom hrate.le
  have hcount : (length - start + 1) * h.sampleRate / max h.scaledLength 1 ≤ ceiling := by
    rw [max_scaledLength H, ← frameCount_eq H hlength]
    exact saturate_le_ceiling _
  rw [ofHeader?, word?_bind (by omega), word?_bind (by omega), word?_bind (by omega),
    word?_bind (lt_two_pow_of_le_ceiling hcount), ofHeader, saturate_of_le hcount]

theorem frameAt_lt (c : ConstantRate) (t : Nat) : c.frameAt t < max c.frameCount 1 := by
  rw [frameAt]
  omega

theorem place_le_ceiling (H : ofBytes? bs = some h) (hstart : start ≤ ceiling)
    (hlength : length ≤ ceiling) {i : Nat}
    (hi : i < max (ofHeader start length h).frameCount 1) : start + h.lowOffset i ≤ ceiling := by
  by_cases hcount : i < (ofHeader start length h).frameCount
  · exact Nat.le_trans (place_add_le H hlength hcount).2.le hlength
  · -- No frame is counted, and the first one starts where it starts.
    have hzero : i = 0 := by omega
    rw [hzero, lowOffset, Nat.zero_mul, Nat.zero_div]
    exact hstart

/-- Nothing is given up when a time is sought, and nothing stops at the ceiling. -/
theorem target?_eq (H : ofBytes? bs = some h) (hstart : start ≤ ceiling) (hlength : length ≤ ceiling)
    (ht : t ≤ ceiling) :
    (ofHeader start length h).target? t =
      some ⟨(ofHeader start length h).frameAt t,
        start + h.lowOffset ((ofHeader start length h).frameAt t)⟩ := by
  have hplaying : h.clock.frameAt? t = some (h.clock.frameAt t) :=
    Clock.frameAt?_eq (clock_lt H).1 (clock_lt H).2 ht
  have hframe : (ofHeader start length h).frameAt t ≤ ceiling :=
    Nat.le_trans (Nat.min_le_left _ _) (Clock.frameAt_le_ceiling _ _)
  have hproduct : (ofHeader start length h).frameAt t * h.scaledLength ≤ 2 ^ 64 * 2 ^ 32 :=
    Nat.mul_le_mul (lt_two_pow_of_le_ceiling hframe).le (scaledLength_lt H).le
  have hplace := place_le_ceiling H hstart hlength (frameAt_lt (ofHeader start length h) t)
  have hoffset : h.lowOffset ((ofHeader start length h).frameAt t) ≤ ceiling := by omega
  rw [target?, start_ofHeader, clock_ofHeader, scaledLength_ofHeader H, hplaying]
  show (word? 128 ((ofHeader start length h).frameAt t * h.scaledLength) >>= _) = _
  rw [word?_bind (by omega), div_clock_sampleRate H,
    word?_bind (lt_two_pow_of_le_ceiling hoffset), word?_bind (lt_two_pow_of_le_ceiling hplace)]
  rfl

/-- The same place is found where numbers have no bound. -/
theorem locator_target? (H : ofBytes? bs = some h) (hstart : start ≤ ceiling)
    (hlength : length ≤ ceiling) (t : Nat) :
    (Locator.constantRate (ofHeader start length h)).target? t =
      some ⟨(ofHeader start length h).frameAt t,
        start + h.lowOffset ((ofHeader start length h).frameAt t)⟩ := by
  have hplace := place_le_ceiling H hstart hlength (frameAt_lt (ofHeader start length h) t)
  rw [← position_ofHeader H hplace]
  rfl

end ConstantRate

namespace Summary

variable {s : Summary}

/-- The number that the interpolation comes to at a millisecond, before it is cut to whole bytes. -/
def interpolated (s : Summary) (millis : Nat) : Float :=
  interpolate s.table (s.percent millis) * s.dataSize.toUInt64.toFloat / 256.0

/-- The place that any number in its stead leads to. -/
def placeVia (s : Summary) (value : Float) : Nat :=
  if s.length = 0 then s.dataStart else s.dataStart + min value.toUInt64.toNat s.dataSize

/-- The frame playing at a millisecond and its place, with every result in a word and with any
number in place of the one that the interpolation comes to. There has to be a frame. -/
def targetVia? (s : Summary) (value : Nat → Float) (t : Nat) : Option Target := do
  let playing ← s.clock.frameAt? t
  guard (1 ≤ s.frameCount)
  let frame := min playing (s.frameCount - 1)
  let millis ← s.clock.timecode? frame
  let length ← s.clock.timecode? s.frameCount
  if length = 0 then some ⟨frame, s.dataStart⟩
  else
    let position ← word? 64 (s.dataStart + min (value millis).toUInt64.toNat s.dataSize)
    some ⟨frame, position⟩

/-- No number leads out of the audio bytes. -/
theorem placeVia_bounds (s : Summary) (value : Float) :
    s.dataStart ≤ s.placeVia value ∧ s.placeVia value ≤ s.dataStart + s.dataSize := by
  rw [placeVia]
  split <;> omega

/-- A summary counts at least one frame, and no more bytes of audio than it says or the stream
has. -/
theorem bounds_of_ofFrame? (H : ofFrame? start length h frame = some s) :
    1 ≤ s.frameCount ∧
      (∃ bytes, Bytes.number? frame (h.sideInfoEnd + 12) = some bytes ∧ s.dataSize ≤ bytes) ∧
      s.dataStart + s.dataSize ≤ max length s.dataStart := by
  obtain ⟨_, _, count, bytes, _, -, -, -, -, -, hbytes, -, hcount, rfl⟩ :=
    ofFrame?_eq_some_iff.mp H
  refine ⟨Nat.pos_of_ne_zero hcount, ⟨bytes, hbytes, Nat.min_le_left _ _⟩, ?_⟩
  show start + h.frameSize + min bytes (length - (start + h.frameSize)) ≤
    max length (start + h.frameSize)
  omega

/-- **Nothing is given up when a time is sought**, whatever the interpolation comes to. -/
theorem targetVia?_eq (Hh : ofBytes? bs = some h) (H : ofFrame? start length h frame = some s)
    (hend : s.dataStart + s.dataSize ≤ ceiling) (ht : t ≤ ceiling) (value : Nat → Float) :
    s.targetVia? value t =
      some ⟨s.frameAt t, s.placeVia (value (s.clock.timecode (s.frameAt t)))⟩ := by
  obtain ⟨hsamples, hrate⟩ := clock_lt Hh
  rw [← clock_eq H] at hsamples hrate
  have hfew := frameCount_lt H
  have hcount : s.frameCount ≤ ceiling := Nat.le_trans hfew.le (by decide)
  have hframe : s.frameAt t ≤ ceiling :=
    Nat.le_trans (Nat.min_le_left _ _) (Clock.frameAt_le_ceiling _ _)
  have hplace := placeVia_bounds s (value (s.clock.timecode (s.frameAt t)))
  rw [targetVia?, Clock.frameAt?_eq hsamples hrate ht, guard, if_pos (bounds_of_ofFrame? H).1]
  show (s.clock.timecode? (s.frameAt t) >>= _) = _
  rw [Clock.timecode?_eq hsamples hframe]
  show (s.clock.timecode? s.frameCount >>= _) = _
  rw [Clock.timecode?_eq hsamples hcount]
  show (if s.length = 0 then _ else _) = _
  rw [placeVia] at hplace ⊢
  split
  · rfl
  · rename_i hlong
    rw [if_neg hlong] at hplace
    rw [word?_bind (lt_two_pow_of_le_ceiling (by omega))]
    rfl

end Summary

/-- **No result leaves its word, and no seek leaves the content.** This holds for every header, for
every start and every length in words of 64 bits, whether the stream is that long or not, and for
every time.

At a constant rate, counting and seeking in words give up nothing and stop nowhere. The place of the
frame is its offset behind the first one, rounded down, and lies inside the stream as soon as one
frame is counted.

A summary counts at least one frame. Its audio bytes begin behind the frame that holds it, are no
more than it says, and end with the stream unless they begin behind it. A seek leads to them or
right behind them, and gives up nothing, for every table and whatever the interpolation in it comes
to. -/
theorem Locator.target_in_range (H : ofBytes? bs = some h) (hstart : start + h.frameSize ≤ ceiling)
    (hlength : length ≤ ceiling) :
    (let c := ConstantRate.ofHeader start length h
     ConstantRate.ofHeader? start length h = some c ∧
      c.clock.timecode? c.frameCount = some c.length ∧
      ∀ t ≤ ceiling, ∃ i < max c.frameCount 1,
        (constantRate c).target? t = some ⟨i, start + h.lowOffset i⟩ ∧
          c.target? t = some ⟨i, start + h.lowOffset i⟩ ∧
          (1 ≤ c.frameCount → start + h.lowOffset i < length)) ∧
      ∀ frame s, Summary.ofFrame? start length h frame = some s →
        1 ≤ s.frameCount ∧ s.dataStart = start + h.frameSize ∧
          (∃ bytes, Bytes.number? frame (h.sideInfoEnd + 12) = some bytes ∧ s.dataSize ≤ bytes) ∧
          s.dataStart + s.dataSize ≤ max length s.dataStart ∧
          ∀ t ≤ ceiling, (summary s).target? t = s.targetVia? s.interpolated t ∧
            ∀ value, ∃ target, s.targetVia? value t = some target ∧ target.frame < s.frameCount ∧
              s.dataStart ≤ target.position ∧ target.position ≤ s.dataStart + s.dataSize := by
  constructor
  · intro c
    have hpos : start ≤ ceiling := by omega
    have hcount : c.frameCount ≤ ceiling := saturate_le_ceiling _
    refine ⟨ConstantRate.ofHeader?_eq H hlength, Clock.timecode?_eq (clock_lt H).1 hcount, ?_⟩
    intro t ht
    refine ⟨c.frameAt t, c.frameAt_lt t, ConstantRate.locator_target? H hpos hlength t,
      ConstantRate.target?_eq H hpos hlength ht, ?_⟩
    intro hone
    have hframe := c.frameAt_lt t
    have hcounted : c.frameAt t < c.frameCount := by omega
    exact (ConstantRate.place_add_le H hlength hcounted).2
  · intro frame s hs
    obtain ⟨hone, hbytes, hend⟩ := Summary.bounds_of_ofFrame? hs
    have hdata := Summary.dataStart_eq hs
    have hceiling : s.dataStart + s.dataSize ≤ ceiling := by omega
    refine ⟨hone, hdata, hbytes, hend, ?_⟩
    intro t ht
    have htarget := Summary.targetVia?_eq H hs hceiling ht
    refine ⟨(htarget s.interpolated).symm, ?_⟩
    intro value
    refine ⟨_, htarget value, ?_, Summary.placeVia_bounds s _⟩
    show min _ (s.frameCount - 1) < s.frameCount
    omega

/-- The only frame of a stream ends at the last position there is. It can hold a summary of ten
frames with a table that decreases, and announce four gigabytes of audio behind itself. Without the
summary a seek leads to the frame, and with it no further than to its end. -/
theorem Locator.target_in_range_last :
    let h := ofSettings .mpeg1 false 128 48000 false .stereo
    let start := ceiling - 384
    let frame := [0xFF, 0xFB, 0x94, 0x00] ++ List.replicate 32 0 ++
      [0x58, 0x69, 0x6E, 0x67, 0, 0, 0, 7, 0, 0, 0, 10, 0xFF, 0xFF, 0xFF, 0xFF] ++
      (List.range 100).map fun i => UInt8.ofNat (255 - i)
    (∀ t ≤ ceiling, (ConstantRate.ofHeader start ceiling h).target? t = some ⟨0, start⟩ ∧
        start < ceiling) ∧
      ∃ s, Summary.ofFrame? start ceiling h frame = some s ∧
        ∀ t ≤ ceiling, ∀ value, ∃ target, s.targetVia? value t = some target ∧
          target.frame < s.frameCount ∧ target.position = ceiling := by
  intro h start frame
  have H : ofBytes? [0xFF, 0xFB, 0x94, 0x00] = some h := by decide
  have hend : start + h.frameSize = ceiling := by decide
  obtain ⟨⟨-, -, hconstant⟩, hsummary⟩ := target_in_range H hend.le (Nat.le_refl ceiling)
  constructor
  · intro t ht
    obtain ⟨i, hi, -, htarget, hinside⟩ := hconstant t ht
    have hcount : (ConstantRate.ofHeader start ceiling h).frameCount = 1 := by decide
    have hoffset : h.lowOffset 0 = 0 := by decide
    rw [hcount] at hi hinside
    have hzero : i = 0 := by omega
    rw [hzero, hoffset, Nat.add_zero] at htarget hinside
    exact ⟨htarget, hinside le_rfl⟩
  · have hsome : (Summary.ofFrame? start ceiling h frame).isSome = true := by decide
    obtain ⟨s, hs⟩ := Option.isSome_iff_exists.mp hsome
    obtain ⟨-, hdata, -, hbound, htargets⟩ := hsummary frame s hs
    refine ⟨s, hs, fun t ht value => ?_⟩
    obtain ⟨target, htarget, hframe, hlow, hhigh⟩ := (htargets t ht).2 value
    exact ⟨target, htarget, hframe, by omega⟩

end MpegAudio
