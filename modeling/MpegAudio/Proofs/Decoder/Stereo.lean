import MpegAudio.Decoder.Stereo

/-!
# What a stereo adapter writes

Interleaved samples come in groups, one sample of each channel, and a pair is made of each group
while the number of frames, the samples and the room in the buffer last. What is left over at any of
the three ends counts for nothing: frames without samples, samples that are no whole group, and a
single place at the end of the buffer. Everything behind the last pair stays as it was.

## Main definitions

* `pairCount samples channels n` — the pairs that there are samples and room for.
* `sourceOf channels i` — the place of the sample that goes to place `i` of the buffer.
* `fst_writePairs`, `getElem_writePairs` — how many pairs the loop writes, and what stands where.
* `toStereo_copies` — the pairs written, sample by sample, and the rest of the buffer.
* `Stereo.decode_within` — a decoder claims the pairs that it wrote and no others.
-/

namespace MpegAudio

variable {n channels k : Nat}

/-- The pairs for which there are a whole group of samples and room in a buffer of `n`. -/
def pairCount (samples : Array Int16) (channels n : Nat) : Nat :=
  min (samples.size / channels) (n / 2)

/-- The place among the samples from which place `i` of the stereo part is taken: of group `i / 2`
the first sample or, where there is one, the second. -/
def sourceOf (channels i : Nat) : Nat :=
  i / 2 * channels + if 1 < channels then i % 2 else 0

variable {samples : Array Int16}

/-- There is a pair to write until so many have been written. -/
theorem lt_pairCount_iff (hchannels : 0 < channels) :
    k < pairCount samples channels n ↔ (k + 1) * channels ≤ samples.size ∧ 2 * k + 1 < n := by
  have hroom : k < n / 2 ↔ 2 * k + 1 < n := by omega
  rw [pairCount, Nat.lt_min, hroom, ← Nat.succ_le_iff, Nat.le_div_iff_mul_le hchannels]

/-- The loop goes on until the frames, the samples or the room come to an end. -/
theorem fst_writePairs (hchannels : 0 < channels) (frames k : Nat) (output : Vector Int16 n)
    (hk : k ≤ pairCount samples channels n) :
    (writePairs samples channels frames k output).1 =
      min (k + frames) (pairCount samples channels n) := by
  fun_induction writePairs samples channels frames k output with
  | case1 k output => omega
  | case2 frames k output h left right ih =>
      have hlt := (lt_pairCount_iff hchannels).mpr h
      rw [ih hlt]
      omega
  | case3 frames k output h =>
      have hge : ¬ k < pairCount samples channels n :=
        fun hlt => h ((lt_pairCount_iff hchannels).mp hlt)
      omega

theorem le_fst_writePairs (samples : Array Int16) (channels frames k : Nat)
    (output : Vector Int16 n) :
    k ≤ (writePairs samples channels frames k output).1 := by
  fun_induction writePairs samples channels frames k output with
  | case1 k output => exact Nat.le_refl k
  | case2 frames k output h left right ih => omega
  | case3 frames k output h => exact Nat.le_refl k

theorem sourceOf_left (channels k : Nat) : sourceOf channels (2 * k) = k * channels := by
  rw [sourceOf, Nat.mul_div_cancel_left k (by decide), Nat.mul_mod_right, ite_self, Nat.add_zero]

theorem sourceOf_right (channels k : Nat) :
    sourceOf channels (2 * k + 1) = k * channels + if 1 < channels then 1 else 0 := by
  have hgroup : (2 * k + 1) / 2 = k := by omega
  have hside : (2 * k + 1) % 2 = 1 := by omega
  rw [sourceOf, hgroup, hside]

/-- What stands where behind the loop: the stereo part of the samples from the first pair written up
to the last, and what was there before everywhere else. -/
theorem getElem_writePairs (samples : Array Int16) (channels frames k : Nat)
    (output : Vector Int16 n) {i : Nat} (hi : i < n) :
    (writePairs samples channels frames k output).2[i] =
      if 2 * k ≤ i ∧ i < 2 * (writePairs samples channels frames k output).1 then
        samples.getD (sourceOf channels i) 0
      else output[i] := by
  fun_induction writePairs samples channels frames k output with
  | case1 k output => rw [if_neg (by omega)]
  | case2 frames k output h left right ih =>
      have hwritten := le_fst_writePairs samples channels frames (k + 1)
        ((output.set (2 * k) left).set (2 * k + 1) right)
      rw [ih]
      by_cases hleft : i = 2 * k
      · subst hleft
        rw [if_neg (by omega), if_pos (by omega), Vector.getElem_set_ne _ _ (by omega),
          Vector.getElem_set_self, sourceOf_left]
      by_cases hright : i = 2 * k + 1
      · subst hright
        rw [if_neg (by omega), if_pos (by omega), Vector.getElem_set_self, sourceOf_right]
        by_cases hmany : 1 < channels
        · simp only [right, if_pos hmany]
        · simp only [right, left, if_neg hmany, Nat.add_zero]
      · have hother : ((output.set (2 * k) left).set (2 * k + 1) right)[i] = output[i] := by
          rw [Vector.getElem_set_ne _ _ (by omega), Vector.getElem_set_ne _ _ (by omega)]
        have hrange : (2 * (k + 1) ≤ i ↔ 2 * k ≤ i) := by omega
        simp only [hother, hrange]
  | case3 frames k output h => rw [if_neg (by omega)]

theorem sourceOf_lt (hchannels : 0 < channels) {i : Nat}
    (hi : i < 2 * pairCount samples channels n) : sourceOf channels i < samples.size := by
  have hlt : i / 2 < pairCount samples channels n := by omega
  obtain ⟨hgroup, -⟩ := (lt_pairCount_iff hchannels).mp hlt
  have hside : (if 1 < channels then i % 2 else 0) < channels := by
    split
    · omega
    · exact hchannels
  rw [Nat.succ_mul] at hgroup
  rw [sourceOf]
  omega

/-- **A stereo adapter copies the stereo part and nothing else.** It writes as many pairs as there
are frames, whole groups of samples and pairs of places in the buffer, whichever are fewest. The two
samples of a pair are the first two of its group, or the only one twice, and what stands behind the
last pair stays. -/
theorem toStereo_copies (samples : Array Int16) (hchannels : 1 ≤ channels) (frames : Nat)
    (output : Vector Int16 n) :
    let w := min frames (min (samples.size / channels) (n / 2))
    let written := (toStereo samples channels frames output).2
    (toStereo samples channels frames output).1 = w ∧
      (∀ k < w, 2 * k + 1 < n ∧ written[2 * k]? = samples[k * channels]? ∧
        written[2 * k + 1]? =
          if 1 < channels then samples[k * channels + 1]? else samples[k * channels]?) ∧
      ∀ i (hi : i < n), 2 * w ≤ i → written[i] = output[i] := by
  intro w written
  have hcount : (toStereo samples channels frames output).1 = w := by
    rw [toStereo, fst_writePairs hchannels frames 0 output (Nat.zero_le _), Nat.zero_add]
    rfl
  have hat : ∀ i (hi : i < n), written[i] =
      if i < 2 * w then samples.getD (sourceOf channels i) 0 else output[i] := by
    intro i hi
    have key := getElem_writePairs samples channels frames 0 output hi
    simp only [Nat.mul_zero, Nat.zero_le, true_and] at key
    rw [← hcount]
    exact key
  -- Inside the pairs nothing is made up: the samples are there.
  have hcopied : ∀ i, i < n → i < 2 * w → written[i]? = samples[sourceOf channels i]? := by
    intro i hi hlt
    have hsource : sourceOf channels i < samples.size :=
      sourceOf_lt (n := n) hchannels (by rw [pairCount]; omega)
    rw [Vector.getElem?_eq_getElem hi, hat i hi, if_pos hlt, Array.getD_eq_getD_getElem?,
      Array.getElem?_eq_getElem hsource, Option.getD_some]
  refine ⟨hcount, ?_, ?_⟩
  · intro k hk
    have hroom : 2 * k + 1 < n := by omega
    refine ⟨hroom, ?_, ?_⟩
    · rw [hcopied _ (by omega) (by omega), sourceOf_left]
    · rw [hcopied _ hroom (by omega), sourceOf_right]
      split
      · rfl
      · rw [Nat.add_zero]
  · intro i hi hle
    rw [hat i hi, if_neg (by omega)]

/-- Two groups of three samples and a seventh sample, for a buffer of five: the third channel, the
seventh sample and the fifth place are left out. -/
theorem toStereo_copies_three :
    let samples : Array Int16 := #[1, 2, 9, 3, 4, 9, 5]
    let result := toStereo samples 3 5 (Vector.replicate 5 7)
    result.1 = 2 ∧ result.2[0]? = some 1 ∧ result.2[1]? = some 2 ∧ result.2[2]? = some 3 ∧
      result.2[3]? = some 4 ∧ result.2[4] = 7 := by
  intro samples result
  obtain ⟨hcount, hpairs, hrest⟩ :=
    toStereo_copies samples (show 1 ≤ 3 by decide) 5 (Vector.replicate 5 7)
  obtain ⟨-, hzero, hone⟩ := hpairs 0 (by decide)
  obtain ⟨-, htwo, hthree⟩ := hpairs 1 (by decide)
  have hw : min 5 (min (7 / 3) (5 / 2)) = 2 := by decide
  exact ⟨hcount.trans hw, hzero, hone, htwo, hthree, hrest 4 (by decide) (by decide)⟩

namespace Stereo

variable {κ : Type} [Codec κ]

/-- A decoder made of a codec claims the pairs that it wrote, which the buffer had room for, and
leaves what stands behind them. Of a frame that the codec rejects it writes nothing. -/
theorem decode_within (s : Stereo κ) (frame : List UInt8) (output : Vector Int16 n) :
    2 * (s.decode frame output).count ≤ n ∧
      ∀ i (hi : i < n), 2 * (s.decode frame output).count ≤ i →
        (s.decode frame output).output[i] = output[i] := by
  rw [decode]
  rcases hdecode : Codec.decode s.codec frame with ⟨_ | pcm, codec⟩
  · exact ⟨Nat.zero_le n, fun i hi _ => rfl⟩
  · have hchannels : 0 < max pcm.channels 1 := Nat.lt_of_lt_of_le Nat.one_pos (Nat.le_max_right _ _)
    have hcount := fst_writePairs hchannels pcm.frames 0 output
      (Nat.zero_le (pairCount pcm.samples (max pcm.channels 1) n))
    refine ⟨?_, fun i hi hle => ?_⟩
    · simp only [toStereo, hcount, pairCount]
      omega
    · simp only [toStereo] at hle ⊢
      rw [getElem_writePairs, if_neg (by omega)]

end Stereo

end MpegAudio
