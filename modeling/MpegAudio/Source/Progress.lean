import MpegAudio.Source

/-!
# Reading uses up the data

Whatever the medium does, a read of `n` bytes that succeeds brings the cursor `n` bytes nearer to
the end of the data, and one that fails does not take it further away.
-/

namespace MpegAudio.Source

private theorem remaining_ask {m m' : Medium} {wanted : Nat} {part : Array UInt8}
    (h : Medium.ask wanted m = .ok part m') :
    m'.remaining + part.size = m.remaining ∧ part.size ≤ wanted := by
  obtain ⟨hc, hd, hle, hp⟩ := Medium.cursor_of_ask h
  have hs := congrArg Array.size hp
  simp only [Array.size_extract] at hs
  simp only [Medium.remaining, hd, hc]
  omega

private theorem remaining_gather (wanted : Nat) (got : Array UInt8) (s : Source) :
    match gather wanted got s with
    | .ok bs s' => s'.remaining + (wanted - got.size) = s.remaining ∧
        (got.size ≤ wanted → bs.length = wanted)
    | .error _ s' => s'.remaining ≤ s.remaining := by
  fun_induction gather wanted got s with
  | case1 got s h =>
    refine ⟨?_, fun _ => ?_⟩
    · simp only [remaining, advance]
      omega
    · simp only [Array.length_toList]
      omega
  | case2 got s h fault medium hr =>
    obtain ⟨hc, hd⟩ := Medium.cursor_of_ask_error hr
    simp [remaining, Medium.remaining, advance, hc, hd]
  | case3 got s h part medium hr h0 =>
    have := remaining_ask hr
    simp only [remaining, advance]
    omega
  | case4 got s h part medium hr h0 ih =>
    have := remaining_ask hr
    simp only [Array.size_append, remaining] at ih
    split at ih <;> simp only [remaining] <;> omega

theorem remaining_readExact {n : Nat} {bs : List UInt8} {s s' : Source}
    (h : readExact n s = .ok bs s') : s'.remaining + n = s.remaining := by
  have := remaining_gather n #[] s
  rw [show gather n #[] s = .ok bs s' from h] at this
  exact this.1

theorem length_readExact {n : Nat} {bs : List UInt8} {s s' : Source}
    (h : readExact n s = .ok bs s') : bs.length = n := by
  have := remaining_gather n #[] s
  rw [show gather n #[] s = .ok bs s' from h] at this
  exact this.2 (Nat.zero_le n)

/-- A read that fails gives nothing back to the medium. -/
theorem remaining_le_of_readExact_error {n : Nat} {fault : Fault} {s s' : Source}
    (h : readExact n s = .error fault s') : s'.remaining ≤ s.remaining := by
  have := remaining_gather n #[] s
  rwa [show gather n #[] s = .error fault s' from h] at this

theorem remaining_readByte? {b : UInt8} {s s' : Source} (h : readByte? s = .ok (some b) s') :
    s'.remaining + 1 = s.remaining := by
  unfold readByte? at h
  split at h
  case h_1 bs t ht =>
    simp only [EStateM.Result.ok.injEq] at h
    exact h.2 ▸ remaining_readExact ht
  case h_2 => split at h <;> simp at h

/-- Asking for a byte gives nothing back to the medium. -/
theorem remaining_le_of_readByte? {r : Option UInt8} {s s' : Source}
    (h : readByte? s = .ok r s') : s'.remaining ≤ s.remaining := by
  unfold readByte? at h
  split at h
  case h_1 bs t ht =>
    simp only [EStateM.Result.ok.injEq] at h
    have := remaining_readExact ht
    rw [← h.2]
    omega
  case h_2 fault t ht =>
    split at h
    · simp only [EStateM.Result.ok.injEq] at h
      exact h.2 ▸ remaining_le_of_readExact_error ht
    · simp at h

end MpegAudio.Source
