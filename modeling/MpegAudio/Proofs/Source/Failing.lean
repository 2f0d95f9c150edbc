import MpegAudio.Proofs.Source.Outcomes

/-!
# Sources over any medium

A medium may refuse any read and any seek, and in between give as few bytes as it likes. A source
over it still knows where it stands: what a read returns is the stretch at the position, and a read
that fails has moved over the bytes that it was given and lost. So however often reading fails, the
position and the cursor never part.
-/

namespace MpegAudio

open Bytes

namespace Source

/-- The source stands at `pos` in `data`. -/
structure On (s : Source) (data : List UInt8) (pos : Nat) : Prop where
  data_eq : s.medium.data.toList = data
  cursor_eq : s.medium.cursor = pos
  position_eq : s.position = pos

variable {s s' : Source} {data : List UInt8} {pos : Nat}

theorem on_ofMedium (m : Medium) (length : Option Nat) :
    (ofMedium m length).On m.data.toList m.cursor :=
  ⟨rfl, rfl, rfl⟩

/-- A call leaves the source in the same data, where it has gone. -/
theorem Moved.on {refusals seeks : Nat} (H : s.Moved s' refusals seeks pos) :
    s'.On s.medium.data.toList pos :=
  ⟨congrArg Array.toList H.data_eq, H.cursor_eq, H.position_eq⟩

/-- A read returns the stretch at the position and moves behind it, or fails on the way and has
moved over the bytes that were there. -/
theorem readExact_on (H : s.On data pos) (n : Nat) :
    match readExact n s with
    | .ok bs s' => bs = slice data pos n ∧ bs.length = n ∧ s'.On data (pos + n)
    | .error _ s' => ∃ k < n, k ≤ data.length - pos ∧ s'.On data (pos + k) := by
  obtain ⟨rfl, hcursor, rfl⟩ := H
  have hread := reads_readExact hcursor n
  generalize readExact n s = x at hread ⊢
  cases hread with
  | nothing hn moved =>
      subst hn
      exact ⟨(slice_zero _ _).symm, rfl, moved.on⟩
  | whole hn fits passes moved =>
      refine ⟨rfl, length_slice_of_le ?_, moved.on⟩
      rwa [Array.length_toList]
  | ends hn beyond passes moved =>
      refine ⟨max s.position s.medium.data.size - s.position, by omega, ?_, ?_⟩
      · rw [Array.length_toList]
        omega
      · rw [Nat.add_sub_cancel' (Nat.le_max_left _ _)]
        exact moved.on
  | refused f behind inside reached passes refuses moved =>
      refine ⟨f - s.position, by omega, ?_, ?_⟩
      · rw [Array.length_toList]
        omega
      · rw [Nat.add_sub_cancel' behind]
        exact moved.on

theorem readByte?_on (H : s.On data pos) :
    match readByte? s with
    | .ok (some b) s' => slice data pos 1 = [b] ∧ s'.On data (pos + 1)
    | .ok none s' => s'.On data pos
    | .error _ s' => s'.On data pos := by
  obtain ⟨rfl, hcursor, rfl⟩ := H
  have hread := readsByte_readByte? hcursor
  generalize readByte? s = x at hread ⊢
  cases hread with
  | byte h moved =>
      have hinside : s.position < s.medium.data.toList.length := by rwa [Array.length_toList]
      exact ⟨slice_one hinside, moved.on⟩
  | ends h moved => exact moved.on
  | @refused s' fault refuses moved =>
      by_cases hend : fault.IsEnd
      · simp only [if_pos hend]
        exact moved.on
      · simp only [if_neg hend]
        exact moved.on

theorem seek_on (H : s.On data pos) (target : Nat) :
    match seek target s with
    | .ok () s' => s'.On data target
    | .error _ s' => s'.On data pos := by
  obtain ⟨rfl, hcursor, rfl⟩ := H
  have hseek := seeks_seek hcursor target
  generalize seek target s = x at hseek ⊢
  cases hseek with
  | granted h moved => exact moved.on
  | refused h moved => exact moved.on

end Source

end MpegAudio
