import MpegAudio.Source.Progress
import MpegAudio.Synchronizer

/-!
# Finding frames comes to an end

Each frame that is found and let go of uses up data, or was held before. So the frames that can
still come are bounded by `pending`, whatever the medium does.
-/

namespace MpegAudio.Synchronizer

/-- A bound on the frames still to come: the bytes not yet read, and the frame that is held. -/
def pending (s : Synchronizer) : Nat := s.source.remaining + s.held.isSome.toNat

private theorem remaining_onSource_readByte? {r : Option UInt8} {s s' : Synchronizer}
    (h : onSource Source.readByte? s = .ok r s') :
    s'.held = s.held ∧ s'.window = s.window ∧
      s'.source.remaining + r.isSome.toNat ≤ s.source.remaining := by
  unfold onSource at h
  split at h
  case h_1 a source ha =>
    simp only [EStateM.Result.ok.injEq] at h
    obtain ⟨rfl, rfl⟩ := h
    refine ⟨rfl, rfl, ?_⟩
    cases a with
    | none => simpa using Source.remaining_le_of_readByte? ha
    | some b => simpa using Nat.le_of_eq (Source.remaining_readByte? ha)
  case h_2 => simp at h

private theorem remaining_prime {missing : Nat} {r : Bool} {s s' : Synchronizer}
    (h : prime missing s = .ok r s') :
    s'.held = s.held ∧ s'.source.remaining ≤ s.source.remaining := by
  fun_induction prime missing s with
  | case1 s =>
    simp only [EStateM.Result.ok.injEq] at h
    simp [h.2]
  | case2 => simp at h
  | case3 missing s t ht =>
    have ht := remaining_onSource_readByte? ht
    simp only [EStateM.Result.ok.injEq] at h
    rw [← h.2]
    exact ⟨ht.1, by omega⟩
  | case4 missing s b t ht ih =>
    have ht := remaining_onSource_readByte? ht
    have := ih h
    simp only at this
    exact ⟨this.1.trans ht.1, by omega⟩

private theorem remaining_slide {examined budget : Nat} {r : Search} {s s' : Synchronizer}
    (h : slide examined budget s = .ok r s') :
    (r = .found → s'.source.remaining < s.source.remaining) ∧
      (r ≠ .found → s'.held = s.held) := by
  fun_induction slide examined budget s with
  | case1 examined s =>
    simp only [EStateM.Result.ok.injEq] at h
    simp [← h.1, h.2]
  | case2 => simp at h
  | case3 examined budget s t ht =>
    simp only [EStateM.Result.ok.injEq] at h
    simp [← h.1, ← h.2, (remaining_onSource_readByte? ht).1]
  | case4 examined budget s b t ht window header hw =>
    have ht := (remaining_onSource_readByte? ht).2.2
    simp only [Option.isSome_some, Bool.toNat_true] at ht
    simp only [EStateM.Result.ok.injEq] at h
    simp only [← h.1, ← h.2, lock, true_implies, ne_eq, not_true_eq_false, false_implies, and_true]
    omega
  | case5 examined budget s b t ht window hw ih =>
    have ht := remaining_onSource_readByte? ht
    have hi := ih h
    simp only at hi
    exact ⟨fun hr => by have := hi.1 hr; omega, fun hr => (hi.2 hr).trans ht.1⟩

private theorem remaining_search {budget : Nat} {r : Search} {s s' : Synchronizer}
    (h : search budget s = .ok r s') :
    s'.held.isSome → s'.source.remaining < s.source.remaining := by
  unfold search at h
  simp only at h
  split at h
  · simp only [EStateM.Result.ok.injEq] at h
    simp [← h.2]
  · split at h
    · simp at h
    case h_2 t ht =>
      simp only [EStateM.Result.ok.injEq] at h
      simp [← h.2, (remaining_prime ht).1]
    case h_3 t ht =>
      have ht := remaining_prime ht
      have hs := remaining_slide h
      intro hheld
      by_cases hr : r = .found
      · have := hs.1 hr
        simp only at ht
        omega
      · simp [hs.2 hr, ht.1] at hheld

private theorem remaining_complete {f : Held} {s s' : Synchronizer}
    (h : complete f s = .ok true s') : s'.source.remaining ≤ s.source.remaining := by
  unfold complete at h
  split at h
  case h_1 rest source hr =>
    simp only [EStateM.Result.ok.injEq, true_and] at h
    have := Source.remaining_readExact hr
    rw [← h]
    simp only
    omega
  case h_2 => split at h <;> simp at h

/-- Letting go of a frame that was filled leaves fewer frames to come. -/
theorem pending_release_lt_of_fill {s s' : Synchronizer} (h : fill s = .ok true s') :
    s'.release.pending < s.pending := by
  unfold fill at h
  split at h
  case h_1 f hs =>
    have := remaining_complete h
    simp only [pending, release, hs, Option.isSome_some, Option.isSome_none, Bool.toNat_true,
      Bool.toNat_false]
    omega
  case h_2 hs =>
    split at h
    · simp at h
    case h_2 r t ht =>
      split at h
      · simp at h
      case h_2 f hf =>
        have := remaining_complete h
        have := remaining_search ht (by simp [hf])
        simp only [pending, release, hs, Option.isSome_none, Bool.toNat_false]
        omega

end MpegAudio.Synchronizer
