import MpegAudio.Proofs.Source.Coupled
import MpegAudio.Synchronizer

/-!
# Two readers of frames side by side

A reader of frames looks at its source, its window and the frame that it holds. Where the frame
found last starts matters only while that frame is held: it is noted anew with each header that is
found. So two readers over coupled sources that agree in this much find the same frames, and go on
agreeing.
-/

namespace MpegAudio.Synchronizer

open Header

/-- The readers agree in all that decides what they find, over related sources. -/
structure Coupled (R : Source → Source → Prop) (s t : Synchronizer) : Prop where
  source : R s.source t.source
  window_eq : t.window = s.window
  held_eq : t.held = s.held
  frameStart_eq : s.held.isSome → t.frameStart = s.frameStart

variable {R : Source → Source → Prop} {s t : Synchronizer}

theorem coupled_release (h : R s.source t.source) : Coupled R s.release t.release :=
  ⟨h, rfl, rfl, nofun⟩

theorem coupled_giveBack (h : Coupled R s t) (bs : List UInt8) :
    Coupled R (s.giveBack bs) (t.giveBack bs) := by
  induction bs generalizing s t with
  | nil => exact h
  | cons b bs ih =>
      apply ih
      refine ⟨h.source, ?_, h.held_eq, h.frameStart_eq⟩
      simp only [giveBackByte, h.window_eq]

theorem onSource_coupled {α : Type} {act : Source.Action α} (h : Coupled R s t)
    (hact : Matched R (act s.source) (act t.source)) :
    Matched (Coupled R) (onSource act s) (onSource act t) := by
  rw [onSource, onSource]
  obtain ⟨a, s', t', hs, ht, h'⟩ | ⟨e, s', t', hs, ht, h'⟩ := hact
  · simp only [hs, ht]
    exact .ok a ⟨h', h.window_eq, h.held_eq, h.frameStart_eq⟩
  · simp only [hs, ht]
    exact .error e ⟨h', h.window_eq, h.held_eq, h.frameStart_eq⟩

variable (H : Source.Coupling R)

include H

theorem prime_coupled (missing : Nat) :
    ∀ s t, Coupled R s t → Matched (Coupled R) (prime missing s) (prime missing t) := by
  induction missing with
  | zero =>
      intro s t h
      exact .ok true h
  | succ missing ih =>
      intro s t h
      rw [prime, prime]
      obtain ⟨r, s', t', hs, ht, h'⟩ | ⟨fault, s', t', hs, ht, h'⟩ :=
        onSource_coupled h (H.readByte? h.source)
      · simp only [hs, ht]
        rcases r with _ | b
        · exact .ok false h'
        · apply ih
          exact ⟨h'.source, congrArg (· ++ [b]) h'.window_eq, h'.held_eq, h'.frameStart_eq⟩
      · simp only [hs, ht]
        exact .error fault h'

theorem slide_coupled (budget : Nat) :
    ∀ examined s t, Coupled R s t →
      Matched (Coupled R) (slide examined budget s) (slide examined budget t) := by
  induction budget with
  | zero =>
      intro examined s t h
      exact .ok _ h
  | succ budget ih =>
      intro examined s t h
      rw [slide, slide]
      obtain ⟨r, s', t', hs, ht, h'⟩ | ⟨fault, s', t', hs, ht, h'⟩ :=
        onSource_coupled h (H.readByte? h.source)
      · simp only [hs, ht]
        rcases r with _ | b
        · exact .ok _ h'
        · simp only [h'.window_eq]
          rcases ofBytes? (slid s'.window b) with _ | header
          · apply ih
            exact ⟨h'.source, rfl, h'.held_eq, h'.frameStart_eq⟩
          · -- The start is noted from the position, which is the same.
            refine .ok _ ⟨h'.source, rfl, rfl, fun _ => ?_⟩
            simp only [lock, H.position_eq h'.source]
      · simp only [hs, ht]
        exact .error fault h'

theorem search_coupled (h : Coupled R s t) (budget : Nat) :
    Matched (Coupled R) (search budget s) (search budget t) := by
  have h₀ : Coupled R { s with held := none } { t with held := none } :=
    ⟨h.source, h.window_eq, rfl, nofun⟩
  rw [search, search]
  by_cases hbudget : budget = 0
  · simp only [if_pos hbudget]
    exact .ok _ h₀
  · have hmissing : 3 - t.window.length = 3 - s.window.length := by rw [h.window_eq]
    simp only [if_neg hbudget, hmissing]
    obtain ⟨full, s', t', hs, ht, h'⟩ | ⟨fault, s', t', hs, ht, h'⟩ :=
      prime_coupled H (3 - s.window.length) _ _ h₀
    · simp only [hs, ht]
      cases full with
      | false => exact .ok _ h'
      | true => exact slide_coupled H budget 0 s' t' h'
    · simp only [hs, ht]
      exact .error fault h'

theorem require_coupled (h : Coupled R s t) (budget : Nat) :
    Matched (Coupled R) (require budget s) (require budget t) := by
  rw [require, require]
  obtain ⟨r, s', t', hs, ht, h'⟩ | ⟨fault, s', t', hs, ht, h'⟩ := search_coupled H h budget
  · simp only [hs, ht]
    cases r with
    | found => exact .ok () h'
    | missed examined => exact .error _ h'
  · simp only [hs, ht]
    exact .error _ h'

theorem complete_coupled {f : Held} (hheld : s.held = some f) (h : Coupled R s t) :
    Matched (Coupled R) (complete f s) (complete f t) := by
  have hstart : t.frameStart = s.frameStart := h.frameStart_eq (by rw [hheld]; rfl)
  rw [complete, complete]
  obtain ⟨rest, s', t', hs, ht, h'⟩ | ⟨fault, s', t', hs, ht, h'⟩ :=
    H.readExact h.source (f.header.frameSize - f.bytes.length)
  · simp only [hs, ht]
    exact .ok true ⟨h', h.window_eq, rfl, fun _ => hstart⟩
  · simp only [hs, ht]
    split
    · exact .ok false ⟨h', h.window_eq, h.held_eq, h.frameStart_eq⟩
    · exact .error fault ⟨h', h.window_eq, h.held_eq, h.frameStart_eq⟩

omit H in
theorem isSome_held_of_fill {f : Held} {whole : Bool} {s' : Synchronizer} (hheld : s.held = some f)
    (h : fill s = .ok whole s') : s'.held.isSome := by
  rw [fill, hheld] at h
  simp only [complete] at h
  split at h
  · cases h
    rfl
  · split at h
    · cases h
      simp only [hheld, Option.isSome_some]
    · cases h

/-- **Coupled readers fill the same frame**, or find alike that there is none, or fail alike. -/
theorem fill_coupled (h : Coupled R s t) : Matched (Coupled R) (fill s) (fill t) := by
  rw [fill, fill, h.held_eq]
  rcases hheld : s.held with _ | f
  · obtain ⟨r, s', t', hs, ht, h'⟩ | ⟨fault, s', t', hs, ht, h'⟩ :=
      search_coupled H h maxFrameSize
    · simp only [hs, ht, h'.held_eq]
      rcases hheld' : s'.held with _ | f
      · exact .ok false h'
      · exact complete_coupled H hheld' h'
    · simp only [hs, ht]
      exact .error fault h'
  · exact complete_coupled H hheld h

end MpegAudio.Synchronizer
