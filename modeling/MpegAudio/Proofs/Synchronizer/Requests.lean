import MpegAudio.Proofs.Synchronizer.Resumption
import MpegAudio.Proofs.Synchronizer.Splice
import MpegAudio.Proofs.Synchronizer.Unread

/-!
# What holds of a reader at all times

Whatever is asked of a reader of frames, and whatever happens to its source meanwhile, its state
keeps a simple shape: at most four bytes wait in the window, and a frame that is held begins with its
header and has been read up to there or as a whole. The shape does not depend on the data, since the
source may fail or be moved by others at any time.

A whole frame is as long as its header says. Filling it once more reads nothing.
-/

namespace MpegAudio

open Bytes Header

/-- The bytes of a frame that is held begin with its header, and either there are no others or the
frame is all there. -/
structure Held.WellFormed (f : Held) : Prop where
  header : ofBytes? (f.bytes.take size) = some f.header
  length : f.bytes.length = size ∨ f.bytes.length = f.header.frameSize

namespace Held.WellFormed

variable {f : Held}

theorem frameSize_bounds (H : f.WellFormed) :
    24 ≤ f.header.frameSize ∧ f.header.frameSize ≤ maxFrameSize :=
  Header.frameSize_bounds H.header

theorem size_le_length (H : f.WellFormed) : size ≤ f.bytes.length := by
  have hle := size_le_of_ofBytes? H.header
  rw [List.length_take] at hle
  omega

theorem length_le (H : f.WellFormed) : f.bytes.length ≤ f.header.frameSize := by
  have hbounds := H.frameSize_bounds
  have hsize : size = 4 := rfl
  rcases H.length with h | h <;> omega

/-- The header is what the bytes of the frame begin with, however many of them there are. -/
theorem ofBytes?_bytes (H : f.WellFormed) : ofBytes? f.bytes = some f.header := by
  have hlen : size ≤ (f.bytes.take size).length := by
    rw [List.length_take]
    exact le_min le_rfl H.size_le_length
  rw [← H.header, ← Header.ofBytes?_append hlen (f.bytes.drop size), List.take_append_drop]

end Held.WellFormed

namespace Synchronizer

/-- At most four bytes wait, and the frame that is held has its shape. -/
structure WellFormed (s : Synchronizer) : Prop where
  window_le : s.window.length ≤ size
  held : ∀ f, s.held = some f → f.WellFormed

variable {s : Synchronizer}

theorem wellFormed_of_none (hheld : s.held = none) (hle : s.window.length ≤ size) :
    s.WellFormed := by
  refine ⟨hle, fun f hf => ?_⟩
  rw [hheld] at hf
  cases hf

theorem WellFormed.congr {t : Synchronizer} (H : s.WellFormed) (hwindow : t.window = s.window)
    (hheld : t.held = s.held) : t.WellFormed :=
  ⟨hwindow ▸ H.window_le, hheld ▸ H.held⟩

/-- What the shape says of what can be seen of a reader. -/
theorem WellFormed.bounds (H : s.WellFormed) :
    s.window.length ≤ size ∧ (s.header? = none → s.frame = []) ∧
      ∀ h, s.header? = some h → ofBytes? (s.frame.take size) = some h ∧
        (s.frame.length = size ∨ s.frame.length = h.frameSize) ∧
        24 ≤ h.frameSize ∧ h.frameSize ≤ maxFrameSize := by
  refine ⟨H.window_le, ?_, ?_⟩
  · intro hnone
    rw [header?, Option.map_eq_none_iff] at hnone
    rw [frame, hnone]
    rfl
  · intro h hh
    rw [header?, Option.map_eq_some_iff] at hh
    obtain ⟨f, hheld, rfl⟩ := hh
    have hf := H.held f hheld
    have hframe : s.frame = f.bytes := by
      rw [frame, hheld]
      rfl
    rw [hframe]
    exact ⟨hf.header, hf.length, hf.frameSize_bounds⟩

/-! ## One step at a time -/

theorem length_slid_le (window : List UInt8) (b : UInt8) : (slid window b).length ≤ size := by
  rw [slid, List.length_append, List.length_drop, List.length_singleton, size]
  omega

theorem wellFormed_giveBackByte (H : s.WellFormed) (b : UInt8) : (s.giveBackByte b).WellFormed := by
  refine ⟨?_, H.held⟩
  have hlen : (s.giveBackByte b).window.length = s.window.length - (s.window.length - 2) + 1 := by
    rw [giveBackByte, List.length_append, List.length_drop, List.length_singleton]
  rw [hlen, size]
  omega

theorem wellFormed_giveBack (bs : List UInt8) :
    ∀ s : Synchronizer, s.WellFormed → (s.giveBack bs).WellFormed := by
  induction bs with
  | nil =>
      intro s H
      exact H
  | cons b bs ih =>
      intro s H
      exact ih _ (wellFormed_giveBackByte H b)

theorem wellFormed_release (s : Synchronizer) : s.release.WellFormed :=
  wellFormed_of_none rfl (Nat.zero_le _)

theorem wellFormed_prime (missing : Nat) :
    ∀ s : Synchronizer, s.WellFormed → s.window.length + missing ≤ size →
      (afterwards (prime missing s)).WellFormed := by
  induction missing with
  | zero =>
      intro s H _
      exact H
  | succ missing ih =>
      intro s H hroom
      rw [prime, onSource]
      rcases s.source.readByte? with ⟨_ | b, source⟩ | ⟨fault, source⟩
      · exact H.congr rfl rfl
      · have hlen : (s.window ++ [b]).length + missing ≤ size := by
          rw [List.length_append, List.length_singleton]
          omega
        exact ih { s with source := source, window := s.window ++ [b] } ⟨by dsimp only; omega, H.held⟩
          hlen
      · exact H.congr rfl rfl

/-- A window that holds a header is all of the frame that has been read. -/
theorem wellFormed_lock {header : Header} {window : List UInt8} (hle : window.length ≤ size)
    (hheader : ofBytes? window = some header) (s : Synchronizer) :
    (s.lock header window).WellFormed := by
  refine ⟨Nat.zero_le _, fun f hf => ?_⟩
  cases hf
  have hlen : window.length = size := le_antisymm hle (size_le_of_ofBytes? hheader)
  exact ⟨by rw [List.take_of_length_le hle]; exact hheader, .inl hlen⟩

theorem wellFormed_slide (budget : Nat) :
    ∀ (examined : Nat) (s : Synchronizer), s.WellFormed →
      (afterwards (slide examined budget s)).WellFormed := by
  induction budget with
  | zero =>
      intro examined s H
      exact H
  | succ budget ih =>
      intro examined s H
      rw [slide, onSource]
      rcases s.source.readByte? with ⟨_ | b, source⟩ | ⟨fault, source⟩
      · exact H.congr rfl rfl
      · have hle := length_slid_le s.window b
        dsimp only
        cases hheader : ofBytes? (slid s.window b) with
        | none => exact ih _ { s with source := source, window := slid s.window b } ⟨hle, H.held⟩
        | some header => exact wellFormed_lock hle hheader { s with source := source }
      · exact H.congr rfl rfl

theorem wellFormed_search (H : s.WellFormed) (budget : Nat) :
    (afterwards (search budget s)).WellFormed := by
  have H₀ : WellFormed { s with held := none } := wellFormed_of_none rfl H.window_le
  rw [search]
  by_cases hbudget : budget = 0
  · simp only [if_pos hbudget]
    exact H₀
  · simp only [if_neg hbudget]
    have hroom : s.window.length + (3 - s.window.length) ≤ size := by
      have hle := H.window_le
      rw [size] at hle ⊢
      omega
    have hprime := wellFormed_prime (3 - s.window.length) _ H₀ hroom
    rcases hp : prime (3 - s.window.length) { s with held := none } with ⟨_ | _, s'⟩ | ⟨fault, s'⟩
      <;> rw [hp] at hprime
    · exact hprime
    · exact wellFormed_slide budget 0 s' hprime
    · exact hprime

/-- Whether a header has to be there makes no difference to what a search leaves. -/
theorem afterwards_require (budget : Nat) (s : Synchronizer) :
    afterwards (require budget s) = afterwards (search budget s) := by
  rw [require]
  rcases search budget s with ⟨_ | _, s'⟩ | ⟨fault, s'⟩ <;> rfl

theorem afterwards_run (call : Call) (s : Synchronizer) :
    afterwards (call.run s) = afterwards (search call.budget s) := by
  rw [Call.run, ← afterwards_require]
  cases call.required with
  | false =>
      rw [require]
      rcases search call.budget s with ⟨_ | _, s'⟩ | ⟨fault, s'⟩ <;> rfl
  | true =>
      rcases require call.budget s with ⟨_, s'⟩ | ⟨error, s'⟩ <;> rfl

def Filled (s : Synchronizer) : Prop :=
  ∃ f, s.held = some f ∧ f.WellFormed ∧ f.bytes.length = f.header.frameSize

/-- A step that says whether there is a whole frame keeps the shape, and says so rightly. -/
def Fills : EStateM.Result Fault Synchronizer Bool → Prop
  | .ok true s => s.WellFormed ∧ s.Filled
  | .ok false s => s.WellFormed
  | .error _ s => s.WellFormed

theorem fills_complete {f : Held} (H : s.WellFormed) (hheld : s.held = some f) :
    Fills (complete f s) := by
  have hf := H.held f hheld
  rw [complete]
  rcases hr : s.source.readExact (f.header.frameSize - f.bytes.length) with
    ⟨rest, source⟩ | ⟨fault, source⟩
  · have hlen : (f.bytes ++ rest).length = f.header.frameSize := by
      have hle := hf.length_le
      rw [List.length_append, Source.length_readExact hr]
      omega
    have hwhole : Held.WellFormed ⟨f.header, f.bytes ++ rest⟩ := by
      refine ⟨?_, .inr hlen⟩
      rw [List.take_append_of_le_length hf.size_le_length]
      exact hf.header
    refine ⟨⟨H.window_le, fun g hg => ?_⟩, _, rfl, hwhole, hlen⟩
    cases hg
    exact hwhole
  · by_cases hend : fault.IsEnd
    · simp only [if_pos hend]
      exact H.congr rfl rfl
    · simp only [if_neg hend]
      exact H.congr rfl rfl

theorem fills_fill (H : s.WellFormed) : Fills (fill s) := by
  rw [fill]
  rcases hheld : s.held with _ | f
  · have hsearch := wellFormed_search H maxFrameSize
    rcases hs : search maxFrameSize s with ⟨outcome, s'⟩ | ⟨fault, s'⟩ <;> rw [hs] at hsearch
    · dsimp only
      rcases hheld' : s'.held with _ | f
      · exact hsearch
      · exact fills_complete hsearch hheld'
    · exact hsearch
  · exact fills_complete H hheld

theorem wellFormed_fill (H : s.WellFormed) : (afterwards (fill s)).WellFormed := by
  have hfills := fills_fill H
  rcases hf : fill s with ⟨_ | _, s'⟩ | ⟨fault, s'⟩ <;> rw [hf] at hfills
  · exact hfills
  · exact hfills.1
  · exact hfills

/-- **A whole frame is as long as its header says**, and filling it once more reads nothing. -/
theorem Filled.spec (H : s.Filled) :
    (∃ h, s.header? = some h ∧ ofBytes? s.frame = some h ∧ s.frame.length = h.frameSize ∧
      s.frameSize = h.frameSize) ∧ fill s = .ok true s := by
  obtain ⟨f, hheld, hf, hlen⟩ := H
  have hframe : s.frame = f.bytes := by
    rw [frame, hheld]
    rfl
  refine ⟨⟨f.header, ?_, ?_, ?_, frameSize_of_held hheld⟩, ?_⟩
  · rw [header?, hheld]
    rfl
  · rw [hframe]
    exact hf.ofBytes?_bytes
  · rw [hframe]
    exact hlen
  · rw [fill_of_held hheld, complete, hlen, Nat.sub_self, Source.readExact_zero]
    simp only [List.append_nil, ← hheld]

theorem Filled.isFrame (H : s.Filled) : IsFrame s.frame := by
  obtain ⟨⟨h, -, hheader, hlen, -⟩, -⟩ := H.spec
  exact ⟨h, hheader, hlen⟩

theorem fill_whole {s' : Synchronizer} (H : s.WellFormed) (h : fill s = .ok true s') :
    s'.Filled := by
  have hfills := fills_fill H
  rw [h] at hfills
  exact hfills.2

/-! ## Requests -/

/-- What can be asked of a reader, and what may happen to its source in between. -/
inductive Request where
  | giveBack (bs : List UInt8)
  | search (call : Call)
  | fill
  | release
  /-- The source is read or moved by others, or changed in any other way. -/
  | elsewhere (act : Source → Source)

/-- The reader after one request. -/
def serve (s : Synchronizer) : Request → Synchronizer
  | .giveBack bs => s.giveBack bs
  | .search call => afterwards (call.run s)
  | .fill => afterwards (fill s)
  | .release => s.release
  | .elsewhere act => { s with source := act s.source }

def serveAll (s : Synchronizer) (requests : List Request) : Synchronizer := requests.foldl serve s

/-- There is room for what is given back. -/
def Request.Fits (s : Synchronizer) : Request → Prop
  | .giveBack bs => bs = [] ∨ s.window.length < size
  | .search _ | .fill | .release | .elsewhere _ => True

/-- Each of the requests finds room for what it gives back. -/
def Fits (s : Synchronizer) : List Request → Prop
  | [] => True
  | request :: requests => request.Fits s ∧ Fits (s.serve request) requests

/-- **No request destroys the shape.** -/
theorem wellFormed_serve (H : s.WellFormed) (request : Request) : (s.serve request).WellFormed := by
  cases request with
  | giveBack bs => exact wellFormed_giveBack bs s H
  | search call =>
      rw [serve, afterwards_run]
      exact wellFormed_search H call.budget
  | fill => exact wellFormed_fill H
  | release => exact wellFormed_release s
  | elsewhere act => exact H.congr rfl rfl

/-- **No series of requests does.** -/
theorem wellFormed_serveAll (H : s.WellFormed) (requests : List Request) :
    (s.serveAll requests).WellFormed := by
  induction requests generalizing s with
  | nil => exact H
  | cons request requests ih => exact ih (wellFormed_serve H request)

/-! ## Being reached by requests -/

/-- Requests lead from one reader to the other, and there is room for all that they give back. -/
def Reaches (s s' : Synchronizer) : Prop := ∃ requests, Fits s requests ∧ s.serveAll requests = s'

namespace Reaches

variable {s' s'' : Synchronizer}

@[refl] theorem refl (s : Synchronizer) : Reaches s s := ⟨[], trivial, rfl⟩

theorem one (request : Request) (hfits : request.Fits s) : Reaches s (s.serve request) :=
  ⟨[request], ⟨hfits, trivial⟩, rfl⟩

theorem trans (H : Reaches s s') (H' : Reaches s' s'') : Reaches s s'' := by
  obtain ⟨requests, hfits, rfl⟩ := H
  obtain ⟨later, hfits', rfl⟩ := H'
  refine ⟨requests ++ later, ?_, List.foldl_append⟩
  induction requests generalizing s with
  | nil => exact hfits'
  | cons request requests ih => exact ⟨hfits.1, ih hfits.2 hfits'⟩

theorem wellFormed (H : Reaches s s') (hs : s.WellFormed) : s'.WellFormed := by
  obtain ⟨requests, -, rfl⟩ := H
  exact wellFormed_serveAll hs requests

end Reaches

end Synchronizer

end MpegAudio
