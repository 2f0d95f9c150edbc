import Mathlib.Data.List.Induction
import MpegAudio.Medium.Schedule
import MpegAudio.Proofs.Synchronizer.Place

/-!
# Frames that are read over a failing source

A frame is filled in one read. When that read fails on the way, the bytes that it was given are lost:
the source has moved over them, and the frame still consists of its header. Filling it once more
goes on from where the source stands, so the frame is put together from two stretches of the data
that do not meet.

This is the only way in which a frame is not the stretch that its header announces. The invariant
counts the bytes lost since the header was found, and every one of them goes back to an attempt to
fill the frame that failed.
-/

namespace MpegAudio.Synchronizer

open Bytes Header

/-! ## Operations -/

/-- What can be asked of a reader of frames. -/
inductive Operation where
  | search (budget : Nat)
  | require (budget : Nat)
  | fill
  | release
  | moveTo (target : Nat)
  deriving DecidableEq, Repr

/-- Takes up another position and lets go of the frame that is held. -/
def moveTo (target : Nat) : Action Unit := fun s =>
  match onSource (Source.seek target) s with
  | .ok () s => .ok () s.release
  | .error fault s => .error fault s

/-- The reader that a step leaves behind, whether it fails or not. -/
def afterwards {ε α : Type} : EStateM.Result ε Synchronizer α → Synchronizer
  | .ok _ s => s
  | .error _ s => s

def perform (s : Synchronizer) : Operation → Synchronizer
  | .search budget => afterwards (search budget s)
  | .require budget => afterwards (require budget s)
  | .fill => afterwards (fill s)
  | .release => release s
  | .moveTo target => afterwards (moveTo target s)

/-- The reader after a series of operations. -/
def run (s : Synchronizer) (ops : List Operation) : Synchronizer := ops.foldl perform s

/-! ## What stays true -/

variable {data : List UInt8} {s : Synchronizer} {b p lost : Nat} {h : Header}

/-- The window holds the bytes before the position of the source. -/
def Looking (data : List UInt8) (s : Synchronizer) : Prop :=
  ∃ b, s.window = slice data b s.window.length ∧ s.source.On data (b + s.window.length)

/-- The header at `p`, and behind `lost` more bytes the rest of a frame of `n` bytes. -/
def spliced (data : List UInt8) (p lost n : Nat) : List UInt8 :=
  slice data p size ++ slice data (p + size + lost) (n - size)

/-- The state agrees with the data, but for `lost` bytes behind the header of the frame that is held,
which have been read and forgotten. -/
inductive Sound (data : List UInt8) : Nat → Synchronizer → Prop where
  | looking {s : Synchronizer} (held : s.held = none) (looking : Looking data s) : Sound data 0 s
  | headed {s : Synchronizer} {p lost : Nat} {h : Header} (header : at? data p = some h)
      (held : s.held = some ⟨h, slice data p size⟩) (start : s.frameStart = p)
      (window : s.window = []) (source : s.source.On data (p + size + lost)) : Sound data lost s
  | whole {s : Synchronizer} {p lost : Nat} {h : Header} (header : at? data p = some h)
      (held : s.held = some ⟨h, spliced data p lost h.frameSize⟩) (start : s.frameStart = p)
      (window : s.window = []) (source : s.source.On data (p + h.frameSize + lost))
      (length : (spliced data p lost h.frameSize).length = h.frameSize) : Sound data lost s

theorem spliced_zero {n : Nat} (hn : size ≤ n) : spliced data p 0 n = slice data p n := by
  rw [spliced, Nat.add_zero, slice_append_slice, Nat.add_sub_cancel' hn]

theorem looking_of_nil {pos : Nat} (hwindow : s.window = []) (H : s.source.On data pos) :
    Looking data s :=
  ⟨pos, by rw [hwindow, List.length_nil, slice_zero], by rw [hwindow]; exact H⟩

theorem Sound.looking_of (H : Sound data lost s) : Looking data s := by
  cases H with
  | looking _ looking => exact looking
  | headed _ _ _ window source => exact looking_of_nil window source
  | whole _ _ _ window source _ => exact looking_of_nil window source

/-! ## Searching -/

/-- The byte behind the window is slid in, and at most a header remains. -/
theorem exists_slid {window : List UInt8} {byte : UInt8}
    (hwindow : window = slice data b window.length)
    (hbyte : slice data (b + window.length) 1 = [byte]) :
    ∃ b', slid window byte = slice data b' (slid window byte).length ∧
      (slid window byte).length ≤ size ∧
      b' + (slid window byte).length = b + window.length + 1 := by
  have hdrop := congrArg (List.drop (window.length - 3)) hwindow
  rw [drop_slice] at hdrop
  have hlen : (slid window byte).length = window.length - (window.length - 3) + 1 := by
    rw [slid, List.length_append, List.length_drop, List.length_singleton]
  have hnext : b + (window.length - 3) + (window.length - (window.length - 3)) =
      b + window.length := by omega
  refine ⟨b + (window.length - 3), ?_, by rw [hlen, size]; omega, by omega⟩
  rw [hlen, ← slice_append_slice, hnext, hbyte, ← hdrop]
  rfl

theorem prime_looking (missing : Nat) :
    ∀ s : Synchronizer, Looking data s →
      Looking data (afterwards (prime missing s)) ∧ (afterwards (prime missing s)).held = s.held := by
  induction missing with
  | zero =>
      intro s H
      exact ⟨H, rfl⟩
  | succ missing ih =>
      rintro s ⟨b, hwindow, hon⟩
      have hread := Source.readByte?_on hon
      rw [prime, onSource]
      rcases hr : s.source.readByte? with ⟨_ | byte, source⟩ | ⟨fault, source⟩
      · rw [hr] at hread
        exact ⟨⟨b, hwindow, hread⟩, rfl⟩
      · rw [hr] at hread
        obtain ⟨hbyte, hon'⟩ := hread
        refine ih { s with source := source, window := s.window ++ [byte] } ⟨b, ?_, ?_⟩
        · rw [List.length_append, List.length_singleton, ← slice_append_slice, hbyte, ← hwindow]
        · rw [List.length_append, List.length_singleton]
          exact hon'
      · rw [hr] at hread
        exact ⟨⟨b, hwindow, hread⟩, rfl⟩

/-- A header that the window holds is one of the data, and nothing behind it has been lost. -/
theorem slide_sound (budget : Nat) :
    ∀ (examined : Nat) (s : Synchronizer), s.held = none → Looking data s →
      Sound data 0 (afterwards (slide examined budget s)) := by
  induction budget with
  | zero =>
      intro examined s hheld H
      exact .looking hheld H
  | succ budget ih =>
      rintro examined s hheld ⟨b, hwindow, hon⟩
      have hread := Source.readByte?_on hon
      rw [slide, onSource]
      rcases hr : s.source.readByte? with ⟨_ | byte, source⟩ | ⟨fault, source⟩
      · rw [hr] at hread
        exact .looking hheld ⟨b, hwindow, hread⟩
      · rw [hr] at hread
        obtain ⟨hbyte, hon'⟩ := hread
        obtain ⟨b', hslid, hle, hb'⟩ := exists_slid hwindow hbyte
        rw [← hb'] at hon'
        dsimp only
        rcases hheader : ofBytes? (slid s.window byte) with _ | h
        · exact ih _ { s with source := source, window := slid s.window byte } hheld
            ⟨b', hslid, hon'⟩
        · have hfour : (slid s.window byte).length = size :=
            le_antisymm hle (size_le_of_ofBytes? hheader)
          rw [hfour] at hslid hon'
          rw [hslid] at hheader
          refine .headed hheader ?_ ?_ rfl hon'
          · exact congrArg (fun w => some (Held.mk h w)) hslid
          · change source.position - size = b'
            rw [hon'.position_eq, Nat.add_sub_cancel]
      · rw [hr] at hread
        exact .looking hheld ⟨b, hwindow, hread⟩

/-- However a search ends, nothing is lost behind what it found. -/
theorem search_sound (H : Looking data s) (budget : Nat) :
    Sound data 0 (afterwards (search budget s)) := by
  have H₀ : Looking data { s with held := none } := H
  rw [search]
  by_cases hbudget : budget = 0
  · simp only [if_pos hbudget]
    exact .looking rfl H₀
  · simp only [if_neg hbudget]
    obtain ⟨hlooking, hheld⟩ := prime_looking (3 - s.window.length) _ H₀
    rcases hprime : prime (3 - s.window.length) { s with held := none } with
      ⟨_ | _, s'⟩ | ⟨fault, s'⟩
    all_goals rw [hprime] at hlooking hheld
    · exact .looking hheld hlooking
    · exact slide_sound budget 0 s' hheld hlooking
    · exact .looking hheld hlooking

theorem require_sound (H : Looking data s) (budget : Nat) :
    Sound data 0 (afterwards (require budget s)) := by
  have key := search_sound H budget
  rw [require]
  rcases hsearch : search budget s with ⟨_ | _, s'⟩ | ⟨fault, s'⟩
  all_goals
    rw [hsearch] at key
    exact key

/-! ## Filling -/

/-- The frame is there: its header and, behind the bytes that were lost, the rest. -/
structure Whole (data : List UInt8) (lost : Nat) (s : Synchronizer) : Prop where
  sound : Sound data lost s
  header_eq : s.header? = at? data s.frameStart
  frame_eq : s.frame = spliced data s.frameStart lost s.frameSize
  size_le : size ≤ s.frameSize
  position_eq : s.source.position = s.frameStart + s.frameSize + lost

/-- The bytes that are lost are those between the header and the position. -/
def Accounted (data : List UInt8) (s : Synchronizer) : Prop :=
  ∃ lost, Sound data lost s ∧ (0 < lost → s.source.position = s.frameStart + size + lost)

/-- What comes of reading the rest of the frame that `s` holds: it is there, or the bytes that did
come are lost as well. -/
def Completed (data : List UInt8) (lost : Nat) (s : Synchronizer) :
    EStateM.Result Fault Synchronizer Bool → Prop
  | .ok true s' => Whole data lost s' ∧ s'.frameStart = s.frameStart ∧ s'.header? = s.header?
  | .ok false s' => Accounted data s'
  | .error _ s' => Accounted data s'

theorem whole_of_held (header : at? data p = some h)
    (held : s.held = some ⟨h, spliced data p lost h.frameSize⟩) (start : s.frameStart = p)
    (window : s.window = []) (source : s.source.On data (p + h.frameSize + lost))
    (length : (spliced data p lost h.frameSize).length = h.frameSize) : Whole data lost s := by
  have hheader : s.header? = some h := by
    rw [header?, held]
    rfl
  have hsize : s.frameSize = h.frameSize := frameSize_of_held held
  refine ⟨.whole header held start window source length, ?_, ?_, ?_, ?_⟩
  · rw [hheader, start, header]
  · rw [frame, held, start, hsize]
    rfl
  · have := (frameSize_bounds header).1
    rw [hsize, size]
    omega
  · rw [source.position_eq, start, hsize]

/-- The rest of a frame of which only the header has been read. -/
theorem complete_headed (header : at? data p = some h)
    (held : s.held = some ⟨h, slice data p size⟩) (start : s.frameStart = p)
    (window : s.window = []) (source : s.source.On data (p + size + lost)) :
    Completed data lost s (complete ⟨h, slice data p size⟩ s) := by
  have hsize := (frameSize_bounds header).1
  have hlen : (slice data p size).length = size := length_slice_of_le (le_length_of_at? header)
  have hread := Source.readExact_on source (h.frameSize - size)
  rw [complete, hlen]
  rcases hr : s.source.readExact (h.frameSize - size) with ⟨rest, source'⟩ | ⟨fault, source'⟩
  · rw [hr] at hread
    obtain ⟨hrest, hcount, hon⟩ := hread
    have hend : p + size + lost + (h.frameSize - size) = p + h.frameSize + lost := by
      rw [size]
      omega
    rw [hend] at hon
    have hspliced : spliced data p lost h.frameSize = slice data p size ++ rest := by
      rw [spliced, hrest]
    refine ⟨whole_of_held header ?_ start window hon ?_, rfl, ?_⟩
    · rw [hspliced]
    · rw [hspliced, List.length_append, hlen, hcount, size]
      omega
    · rw [header?, header?, held]
      rfl
  · rw [hr] at hread
    obtain ⟨k, -, -, hon⟩ := hread
    rw [Nat.add_assoc (p + size)] at hon
    have key : Accounted data { s with source := source' } :=
      ⟨lost + k, .headed header held start window hon, fun _ => by rw [hon.position_eq, start]⟩
    by_cases hfault : fault.IsEnd
    · simp only [if_pos hfault]
      exact key
    · simp only [if_neg hfault]
      exact key

/-- Reading the rest of a frame does not mend what was lost before. -/
theorem complete_sound {f : Held} (H : Sound data lost s) (hheld : s.held = some f) :
    Completed data lost s (complete f s) := by
  cases H with
  | looking held _ =>
      rw [held] at hheld
      cases hheld
  | headed header held start window source =>
      rw [held] at hheld
      cases hheld
      exact complete_headed header held start window source
  | whole header held start window source length =>
      rw [held] at hheld
      cases hheld
      -- Nothing is missing, and reading nothing cannot fail.
      rw [complete, length, Nat.sub_self, Source.readExact_zero]
      refine ⟨whole_of_held header ?_ start window source length, rfl, ?_⟩
      · rw [List.append_nil]
      · rw [header?, header?, held]
        rfl

/-- Making sure of a frame reads the rest of the one that is held, or of one that has just been found
and lacks nothing. -/
theorem fill_sound (H : Sound data lost s) :
    ∃ lost' s₁, Completed data lost' s₁ (fill s) ∧ (0 < lost' → lost' = lost ∧ s₁ = s) := by
  rw [fill]
  rcases hheld : s.held with _ | f
  · have nothing : ∀ {s' : Synchronizer}, Sound data 0 s' → Accounted data s' := fun hs =>
      ⟨0, hs, by simp⟩
    have hsearch := search_sound H.looking_of maxFrameSize
    rcases hs : search maxFrameSize s with ⟨outcome, s₁⟩ | ⟨fault, s₁⟩
    · rw [hs] at hsearch
      refine ⟨0, s₁, ?_, by simp⟩
      dsimp only [afterwards] at hsearch ⊢
      rcases hheld₁ : s₁.held with _ | f
      · exact nothing hsearch
      · exact complete_sound hsearch hheld₁
    · rw [hs] at hsearch
      exact ⟨0, s₁, nothing hsearch, by simp⟩
  · exact ⟨lost, s, complete_sound H hheld, fun _ => ⟨rfl, rfl⟩⟩

/-! ## Runs -/

/-- The reader has not filled its frame, at the end of the data or for a fault. -/
def FailsTo (s s' : Synchronizer) : Prop := fill s = .ok false s' ∨ ∃ fault, fill s = .error fault s'

/-- At some point of the run filling the frame that is held has failed, `lost` bytes behind its
header. -/
def FailedBefore (s₀ : Synchronizer) (ops : List Operation) (lost : Nat) (s : Synchronizer) : Prop :=
  ∃ before after s', ops = before ++ .fill :: after ∧ FailsTo (run s₀ before) s' ∧
    s'.frameStart = s.frameStart ∧ s'.header? = s.header? ∧
    s'.source.position = s.frameStart + size + lost

theorem run_concat (s₀ : Synchronizer) (ops : List Operation) (op : Operation) :
    run s₀ (ops ++ [op]) = perform (run s₀ ops) op := by
  rw [run, List.foldl_append, List.foldl_cons, List.foldl_nil, run]

/-- The failure is one of the frame, in whatever state the reader is that holds it. -/
theorem FailedBefore.congr {s₀ s s' : Synchronizer} {ops : List Operation}
    (H : FailedBefore s₀ ops lost s) (hstart : s'.frameStart = s.frameStart)
    (hheader : s'.header? = s.header?) : FailedBefore s₀ ops lost s' := by
  rw [FailedBefore, hstart, hheader]
  exact H

theorem FailedBefore.concat {s₀ s : Synchronizer} {ops : List Operation}
    (H : FailedBefore s₀ ops lost s) (op : Operation) : FailedBefore s₀ (ops ++ [op]) lost s := by
  obtain ⟨before, after, s', hops, H⟩ := H
  refine ⟨before, after ++ [op], s', ?_, H⟩
  rw [hops, List.append_assoc, List.cons_append]

theorem Sound.of_source {source : Source} (H : Sound data lost s)
    (hon : ∀ pos, s.source.On data pos → source.On data pos) :
    Sound data lost { s with source := source } := by
  cases H with
  | looking held looking =>
      obtain ⟨b, hwindow, hat⟩ := looking
      exact .looking held ⟨b, hwindow, hon _ hat⟩
  | headed header held start window source =>
      exact .headed header held start window (hon _ source)
  | whole header held start window source length =>
      exact .whole header held start window (hon _ source) length

theorem release_sound (H : Sound data lost s) : Sound data 0 s.release :=
  .looking rfl <| by
    obtain ⟨b, -, hon⟩ := H.looking_of
    exact looking_of_nil rfl hon

/-- One operation: what is lost behind it was lost before, behind the same header, or the operation
has failed to fill the frame. -/
theorem perform_sound (H : Sound data lost s) (op : Operation) :
    ∃ lost', Sound data lost' (perform s op) ∧ (0 < lost' →
      (lost' = lost ∧ (perform s op).frameStart = s.frameStart ∧
        (perform s op).header? = s.header?) ∨
      (op = .fill ∧ FailsTo s (perform s op) ∧
        (perform s op).source.position = (perform s op).frameStart + size + lost')) := by
  cases op with
  | search budget =>
      exact ⟨0, search_sound H.looking_of budget, by simp⟩
  | require budget =>
      exact ⟨0, require_sound H.looking_of budget, by simp⟩
  | release => exact ⟨0, release_sound H, by simp⟩
  | fill =>
      obtain ⟨lost', s₁, key, hsame⟩ := fill_sound H
      rw [perform]
      rcases hf : fill s with ⟨_ | _, s'⟩ | ⟨fault, s'⟩
      all_goals rw [hf] at key
      · obtain ⟨lost', hs, hpos⟩ := key
        exact ⟨lost', hs, fun h0 => .inr ⟨rfl, .inl hf, hpos h0⟩⟩
      · obtain ⟨hwhole, hframe⟩ := key
        refine ⟨lost', hwhole.sound, fun h0 => .inl ?_⟩
        obtain ⟨rfl, rfl⟩ := hsame h0
        exact ⟨rfl, hframe⟩
      · obtain ⟨lost', hs, hpos⟩ := key
        exact ⟨lost', hs, fun h0 => .inr ⟨rfl, .inr ⟨fault, hf⟩, hpos h0⟩⟩
  | moveTo target =>
      rw [perform, moveTo, onSource]
      rcases hseek : Source.seek target s.source with ⟨⟨⟩, source⟩ | ⟨fault, source⟩
      · obtain ⟨b, -, hon⟩ := H.looking_of
        have key := Source.seek_on hon target
        rw [hseek] at key
        exact ⟨0, .looking rfl (looking_of_nil rfl key), by simp⟩
      · refine ⟨lost, H.of_source fun pos hon => ?_, fun _ => .inl ⟨rfl, rfl, rfl⟩⟩
        have key := Source.seek_on hon target
        rwa [hseek] at key

/-- What is lost in a run was lost by an attempt to fill the frame that failed. -/
theorem run_sound (m : Medium) (length : Option Nat) (ops : List Operation) :
    ∃ lost, Sound m.data.toList lost (run { source := .ofMedium m length } ops) ∧
      (0 < lost → FailedBefore { source := .ofMedium m length } ops lost
        (run { source := .ofMedium m length } ops)) := by
  induction ops using List.reverseRecOn with
  | nil =>
      exact ⟨0, .looking rfl (looking_of_nil rfl (Source.on_ofMedium m length)),
        by simp⟩
  | append_singleton ops op ih =>
      obtain ⟨lost, hsound, hfailed⟩ := ih
      obtain ⟨lost', hsound', hcause⟩ := perform_sound hsound op
      rw [run_concat]
      refine ⟨lost', hsound', fun h0 => ?_⟩
      rcases hcause h0 with ⟨rfl, hstart, hheader⟩ | ⟨rfl, hfails, hpos⟩
      · exact ((hfailed h0).concat op).congr hstart hheader
      · exact ⟨ops, [], _, rfl, hfails, rfl, rfl, hpos⟩

/-- A frame that has been filled, after any operations over any medium: its header is the one at its
start, and it ends where the source stands. It is the stretch that its header announces, unless an
attempt to fill it has failed before. Then it lacks the bytes from its header to where that attempt
left the source, and goes on as many bytes behind its end. -/
theorem frame_of_fill (m : Medium) (length : Option Nat) (ops : List Operation)
    {s : Synchronizer} (h : fill (run { source := .ofMedium m length } ops) = .ok true s) :
    s.header? = at? m.data.toList s.frameStart ∧
    ∃ lost, s.source.position = s.frameStart + s.frameSize + lost ∧
      s.frame = slice m.data.toList s.frameStart size ++
        slice m.data.toList (s.frameStart + size + lost) (s.frameSize - size) ∧
      (lost = 0 → s.frame = slice m.data.toList s.frameStart s.frameSize) ∧
      (0 < lost → FailedBefore { source := .ofMedium m length } ops lost s) := by
  obtain ⟨lost, hsound, hfailed⟩ := run_sound m length ops
  obtain ⟨lost', s₁, key, hsame⟩ := fill_sound hsound
  rw [h] at key
  obtain ⟨hwhole, hstart, hheader⟩ := key
  refine ⟨hwhole.header_eq, lost', hwhole.position_eq, hwhole.frame_eq, ?_, fun h0 => ?_⟩
  · rintro rfl
    rw [hwhole.frame_eq, spliced_zero hwhole.size_le]
  · obtain ⟨rfl, rfl⟩ := hsame h0
    exact (hfailed h0).congr hstart hheader

/-- Two frames of 24 bytes, in a medium that refuses one read six bytes behind the first header. -/
def refusing : Medium where
  data :=
    let frame : List UInt8 := [0xFF, 0xF3, 0x14, 0x00] ++ List.replicate 20 0
    (frame ++ frame).toArray
  cursor := 0
  conduct := Schedule.conduct { failAt := some 10, failTimes := some 1 }

/-- The second attempt to fill the first of these frames succeeds. The source then stands six bytes
behind its end, and so many bytes were lost by the first attempt. -/
theorem frame_of_fill_refusing :
    ∃ s, fill (run { source := .ofMedium refusing none } [.fill]) = .ok true s ∧
      s.source.position = s.frameStart + s.frameSize + 6 ∧
      FailedBefore { source := .ofMedium refusing none } [.fill] 6 s := by
  have hseen : (match fill (run { source := .ofMedium refusing none } [.fill]) with
      | .ok b s => (b, s.frameStart, s.frameSize, s.source.position)
      | .error _ _ => (false, 0, 0, 0)) = (true, 0, 24, 30) := by decide +kernel
  rcases hf : fill (run { source := .ofMedium refusing none } [.fill]) with ⟨b, s⟩ | ⟨fault, s⟩
  · rw [hf] at hseen
    simp only [Prod.mk.injEq] at hseen
    obtain ⟨rfl, hstart, hsize, hpos⟩ := hseen
    obtain ⟨-, lost, hend, -, -, hfailed⟩ := frame_of_fill refusing none [.fill] hf
    have hsix : lost = 6 := by omega
    subst hsix
    exact ⟨s, rfl, hend, hfailed (by decide)⟩
  · rw [hf] at hseen
    simp at hseen

/-- **A frame that is filled after a fault is not the stretch of the data.** The bytes 4 to 9 are
lost, and the frame ends with six bytes of the next one. -/
theorem frame_of_fill_spliced :
    FailsTo { source := .ofMedium refusing none }
        (run { source := .ofMedium refusing none } [.fill]) ∧
      ∃ s, fill (run { source := .ofMedium refusing none } [.fill]) = .ok true s ∧
        s.frameStart = 0 ∧ s.frameSize = 24 ∧
        s.frame = slice refusing.data.toList 0 4 ++ slice refusing.data.toList 10 20 ∧
        s.frame ≠ slice refusing.data.toList s.frameStart s.frameSize := by
  have hfault : (match fill { source := .ofMedium refusing none } with
      | .ok _ _ => false
      | .error _ _ => true) = true := by decide +kernel
  have hseen : (match fill (run { source := .ofMedium refusing none } [.fill]) with
      | .ok b s => (b, s.frameStart, s.frameSize, s.frame)
      | .error _ _ => (false, 0, 0, [])) =
      (true, 0, 24, slice refusing.data.toList 0 4 ++ slice refusing.data.toList 10 20) := by
    decide +kernel
  have hsplit : slice refusing.data.toList 0 4 ++ slice refusing.data.toList 10 20 ≠
      slice refusing.data.toList 0 24 := by decide +kernel
  constructor
  · rw [run, List.foldl_cons, List.foldl_nil, perform]
    rcases hf : fill { source := .ofMedium refusing none } with ⟨b, s⟩ | ⟨fault, s⟩
    · rw [hf] at hfault
      cases hfault
    · exact .inr ⟨fault, hf⟩
  · rcases hf : fill (run { source := .ofMedium refusing none } [.fill]) with ⟨b, s⟩ | ⟨fault, s⟩
    · rw [hf] at hseen
      simp only [Prod.mk.injEq] at hseen
      obtain ⟨rfl, hstart, hsize, hframe⟩ := hseen
      exact ⟨s, rfl, hstart, hsize, hframe, by rw [hframe, hstart, hsize]; exact hsplit⟩
    · rw [hf] at hseen
      simp at hseen

end MpegAudio.Synchronizer
