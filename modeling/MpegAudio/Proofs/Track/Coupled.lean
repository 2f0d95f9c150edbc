import MpegAudio.Proofs.Synchronizer.Coupled
import MpegAudio.Track

/-!
# Reading the headers over two sources side by side

Reading a tag is a program over the operations of a source, so coupled sources give the same tag,
and coupled readers the same headers.
-/

namespace MpegAudio

variable {R : Source → Source → Prop} (H : Source.Coupling R)

namespace Tag

include H

theorem readText_coupled {s t : Source} (h : R s t) (frame : FrameHeader) (table : Table) :
    Matched R (readText frame table s) (readText frame table t) := by
  rw [readText]
  rcases frame.key? with _ | key
  · exact .ok table h
  · refine .bind (H.readExact h frame.size) fun body s t h => ?_
    rcases body with _ | ⟨encoding, text⟩
    · exact .ok table h
    · rcases hdecode : Text.decode? encoding text with _ | value
      · simp only [hdecode]
        exact .ok table h
      · simp only [hdecode]
        exact .ok _ h

theorem readFrames_coupled (r : Revision) (tagUnsynchronised : Bool) (stop start : Nat)
    (table : Table) :
    ∀ s t, R s t →
      Matched R (readFrames r tagUnsynchronised stop start table s)
        (readFrames r tagUnsynchronised stop start table t) := by
  induction start, table using readFrames.induct r stop with
  | case1 start table hroom ih =>
      intro s t h
      rw [readFrames, dif_pos hroom]
      refine .bind (H.readExact h r.headerLength) fun raw s t h => ?_
      rcases FrameHeader.ofBytes? r tagUnsynchronised raw with _ | frame
      · exact .ok table h
      · by_cases hlong : stop - (start + r.headerLength) < frame.size
        · simp only [if_pos hlong]
          exact .ok table h
        · simp only [if_neg hlong]
          refine .bind (readText_coupled H h frame table) fun table s t h => ?_
          exact .bind (H.seek h _) fun _ s t h => ih frame table s t h
  | case2 start table hroom =>
      intro s t h
      rw [readFrames, dif_neg hroom]
      exact .ok table h

theorem skipExtension_coupled {s t : Source} (h : R s t) (major : Nat) :
    Matched R (skipExtension major s) (skipExtension major t) := by
  refine .bind (H.readExact h 4) fun size s t h => ?_
  by_cases hmajor : 4 ≤ major
  · simp only [if_pos hmajor]
    exact H.skip h _
  · simp only [if_neg hmajor]
    exact H.skip h _

theorem readBody_coupled {s t : Source} (h : R s t) (p : Preamble) (stop : Nat) :
    Matched R (readBody p stop s) (readBody p stop t) := by
  rw [readBody]
  rcases p.frames? with _ | r
  · cases p.hasExtension with
    | false => exact .ok _ h
    | true => exact .bind (skipExtension_coupled H h p.major) fun _ s t h => .ok _ h
  · -- The frames begin where the source stands, which is the same place.
    have hframes : ∀ s t, R s t → Matched R
        ((get >>= fun s => readFrames r p.unsynchronised stop s.position .empty :
          Source.Action Table) s)
        ((get >>= fun s => readFrames r p.unsynchronised stop s.position .empty :
          Source.Action Table) t) := by
      intro s t h
      have key := readFrames_coupled H r p.unsynchronised stop t.position .empty s t h
      rw [H.position_eq h] at key
      exact Matched.bind_get (by rw [H.position_eq h]; exact key)
    cases p.hasExtension with
    | false => exact hframes s t h
    | true => exact .bind (skipExtension_coupled H h p.major) fun _ s t h => hframes s t h

theorem read_coupled {s t : Source} (h : R s t) : Matched R (read s) (read t) := by
  refine .bind (H.readExact h marker.length) fun start s t h => ?_
  by_cases hmark : start ≠ marker
  · simp only [if_pos hmark]
    exact .ok _ h
  · simp only [if_neg hmark]
    refine .bind (H.readExact h Preamble.length) fun bytes s t h => ?_
    -- Whatever was made of the body, the end is the same.
    have hend : ∀ (stop : Nat) (table : Table) (s t : Source), R s t → Matched R
        ((Source.seek stop >>= fun _ => pure (table, [])) s)
        ((Source.seek stop >>= fun _ =>
          (pure (table, []) : Source.Action (Table × List UInt8))) t) :=
      fun stop table s t h => .bind (H.seek h stop) fun _ s t h => .ok _ h
    apply Matched.bind_get
    rw [H.position_eq h]
    by_cases hknown : (Preamble.ofBytes bytes).isKnown
    · simp only [if_pos hknown]
      exact .bind (readBody_coupled H h _ _) (hend _)
    · simp only [if_neg hknown]
      exact hend _ .empty s t h

end Tag

namespace Track

open Synchronizer

include H

theorem skipTag_coupled {s t : Synchronizer} (h : Coupled R s t) :
    Matched (Coupled R) (skipTag s) (skipTag t) := by
  rw [skipTag, skipTag]
  obtain ⟨⟨tags, unread⟩, s', t', hs, ht, h'⟩ | ⟨fault, s', t', hs, ht, h'⟩ :=
    onSource_coupled h (Tag.read_coupled H h.source)
  · simp only [hs, ht]
    exact .ok tags (coupled_giveBack h' unread)
  · simp only [hs, ht]
    exact .error fault h'

theorem readTags_coupled {s t : Synchronizer} (h : Coupled R s t) :
    Matched (Coupled R) (readTags s) (readTags t) := by
  rw [readTags, readTags]
  obtain ⟨tags, s', t', hs, ht, h'⟩ | ⟨fault, s', t', hs, ht, h'⟩ := skipTag_coupled H h
  · simp only [hs, ht]
    exact .ok tags h'
  · simp only [hs, ht]
    exact .error _ h'

/-- The way to find times follows from the bytes that are held, from where they start and from the
length, in which coupled readers agree. -/
theorem readLocator_coupled {s t : Synchronizer} (h : Coupled R s t) {f : Held}
    (hheld : s.held = some f) (header : Header) :
    Matched (Coupled R) (readLocator header s) (readLocator header t) := by
  rw [readLocator, readLocator]
  obtain ⟨whole, s', t', hs, ht, h'⟩ | ⟨fault, s', t', hs, ht, h'⟩ := fill_coupled H h
  · have hchoice : Locator.choose t'.frameStart t'.source.length header t'.frame =
        Locator.choose s'.frameStart s'.source.length header s'.frame := by
      rw [h'.frameStart_eq (isSome_held_of_fill hheld hs), H.length_eq h'.source, frame, frame,
        h'.held_eq]
    simp only [hs, ht, hchoice]
    refine .ok _ ?_
    split
    · exact coupled_release h'.source
    · exact h'
  · simp only [hs, ht]
    exact .error _ h'

/-- **Coupled readers read the same headers.** -/
theorem read_coupled {s t : Synchronizer} (h : Coupled R s t) (limit : Nat) :
    Matched (Coupled R) (read limit s) (read limit t) := by
  refine .bind (readTags_coupled H h) fun tags s t h => ?_
  refine .bind (require_coupled H h limit) fun _ s t h => ?_
  apply Matched.bind_get
  have hheader : t.header? = s.header? := by rw [header?, header?, h.held_eq]
  rw [hheader]
  rcases hs : s.header? with _ | header
  · exact .error _ h
  · obtain ⟨f, hheld, -⟩ := Option.map_eq_some_iff.mp hs
    exact .bind (readLocator_coupled H h hheld header) fun locator s t h => .ok _ h

end Track

end MpegAudio
