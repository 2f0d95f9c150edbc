import MpegAudio.Proofs.Synchronizer.Unread
import MpegAudio.Proofs.Tag.Confinement
import MpegAudio.Track

/-!
# The tag in front of a stream

A reader that has not begun passes over the tag at its position, if there is one. Where there is
none, the bytes looked at go back to the window, so the search begins at the very same position as
if nothing had been read. A tag moves the search to its declared end. Only a tag whose preamble is
cut off leaves no place for the search to begin, and only where the data ends inside a tag does
passing over it fail.

Both are stated from the bytes: `searchStart?` looks for the marker and goes to `Tag.declaredEnd`,
and by `skipTag_confined` that is where a reader stands behind a tag, whatever its body holds.
-/

namespace MpegAudio

open Bytes

namespace Synchronizer

/-- The synchronizer stands in the data and has not begun to search. -/
structure Fresh (data : List UInt8) (length : Option Nat) (pos : Nat) (s : Synchronizer) :
    Prop where
  source : s.source.At data length pos
  window : s.window = []
  held : s.held = none

variable {data : List UInt8} {length : Option Nat} {pos : Nat} {s : Synchronizer}

theorem Fresh.standing (H : Fresh data length pos s) :
    Standing data length (.searching pos) s := by
  have hs : { s with held := none } = s := by rw [← H.held]
  rw [← hs]
  exact standing_of_window_eq_nil H.window H.source

end Synchronizer

namespace Track

open Synchronizer

/-- Where the search for the first frame begins in data that is read from `start` on: there, or at
the declared end of a tag that starts there. A tag that is cut off in its first ten bytes leaves no
such place. -/
def searchStart? (data : List UInt8) (start : Nat) : Option Nat :=
  if slice data start 3 = [0x49, 0x44, 0x33] then
    if start + 10 ≤ data.length then some (Tag.declaredEnd data start) else none
  else some start

variable {data : List UInt8} {length : Option Nat} {pos : Nat} {s : Synchronizer}

/-- Passing over a tag leads to the place where the search begins, or no header fits there. -/
theorem skipTag_spec (H : Fresh data length pos s) :
    match searchStart? data pos with
    | some e =>
        (∃ tags s', skipTag s = .ok tags s' ∧ Standing data length (.searching e) s') ∨
          ∃ s', skipTag s = .error .endOfData s' ∧ data.length < e + Header.size
    | none => ∃ s', skipTag s = .error .endOfData s' := by
  rw [searchStart?]
  by_cases hmark : slice data pos 3 = [0x49, 0x44, 0x33]
  · rw [if_pos hmark]
    by_cases hroom : pos + 10 ≤ data.length
    · rw [if_pos hroom]
      obtain ⟨p, hp⟩ := Tag.exists_preambleAt? hmark hroom
      rw [← (Tag.declared_of_preambleAt? hp).2]
      rcases Tag.read_confined H.source hp with ⟨table, source, hread, hat⟩ | ⟨source, hread, hcut⟩
      · left
        rw [skipTag, onSource, hread]
        have hfresh : Fresh data length (p.ending pos) { s with source := source } :=
          ⟨hat, H.window, H.held⟩
        exact ⟨table, _, rfl, hfresh.standing⟩
      · right
        rw [skipTag, onSource, hread]
        exact ⟨_, rfl, hcut⟩
    · -- The preamble is cut off.
      rw [if_neg hroom]
      obtain ⟨source, hread⟩ :=
        Tag.read_of_short H.source (Or.inr ⟨hmark, Nat.lt_of_not_le hroom⟩)
      rw [skipTag, onSource, hread]
      exact ⟨_, rfl⟩
  · rw [if_neg hmark]
    by_cases hfits : pos + Tag.marker.length ≤ data.length
    · -- The three bytes go back to the window.
      left
      obtain ⟨source, hread, hat⟩ := Tag.read_of_no_marker H.source hfits hmark
      have hlen := length_slice_of_le hfits
      have hthree : Tag.marker.length = 3 := rfl
      have hwindow : ({ s with source := source }.giveBack
          (slice data pos Tag.marker.length)).window = slice data pos Tag.marker.length := by
        rw [window_giveBack _ _ (by simp [H.window])]
        simp only [H.window, List.nil_append]
        rw [hlen, hthree, Nat.sub_self, List.drop_zero]
      rw [skipTag, onSource, hread]
      refine ⟨_, _, rfl, .searching ?_ ?_ ?_⟩
      · rw [held_giveBack]
        exact H.held
      · rw [tail_of_length_le (by rw [hwindow, hlen, hthree]), hwindow, hlen]
      · rw [tail_of_length_le (by rw [hwindow, hlen, hthree]), hwindow, hlen, source_giveBack]
        exact hat
    · right
      obtain ⟨source, hread⟩ := Tag.read_of_short H.source (Or.inl (by omega))
      have hthree : Tag.marker.length = 3 := rfl
      rw [skipTag, onSource, hread]
      exact ⟨_, rfl, by rw [Header.size]; omega⟩

/-- Passing over a tag that is all there leaves everything but the source as it was, and the table is
that of the body. -/
theorem skipTag_of_stop {p : Tag.Preamble} (H : s.source.At data length pos)
    (hp : Tag.preambleAt? data pos = some p) (hstop : p.stop pos ≤ data.length)
    (hroom : p.hasExtension → pos + Tag.marker.length + Tag.Preamble.length + 4 ≤ data.length)
    (hceiling : data.length ≤ ceiling) :
    ∃ source, skipTag s =
        .ok (p.table (slice (slice data pos p.extent) (Tag.marker.length + Tag.Preamble.length)
          p.size)) { s with source := source } ∧
      source.At data length (p.ending pos) := by
  obtain ⟨source, hread, hat⟩ := Tag.read_spec H hp hstop hroom hceiling
  refine ⟨source, ?_, hat⟩
  rw [skipTag, onSource, hread, slice_slice _ _ _ _ _ (by rw [Tag.Preamble.extent]),
    ← Nat.add_assoc]
  rfl

/-- So it is for a tag behind which a header fits, which leaves room for an extension. -/
theorem skipTag_of_fits {p : Tag.Preamble} (H : s.source.At data length pos)
    (hp : Tag.preambleAt? data pos = some p) (hfits : p.ending pos + Header.size ≤ data.length)
    (hceiling : data.length ≤ ceiling) :
    ∃ source, skipTag s =
        .ok (p.table (slice (slice data pos p.extent) (Tag.marker.length + Tag.Preamble.length)
          p.size)) { s with source := source } ∧
      source.At data length (p.ending pos) := by
  have hstart := Tag.start_le_stop p pos
  have hending := Tag.stop_le_ending p pos
  rw [Header.size] at hfits
  exact skipTag_of_stop H hp (by omega) (fun _ => by omega) hceiling

/-- **A tag never leads astray, whatever its body holds.** Take any reader in front of a marker, in
data that goes on for four bytes behind the end that the tag declares. The tag is passed over up to
exactly there, and nothing but the source has moved. The table depends on the bytes from the marker
to the end of the declared size alone: a reader over other data that agrees there, at whatever
position and however it goes on, is given the same one.

Positions are words of 64 bits, which is what `hceiling` says of the data. -/
theorem skipTag_confined {s t : Synchronizer} {data data' : List UInt8}
    {length length' : Option Nat} {pos pos' : Nat}
    (hs : s.source.At data length pos) (ht : t.source.At data' length' pos')
    (hmark : slice data pos 3 = [0x49, 0x44, 0x33])
    (hagree : slice data' pos' (10 + Tag.declaredSize data pos) =
      slice data pos (10 + Tag.declaredSize data pos))
    (hfits : Tag.declaredEnd data pos + 4 ≤ data.length)
    (hfits' : Tag.declaredEnd data' pos' + 4 ≤ data'.length)
    (hceiling : data.length ≤ ceiling) (hceiling' : data'.length ≤ ceiling) :
    ∃ table source source',
      skipTag s = .ok table { s with source := source } ∧
        source.At data length (Tag.declaredEnd data pos) ∧
        skipTag t = .ok table { t with source := source' } ∧
        source'.At data' length' (Tag.declaredEnd data' pos') := by
  have hstart := Tag.le_declaredEnd data pos
  obtain ⟨p, hp⟩ := Tag.exists_preambleAt? hmark (by omega)
  obtain ⟨hsize, hend⟩ := Tag.declared_of_preambleAt? hp
  have hextent : 10 + Tag.declaredSize data pos = p.extent := by
    rw [← hsize]
    rfl
  rw [hextent] at hagree
  -- The other tag is recognised as the same one.
  have hp' := Tag.preambleAt?_congr hp hagree
  obtain ⟨-, hend'⟩ := Tag.declared_of_preambleAt? hp'
  rw [← hend] at hfits ⊢
  rw [← hend'] at hfits' ⊢
  obtain ⟨source, hskip, hat⟩ := skipTag_of_fits hs hp hfits hceiling
  obtain ⟨source', hskip', hat'⟩ := skipTag_of_fits ht hp' hfits' hceiling'
  rw [hagree] at hskip'
  exact ⟨_, source, source', hskip, hat, hskip', hat'⟩

/-- A title behind an extension, the start of a frame that claims a quarter of a gigabyte, and a
footer that differs: the tag is read at the start of one string and at offset 1 of another. -/
theorem skipTag_confined_footer :
    let head : List UInt8 := [0x49, 0x44, 0x33, 4, 0, 0x50, 0, 0, 0, 30, 0, 0, 0, 6, 1, 0,
      0x54, 0x49, 0x54, 0x32, 0, 0, 0, 3, 0, 0, 0, 0x48, 0x69,
      0x54, 0x50, 0x45, 0x31, 0x7F, 0x7F, 0x7F, 0x7F, 0, 0, 3]
    let s : Synchronizer :=
      ⟨.ofMedium ⟨(head ++ List.replicate 10 0x33 ++ [0xFF, 0xFB, 0x94, 0x00]).toArray, 0, .plain,
        {}, 0⟩ none, [], none, 0⟩
    let t : Synchronizer :=
      ⟨.ofMedium ⟨(7 :: head ++ List.replicate 10 0xFF ++ [1, 2, 3, 4, 5]).toArray, 1, .plain,
        {}, 0⟩ none, [], none, 0⟩
    ∃ table source source',
      skipTag s = .ok table { s with source := source } ∧ source.position = 50 ∧
        skipTag t = .ok table { t with source := source' } ∧ source'.position = 51 := by
  intro head s t
  obtain ⟨table, source, source', hskip, hat, hskip', hat'⟩ :=
    skipTag_confined (s := s) (t := t)
      (Source.at_ofMedium Conduct.faultless_plain none)
      (Source.at_ofMedium Conduct.faultless_plain none)
      (by decide) (by decide) (by decide) (by decide) (by decide) (by decide)
  exact ⟨table, source, source', hskip, hat.position_eq.trans (by decide), hskip',
    hat'.position_eq.trans (by decide)⟩

end Track

end MpegAudio
