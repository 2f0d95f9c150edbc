import MpegAudio.Proofs.Bytes.Slice
import MpegAudio.Tag

/-!
# The table in the bytes of a tag

A tag declares its size before its body begins, so the body is a byte string of its own. What its
table holds is a function of that string and of the preamble, which is written down here without a
reader: the body is cut into frames as long as the next one fits, and the texts are taken from the
pieces.

## Main definitions

* `FrameHeader.store` — the table after one frame.
* `framesIn` — the table after the frames in a byte string.
* `Preamble.table p body` — the table of a tag.
* `preambleAt? data start` — the preamble of the tag that starts at an offset.
* `Preamble.stop`, `Preamble.ending` — where the body of that tag ends, and where the tag does.
-/

namespace MpegAudio.Tag

open Bytes

/-- The table after a frame with the given body. -/
def FrameHeader.store (frame : FrameHeader) (body : List UInt8) (table : Table) : Table :=
  match frame.key? with
  | none => table
  | some key =>
    match body with
    | [] => table
    | encoding :: text =>
      match Text.decode? encoding text with
      | none => table
      | some text => table.insert key text

/-- The table after the frames in a byte string. Padding ends them, and so does a frame that says it
is longer than what is left. -/
def framesIn (r : Revision) (tagUnsynchronised : Bool) (bytes : List UInt8) (table : Table) :
    Table :=
  if _fits : r.headerLength ≤ bytes.length then
    match FrameHeader.ofBytes? r tagUnsynchronised (bytes.take r.headerLength) with
    | none => table
    | some frame =>
      let rest := bytes.drop r.headerLength
      if rest.length < frame.size then table
      else
        framesIn r tagUnsynchronised (rest.drop frame.size)
          (frame.store (rest.take frame.size) table)
  else table
termination_by bytes.length
decreasing_by
  have := r.headerLength_pos
  simp only [List.length_drop]
  omega

/-- The bytes of an extension whose size field is given, that field included. -/
def extensionLength (major : Nat) (field : List UInt8) : Nat :=
  4 + if 4 ≤ major then syncsafe field - 4 else bigEndian field

namespace Preamble

/-- The bytes of a body that are given over to frames. -/
def frameBytes (p : Preamble) (body : List UInt8) : List UInt8 :=
  if p.hasExtension then body.drop (extensionLength p.major (body.take 4)) else body

def table (p : Preamble) (body : List UInt8) : Table :=
  if p.isKnown then
    match p.frames? with
    | none => .empty
    | some r => framesIn r p.unsynchronised (p.frameBytes body) .empty
  else .empty

/-- The bytes of a tag from its marker to the end of its declared size. -/
def extent (p : Preamble) : Nat := marker.length + length + p.size

/-- Where the body of a tag that starts at `start` ends. -/
def stop (p : Preamble) (start : Nat) : Nat := start + p.extent

/-- Where a tag that starts at `start` ends, its footer included. -/
def ending (p : Preamble) (start : Nat) : Nat := p.stop start + p.footerLength

end Preamble

/-- The preamble of the tag that starts at `start`, if there is a tag and its preamble is all
there. -/
def preambleAt? (data : List UInt8) (start : Nat) : Option Preamble :=
  if slice data start marker.length = marker then
    (field? data (start + marker.length) Preamble.length).map Preamble.ofBytes
  else none

/-- The size that a tag at `start` declares: the low seven bits of four bytes, highest first. -/
def declaredSize (data : List UInt8) (start : Nat) : Nat :=
  byteAt data (start + 6) % 128 * (128 * 128 * 128) + byteAt data (start + 7) % 128 * (128 * 128) +
    byteAt data (start + 8) % 128 * 128 + byteAt data (start + 9) % 128

/-- Where a tag at `start` ends by what its bytes say. Marker and preamble take ten bytes that the
size does not count, and so does a footer, which there is from major version 4 on if bit 4 of the
flags is set. -/
def declaredEnd (data : List UInt8) (start : Nat) : Nat :=
  start + 10 + declaredSize data start +
    if 4 ≤ byteAt data (start + 3) ∧ (byteAt data (start + 5)).testBit 4 then 10 else 0

variable {r : Revision} {tagUnsynchronised : Bool} {bytes : List UInt8} {table : Table}

theorem framesIn_of_short (H : bytes.length < r.headerLength) :
    framesIn r tagUnsynchronised bytes table = table := by
  rw [framesIn, dif_neg (by omega)]

theorem framesIn_of_padding (H : r.headerLength ≤ bytes.length)
    (hpad : FrameHeader.ofBytes? r tagUnsynchronised (bytes.take r.headerLength) = none) :
    framesIn r tagUnsynchronised bytes table = table := by
  rw [framesIn, dif_pos H, hpad]

theorem framesIn_of_overlong {frame : FrameHeader} (H : r.headerLength ≤ bytes.length)
    (hframe : FrameHeader.ofBytes? r tagUnsynchronised (bytes.take r.headerLength) = some frame)
    (hlong : bytes.length < r.headerLength + frame.size) :
    framesIn r tagUnsynchronised bytes table = table := by
  rw [framesIn, dif_pos H, hframe]
  simp only [List.length_drop]
  rw [if_pos (by omega)]

theorem framesIn_of_frame {frame : FrameHeader} (H : r.headerLength + frame.size ≤ bytes.length)
    (hframe : FrameHeader.ofBytes? r tagUnsynchronised (bytes.take r.headerLength) = some frame) :
    framesIn r tagUnsynchronised bytes table =
      framesIn r tagUnsynchronised (bytes.drop (r.headerLength + frame.size))
        (frame.store ((bytes.drop r.headerLength).take frame.size) table) := by
  rw [framesIn, dif_pos (by omega), hframe]
  simp only [List.length_drop, List.drop_drop]
  rw [if_neg (by omega)]

theorem preambleAt?_eq_some {data : List UInt8} {start : Nat} {p : Preamble}
    (H : preambleAt? data start = some p) :
    slice data start marker.length = marker ∧
      start + marker.length + Preamble.length ≤ data.length ∧
      p = Preamble.ofBytes (slice data (start + marker.length) Preamble.length) := by
  rw [preambleAt?] at H
  by_cases hmark : slice data start marker.length = marker
  · rw [if_pos hmark] at H
    obtain ⟨raw, hraw, hp⟩ := Option.map_eq_some_iff.mp H
    obtain ⟨hslice, hlen⟩ := field?_eq_some_iff.mp hraw
    rw [← slice] at hslice
    rw [← hslice, length_slice] at hlen
    refine ⟨hmark, ?_, by rw [hslice, hp]⟩
    rw [Preamble.length] at hlen ⊢
    omega
  · rw [if_neg hmark] at H
    simp at H

/-- A tag is recognised by its own bytes, wherever it stands. -/
theorem preambleAt?_congr {data data' : List UInt8} {start start' : Nat} {p : Preamble}
    (H : preambleAt? data start = some p)
    (hagree : slice data' start' p.extent = slice data start p.extent) :
    preambleAt? data' start' = some p := by
  obtain ⟨hmark, hfits, hp⟩ := preambleAt?_eq_some H
  -- Both parts lie inside the bytes that agree.
  have hpart : ∀ k n, k + n ≤ p.extent →
      slice data' (start' + k) n = slice data (start + k) n := by
    intro k n hle
    rw [← slice_slice data' start' p.extent k n hle, hagree, slice_slice _ _ _ _ _ hle]
  have hmark' := hpart 0 marker.length (by rw [Preamble.extent]; omega)
  rw [Nat.add_zero, Nat.add_zero, hmark] at hmark'
  have hraw := hpart marker.length Preamble.length (by rw [Preamble.extent]; omega)
  have hfield : field? data' (start' + marker.length) Preamble.length =
      some (slice data (start + marker.length) Preamble.length) :=
    field?_eq_some_iff.mpr ⟨hraw, length_slice_of_le hfits⟩
  rw [preambleAt?, if_pos hmark', hfield, Option.map_some, ← hp]

theorem start_le_stop (p : Preamble) (start : Nat) :
    start + marker.length + Preamble.length ≤ p.stop start := by
  rw [Preamble.stop, Preamble.extent]
  omega

theorem stop_le_ending (p : Preamble) (start : Nat) : p.stop start ≤ p.ending start := by
  rw [Preamble.ending]
  omega

/-! ## The declared end -/

variable {data : List UInt8} {start : Nat} {p : Preamble}

theorem Preamble.ofBytes_seven (a b c d e f g : UInt8) :
    ofBytes [a, b, c, d, e, f, g] =
      { major := a.toNat
        unsynchronised := c.toNat.testBit 7
        extended := c.toNat.testBit 6
        hasFooter := c.toNat.testBit 4
        size := d.toNat % 128 * (128 * 128 * 128) + e.toNat % 128 * (128 * 128) +
          f.toNat % 128 * 128 + g.toNat % 128 } := by
  simp only [ofBytes, List.take_succ_cons, List.take_zero, List.drop_succ_cons, List.drop_zero,
    bigEndian, syncsafe, List.foldl_cons, List.foldl_nil, Nat.zero_mul, Nat.zero_add]
  congr 1
  omega

/-- **A preamble says what the bytes behind the marker say.** -/
theorem declared_of_preambleAt? (H : preambleAt? data start = some p) :
    p.size = declaredSize data start ∧ p.ending start = declaredEnd data start := by
  obtain ⟨-, hfits, rfl⟩ := preambleAt?_eq_some H
  have hfits : start + 3 + 7 ≤ data.length := hfits
  have hseven : slice data (start + marker.length) Preamble.length =
      [data[start + 3], data[start + 4], data[start + 5], data[start + 6], data[start + 7],
        data[start + 8], data[start + 9]] := by
    show slice data (start + 3) 7 = _
    simp (disch := omega) only [slice_cons, slice_zero, Nat.add_assoc]
  have hbyte : ∀ i (hi : i < 10), byteAt data (start + i) = data[start + i].toNat :=
    fun i hi => byteAt_of_lt (by omega)
  rw [hseven, Preamble.ofBytes_seven, declaredEnd, declaredSize, hbyte 3 (by decide),
    hbyte 5 (by decide), hbyte 6 (by decide), hbyte 7 (by decide), hbyte 8 (by decide),
    hbyte 9 (by decide)]
  exact ⟨rfl, by rw [Preamble.ending, Preamble.stop, Preamble.extent, ← Nat.add_assoc]; rfl⟩

theorem exists_preambleAt? (hmark : slice data start 3 = [0x49, 0x44, 0x33])
    (hfits : start + 10 ≤ data.length) : ∃ p, preambleAt? data start = some p := by
  have hmark : slice data start marker.length = marker := hmark
  have hfits : start + marker.length + Preamble.length ≤ data.length := hfits
  rw [preambleAt?, if_pos hmark, field?_eq_slice hfits, Option.map_some]
  exact ⟨_, rfl⟩

theorem le_declaredEnd (data : List UInt8) (start : Nat) : start + 10 ≤ declaredEnd data start := by
  rw [declaredEnd]
  omega

end MpegAudio.Tag
