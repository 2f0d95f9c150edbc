import MpegAudio.Proofs.Tag.Writing
import MpegAudio.Proofs.Track.Tags

/-!
# Reading a tag undoes writing it

A tag that was written, in any of the three revisions and with whatever frames, is passed over to
its end, and the table holds the texts of its frames and nothing else. Behind the tag the data may
go on or end.
-/

namespace MpegAudio

open Bytes

namespace Tag

/-- Under the two identifiers stand the texts of the two keys, and under no other anything. -/
theorem Table.find?_spec (t : Table) :
    t.find? "TIT2" = t.get? .title ∧ t.find? "TPE1" = t.get? .artist ∧
      ∀ id, id ≠ "TIT2" → id ≠ "TPE1" → t.find? id = none := by
  refine ⟨rfl, rfl, fun id htitle hartist => ?_⟩
  have hnone : Key.all.find? (·.id = id) = none := by
    simp [Key.all, Key.id, htitle.symm, hartist.symm]
  rw [find?, hnone, Option.bind_none]

namespace WrittenTag

variable {r : Revision} (tag : WrittenTag r) (pre rest : List UInt8)

/-- A written tag is recognised, and declares what it is. -/
theorem preambleAt?_bytes :
    preambleAt? (pre ++ (tag.bytes ++ rest)) pre.length = some tag.preamble := by
  have hmark : slice (pre ++ (tag.bytes ++ rest)) pre.length marker.length = marker := by
    rw [bytes, List.append_assoc]
    exact slice_part pre marker _
  have hfield : field? (pre ++ (tag.bytes ++ rest)) (pre.length + marker.length) Preamble.length =
      some tag.preambleBytes := by
    have hdata : pre ++ (tag.bytes ++ rest) =
        (pre ++ marker) ++ (tag.preambleBytes ++ (tag.body ++ (tag.footer ++ rest))) := by
      simp only [bytes, List.append_assoc]
    refine field?_eq_some_iff.mpr ⟨?_, tag.length_preambleBytes⟩
    rw [← slice, hdata, ← List.length_append, ← tag.length_preambleBytes]
    exact slice_part _ _ _
  rw [preambleAt?, if_pos hmark, hfield, Option.map_some, tag.ofBytes_preambleBytes]

theorem slice_body :
    slice (slice (pre ++ (tag.bytes ++ rest)) pre.length tag.preamble.extent)
      (marker.length + Preamble.length) tag.preamble.size = tag.body := by
  have hdata : pre ++ (tag.bytes ++ rest) =
      (pre ++ (marker ++ tag.preambleBytes)) ++ (tag.body ++ (tag.footer ++ rest)) := by
    simp only [bytes, List.append_assoc]
  rw [slice_slice _ _ _ _ _ (by rw [Preamble.extent]), hdata, ← tag.length_preambleBytes,
    ← List.length_append, ← List.length_append]
  exact slice_part _ _ _

theorem ending_preamble (start : Nat) :
    tag.preamble.ending start = start + tag.bytes.length := by
  have hfooter : tag.preamble.footerLength = tag.footer.length := by
    rw [tag.length_footer, Preamble.footerLength]
    cases r <;> simp [preamble, Revision.major]
  have hsize : tag.preamble.size = tag.body.length := rfl
  simp only [Preamble.ending, Preamble.stop, Preamble.extent, hfooter, hsize, bytes,
    List.length_append, length_preambleBytes]
  omega

theorem four_le_length_body (H : tag.preamble.hasExtension) : 4 ≤ tag.body.length := by
  rw [tag.hasExtension_preamble] at H
  obtain ⟨payload, hpayload⟩ := Option.isSome_iff_exists.mp H
  obtain ⟨hbody, hfield, -⟩ := tag.body_of_extension hpayload
  rw [hbody, List.length_append, hfield]
  exact Nat.le_add_right 4 _

end WrittenTag

end Tag

namespace Track

open Tag

variable {r : Revision} {length : Option Nat} {s : Synchronizer}

/-- **Reading a tag undoes writing it.** Let a tag be written in one of the three revisions, with any
frames that can be written in it, and stand at the position of the source, behind any bytes and in
front of any. It is passed over to its end, and nothing but the source has moved. Under each of the
two identifiers the table holds the text of the last frame that tells one for it, and there is such
a text if there is such a frame. Under no other identifier the table holds anything.

Positions are words of 64 bits, which is what `hceiling` says of the data. -/
theorem skipTag_written (tag : WrittenTag r) (pre rest : List UInt8)
    (H : s.source.At (pre ++ (tag.bytes ++ rest)) length pre.length)
    (hceiling : (pre ++ (tag.bytes ++ rest)).length ≤ ceiling) :
    ∃ table source,
      skipTag s = .ok table { s with source := source } ∧
        source.At (pre ++ (tag.bytes ++ rest)) length (pre.length + tag.bytes.length) ∧
        table.find? "TIT2" = tag.text? .title ∧ table.find? "TPE1" = tag.text? .artist ∧
        (∀ key, (tag.text? key).isSome ↔ ∃ f ∈ tag.frames, f.Tells tag.unsynchronised key) ∧
        ∀ id, id ≠ "TIT2" → id ≠ "TPE1" → table.find? id = none := by
  have hending := tag.ending_preamble pre.length
  have hstop := stop_le_ending tag.preamble pre.length
  have hstart := start_le_stop tag.preamble pre.length
  have hsize : tag.preamble.stop pre.length =
      pre.length + marker.length + Preamble.length + tag.body.length := by
    rw [Preamble.stop, Preamble.extent]
    exact (Nat.add_assoc ..).symm
  have hlen : (pre ++ (tag.bytes ++ rest)).length =
      pre.length + tag.bytes.length + rest.length := by
    simp only [List.length_append, Nat.add_assoc]
  obtain ⟨source, hskip, hat⟩ := skipTag_of_stop H (tag.preambleAt?_bytes pre rest) (by omega)
    (fun hext => by have := tag.four_le_length_body hext; omega) hceiling
  rw [tag.slice_body] at hskip
  rw [hending] at hat
  obtain ⟨htitle, hartist, hother⟩ := (tag.preamble.table tag.body).find?_spec
  exact ⟨_, source, hskip, hat, htitle.trans tag.get?_table, hartist.trans tag.get?_table,
    fun _ => WrittenTag.isSome_text?_iff, hother⟩

/-- A tag of revision 4 with an extension, padding and a footer. It has two titles that can be read
and behind them one in an unknown encoding, and an artist that is encrypted. -/
theorem skipTag_written_undecodable :
    let title (body : List UInt8) (h : body.length < Revision.four.sizeBound) :
        WrittenFrame .four := ⟨[0x54, 0x49, 0x54, 0x32], 0, body, rfl, by decide, h⟩
    let tag : WrittenTag .four :=
      { minor := 0
        flags := 0x50
        extension := some [1, 0]
        frames :=
          [title [0, 0x41] (by decide), title [0, 0x48, 0x69] (by decide),
            title [9, 0x42] (by decide),
            ⟨[0x54, 0x50, 0x45, 0x31], 0x0004, [0, 0x43], rfl, by decide, by decide⟩]
        padding := 5
        footer := [0x33, 0x44, 0x49, 4, 0, 0x50, 0, 0, 0, 60]
        extended := rfl
        extension_two := fun h => nomatch h
        length_footer := rfl
        length_body := by decide }
    let s : Synchronizer :=
      ⟨.ofMedium ⟨([7] ++ (tag.bytes ++ [8, 9])).toArray, 1, .plain, {}, 0⟩ none, [], none, 0⟩
    ∃ table source,
      skipTag s = .ok table { s with source := source } ∧ source.position = 1 + tag.bytes.length ∧
        table.find? "TIT2" = some "Hi" ∧ table.find? "TPE1" = none := by
  intro title tag s
  obtain ⟨table, source, hskip, hat, htitle, hartist, -⟩ :=
    skipTag_written (s := s) tag [7] [8, 9]
      (Source.at_ofMedium Conduct.faultless_plain none) (by decide)
  exact ⟨table, source, hskip, hat.position_eq, htitle.trans (by decide),
    hartist.trans (by decide)⟩

end Track

end MpegAudio
