import MpegAudio.Header
import MpegAudio.Proofs.Source.Faultless
import MpegAudio.Proofs.Tag.Body

/-!
# Reading a tag never leads astray

The body of a tag is not to be trusted: frames can claim any size, an extension can reach beyond
the tag, and the data can end anywhere. Two facts hold all the same over a source that refuses
nothing.

A step of the walk asks for bytes only below a bound that the preamble fixed, so it can fail only
where the data ends before that bound. The bound is the end of the declared size, or four bytes
further where a tag too short for its extension has one. Hence a failure means that no frame header
fits behind the tag.

And while the data lasts, the walk computes the table of the body, at whatever place it stops. The
last step goes to the end of the tag from any place.
-/

namespace MpegAudio.Tag

open Bytes

variable {data : List UInt8} {length : Option Nat} {s : Source} {start pos stop bound : Nat}
  {r : Revision} {tagUnsynchronised : Bool} {table : Table} {frame : FrameHeader} {p : Preamble}

/-- The result of a step that asks only for bytes below a bound: it goes on over the same data, or
has found the data to end before the bound. -/
def Confined {α : Type} (data : List UInt8) (length : Option Nat) (bound : Nat) :
    EStateM.Result Fault Source α → Prop
  | .ok _ s => ∃ pos, s.At data length pos
  | .error fault _ => fault = .endOfData ∧ data.length < bound

/-- A confined step followed by one that is confined wherever it starts. -/
theorem Confined.bind {α β : Type} {act : Source.Action α} {next : α → Source.Action β}
    (H : Confined data length bound (act s))
    (hnext : ∀ a s' pos, s'.At data length pos → Confined data length bound (next a s')) :
    Confined data length bound ((act >>= next) s) := by
  rcases hact : act s with ⟨a, s'⟩ | ⟨fault, s'⟩
  · rw [hact] at H
    obtain ⟨pos, hat⟩ := H
    rw [bind_of_ok hact]
    exact hnext a s' pos hat
  · rw [bind_of_error hact]
    rw [hact] at H
    exact H

theorem Confined.mono {α : Type} {result : EStateM.Result Fault Source α} {bound' : Nat}
    (H : Confined data length bound result) (hle : bound ≤ bound') :
    Confined data length bound' result := by
  cases result with
  | ok _ _ => exact H
  | error _ _ => exact ⟨H.1, Nat.lt_of_lt_of_le H.2 hle⟩

theorem readExact_confined (H : s.At data length pos) {n : Nat} (hle : pos + n ≤ bound) :
    Confined data length bound (Source.readExact n s) := by
  by_cases hfits : pos + n ≤ data.length
  · obtain ⟨s', hread, hat⟩ := Source.readExact_spec H hfits
    rw [hread]
    exact ⟨_, hat⟩
  · by_cases hn : n = 0
    · rw [hn, Source.readExact_zero]
      exact ⟨pos, H⟩
    · obtain ⟨s', hread, -⟩ := Source.readExact_end H (Nat.pos_of_ne_zero hn) (by omega)
      rw [hread]
      exact ⟨rfl, by omega⟩

/-! ## Frames -/

/-- What follows once the body of a frame to be kept has been read. -/
private theorem readText_of_key {key : Key} (hkey : frame.key? = some key) {body : List UInt8}
    {s' : Source} (hread : Source.readExact frame.size s = .ok body s') :
    readText frame table s = .ok (frame.store body table) s' := by
  rw [readText, hkey, FrameHeader.store, hkey]
  simp only []
  rw [bind_of_ok hread]
  rcases body with _ | ⟨encoding, text⟩
  · rfl
  · rcases hdecode : Text.decode? encoding text with _ | value
    · simp only [hdecode]
      rfl
    · simp only [hdecode]
      rfl

theorem readText_spec (H : s.At data length pos) (hfits : pos + frame.size ≤ data.length)
    (table : Table) :
    ∃ s' pos', readText frame table s =
        .ok (frame.store (slice data pos frame.size) table) s' ∧ s'.At data length pos' := by
  rcases hkey : frame.key? with _ | key
  · refine ⟨s, pos, ?_, H⟩
    rw [readText, hkey, FrameHeader.store, hkey]
    rfl
  · obtain ⟨s', hread, hat⟩ := Source.readExact_spec H hfits
    exact ⟨s', _, readText_of_key hkey hread, hat⟩

theorem readText_confined (H : s.At data length pos) (hle : pos + frame.size ≤ bound) :
    Confined data length bound (readText frame table s) := by
  rcases hkey : frame.key? with _ | key
  · rw [readText, hkey]
    exact ⟨pos, H⟩
  · have hread := readExact_confined H hle
    rcases hr : Source.readExact frame.size s with ⟨body, s'⟩ | ⟨fault, s'⟩
    · rw [readText_of_key hkey hr]
      rw [hr] at hread
      exact hread
    · rw [readText, hkey]
      simp only []
      rw [bind_of_error hr]
      rw [hr] at hread
      exact hread

/-- **Walking the frames asks for nothing behind the declared size.** -/
theorem readFrames_confined (H : s.At data length start) :
    Confined data length stop (readFrames r tagUnsynchronised stop start table s) := by
  induction start, table using readFrames.induct r stop generalizing s with
  | case1 start table hroom ih =>
      rw [readFrames, dif_pos hroom]
      by_cases hfits : start + r.headerLength ≤ data.length
      · obtain ⟨s₁, hread, H₁⟩ := Source.readExact_spec H hfits
        rw [bind_of_ok hread]
        rcases FrameHeader.ofBytes? r tagUnsynchronised (slice data start r.headerLength) with
          _ | frame
        · exact ⟨_, H₁⟩
        · by_cases hlong : stop - (start + r.headerLength) < frame.size
          · simp only [if_pos hlong]
            exact ⟨_, H₁⟩
          · simp only [if_neg hlong]
            apply Confined.bind (readText_confined H₁ (by omega))
            intro table s₂ pos₂ H₂
            obtain ⟨s₃, hseek, H₃⟩ := Source.seek_spec H₂ (start + r.headerLength + frame.size)
            rw [bind_of_ok hseek]
            exact ih frame table H₃
      · obtain ⟨s₁, hread, -⟩ := Source.readExact_end H r.headerLength_pos (by omega)
        rw [bind_of_error hread]
        exact ⟨rfl, by omega⟩
  | case2 start table hroom =>
      rw [readFrames, dif_neg hroom]
      exact ⟨start, H⟩

/-- **Walking the frames computes the table of the bytes up to the declared end**, as long as the
data reaches there. -/
theorem readFrames_spec (hstop : stop ≤ data.length) (H : s.At data length start) (r : Revision)
    (tagUnsynchronised : Bool) (table : Table) :
    ∃ s' pos, readFrames r tagUnsynchronised stop start table s =
        .ok (framesIn r tagUnsynchronised (slice data start (stop - start)) table) s' ∧
      s'.At data length pos := by
  induction start, table using readFrames.induct r stop generalizing s with
  | case1 start table hroom ih =>
      obtain ⟨s₁, hread, H₁⟩ := Source.readExact_spec H (n := r.headerLength) (by omega)
      have hlen : (slice data start (stop - start)).length = stop - start :=
        length_slice_of_le (by omega)
      have htake : (slice data start (stop - start)).take r.headerLength =
          slice data start r.headerLength := by
        rw [take_slice, Nat.min_eq_left (by omega)]
      rw [readFrames, dif_pos hroom, bind_of_ok hread]
      rcases hframe : FrameHeader.ofBytes? r tagUnsynchronised
        (slice data start r.headerLength) with _ | frame
      · rw [← htake] at hframe
        rw [framesIn_of_padding (by omega) hframe]
        exact ⟨s₁, _, rfl, H₁⟩
      · rw [← htake] at hframe
        by_cases hlong : stop - (start + r.headerLength) < frame.size
        · rw [framesIn_of_overlong (by omega) hframe (by omega)]
          simp only [if_pos hlong]
          exact ⟨s₁, _, rfl, H₁⟩
        · have hbody : ((slice data start (stop - start)).drop r.headerLength).take frame.size =
              slice data (start + r.headerLength) frame.size := by
            rw [drop_slice, take_slice, Nat.min_eq_left (by omega)]
          have hrest : (slice data start (stop - start)).drop (r.headerLength + frame.size) =
              slice data (start + r.headerLength + frame.size)
                (stop - (start + r.headerLength + frame.size)) := by
            rw [drop_slice, Nat.sub_sub, Nat.add_assoc]
          obtain ⟨s₂, pos₂, htext, H₂⟩ := readText_spec H₁
            (show start + r.headerLength + frame.size ≤ data.length by omega) table
          obtain ⟨s₃, hseek, H₃⟩ := Source.seek_spec H₂ (start + r.headerLength + frame.size)
          rw [framesIn_of_frame (by omega) hframe, hbody, hrest]
          simp only [if_neg hlong]
          rw [bind_of_ok htext, bind_of_ok hseek]
          exact ih frame _ H₃
  | case2 start table hroom =>
      have hshort : (slice data start (stop - start)).length < r.headerLength := by
        have := r.headerLength_pos
        rw [length_slice]
        omega
      rw [readFrames, dif_neg hroom, framesIn_of_short hshort]
      exact ⟨s, start, rfl, H⟩

/-! ## The body -/

theorem skipExtension_spec (H : s.At data length pos) (hfits : pos + 4 ≤ data.length)
    (major : Nat) :
    ∃ s', skipExtension major s = .ok () s' ∧
      s'.At data length (saturate (pos + extensionLength major (slice data pos 4))) := by
  obtain ⟨s₁, hread, H₁⟩ := Source.readExact_spec H hfits
  rw [skipExtension, bind_of_ok hread, extensionLength, ← Nat.add_assoc]
  by_cases hmajor : 4 ≤ major
  · rw [if_pos hmajor, if_pos hmajor]
    exact Source.skip_spec H₁ _
  · rw [if_neg hmajor, if_neg hmajor]
    exact Source.skip_spec H₁ _

/-- What follows in a body once its extension, if it has one, has been passed over. -/
private theorem readBody_of_start {s₁ : Source} {pos₁ : Nat}
    (hstart : (if p.hasExtension then skipExtension p.major else pure ()) s = .ok () s₁)
    (H₁ : s₁.At data length pos₁) :
    readBody p stop s =
      match p.frames? with
      | none => .ok .empty s₁
      | some r => readFrames r p.unsynchronised stop pos₁ .empty s₁ := by
  have hjoin : readBody p stop s =
      ((if p.hasExtension then skipExtension p.major else pure ()) >>= fun _ =>
        match p.frames? with
        | none => pure .empty
        | some r => get >>= fun s =>
            readFrames r p.unsynchronised stop s.position .empty) s := by
    rw [readBody]
    cases p.hasExtension with
    | false => rfl
    | true => rfl
  rw [hjoin, bind_of_ok hstart]
  rcases p.frames? with _ | r
  · rfl
  · rw [← H₁.position_eq]
    rfl

/-- **Reading a body asks for nothing more than four bytes behind the declared size.** Only the size
field of an extension can lie there. -/
theorem readBody_confined (H : s.At data length pos) (hle : pos ≤ stop) :
    Confined data length (stop + 4) (readBody p stop s) := by
  -- The frames are confined wherever they start.
  have key : ∀ s₁ pos₁,
      (if p.hasExtension then skipExtension p.major else pure ()) s = .ok () s₁ →
      s₁.At data length pos₁ → Confined data length (stop + 4) (readBody p stop s) := by
    intro s₁ pos₁ hstart H₁
    rw [readBody_of_start hstart H₁]
    rcases p.frames? with _ | r
    · exact ⟨pos₁, H₁⟩
    · exact (readFrames_confined H₁).mono (by omega)
  by_cases hext : p.hasExtension
  · by_cases hfits : pos + 4 ≤ data.length
    · obtain ⟨s₁, hskip, H₁⟩ := skipExtension_spec H hfits p.major
      exact key s₁ _ (by rw [if_pos hext, hskip]) H₁
    · obtain ⟨s₁, hread, -⟩ := Source.readExact_end H (n := 4) (by omega) (by omega)
      have hskip : skipExtension p.major s = .error .endOfData s₁ := bind_of_error hread
      rw [readBody]
      simp only [if_pos hext]
      rw [bind_of_error hskip]
      exact ⟨rfl, by omega⟩
  · exact key s pos (by rw [if_neg hext]; rfl) H

/-- The frames that the walk sees from where it starts are those of the body. Where an extension
takes it beyond the end there are none, however far it went. -/
private theorem framesIn_from_extension (hstop : stop ≤ data.length)
    (hceiling : data.length ≤ ceiling) (hfits : pos + 4 ≤ data.length) :
    framesIn r tagUnsynchronised
        (slice data (saturate (pos + extensionLength p.major (slice data pos 4)))
          (stop - saturate (pos + extensionLength p.major (slice data pos 4)))) table =
      framesIn r tagUnsynchronised
        ((slice data pos (stop - pos)).drop
          (extensionLength p.major ((slice data pos (stop - pos)).take 4))) table := by
  by_cases hroom : pos + 4 ≤ stop
  · have hfield : (slice data pos (stop - pos)).take 4 = slice data pos 4 := by
      rw [take_slice, Nat.min_eq_left (by omega)]
    rw [hfield, drop_slice, Nat.sub_sub]
    by_cases hle : pos + extensionLength p.major (slice data pos 4) ≤ ceiling
    · rw [saturate_of_le hle]
    · -- Beyond the ceiling there is no data.
      have hover : stop - saturate (pos + extensionLength p.major (slice data pos 4)) = 0 := by
        rw [saturate]
        omega
      have hover' : stop - (pos + extensionLength p.major (slice data pos 4)) = 0 := by omega
      rw [hover, hover', slice_zero, slice_zero]
  · -- The extension starts too close to the end, and its field does not matter.
    have hfour : ∀ field, 4 ≤ extensionLength p.major field := fun field => Nat.le_add_right 4 _
    have hover : stop - saturate (pos + extensionLength p.major (slice data pos 4)) = 0 := by
      have := hfour (slice data pos 4)
      rw [saturate]
      omega
    have hnil : (slice data pos (stop - pos)).drop
        (extensionLength p.major ((slice data pos (stop - pos)).take 4)) = [] := by
      have := hfour ((slice data pos (stop - pos)).take 4)
      apply List.drop_eq_nil_of_le
      rw [length_slice]
      omega
    rw [hover, slice_zero, hnil]

/-- **Reading a body computes its table**, while the data lasts for it and for the size field of an
extension, which need not lie inside. -/
theorem readBody_spec (H : s.At data length pos) (hstop : stop ≤ data.length)
    (hroom : p.hasExtension → pos + 4 ≤ data.length) (hceiling : data.length ≤ ceiling)
    (hknown : p.isKnown) :
    ∃ s' pos', readBody p stop s = .ok (p.table (slice data pos (stop - pos))) s' ∧
      s'.At data length pos' := by
  rw [Preamble.table, if_pos hknown, Preamble.frameBytes]
  by_cases hext : p.hasExtension
  · obtain ⟨s₁, hskip, H₁⟩ := skipExtension_spec H (hroom hext) p.major
    rw [readBody_of_start (by rw [if_pos hext, hskip]) H₁]
    rcases p.frames? with _ | r
    · exact ⟨s₁, _, rfl, H₁⟩
    · obtain ⟨s₂, pos₂, hframes, H₂⟩ := readFrames_spec hstop H₁ r p.unsynchronised .empty
      refine ⟨s₂, pos₂, ?_, H₂⟩
      simp only [if_pos hext]
      rw [hframes, framesIn_from_extension hstop hceiling (hroom hext)]
  · rw [readBody_of_start (by rw [if_neg hext]; rfl) H]
    rcases p.frames? with _ | r
    · exact ⟨s, pos, rfl, H⟩
    · simp only [if_neg hext]
      exact readFrames_spec hstop H r p.unsynchronised .empty

/-! ## The whole tag -/

private theorem read_of_preamble (H : s.At data length pos) (hp : preambleAt? data pos = some p) :
    ∃ s₁, s₁.At data length (pos + marker.length + Preamble.length) ∧
      read s =
        ((if p.isKnown then readBody p (p.stop pos) else pure .empty) >>= fun table =>
          Source.seek (p.ending pos) >>= fun _ => pure (table, [])) s₁ := by
  obtain ⟨hmark, hfits, hp⟩ := preambleAt?_eq_some hp
  obtain ⟨s₀, hread₀, H₀⟩ := Source.readExact_spec H (n := marker.length) (by omega)
  obtain ⟨s₁, hread₁, H₁⟩ := Source.readExact_spec H₀ (n := Preamble.length) hfits
  rw [hmark] at hread₀
  refine ⟨s₁, H₁, ?_⟩
  rw [read, bind_of_ok hread₀]
  simp only [ne_eq, not_true_eq_false, if_false]
  rw [bind_of_ok hread₁, ← hp, Preamble.ending, Preamble.stop, Preamble.extent, ← Nat.add_assoc,
    ← Nat.add_assoc, ← H₁.position_eq]
  by_cases hknown : p.isKnown
  · simp only [if_pos hknown]
    rfl
  · simp only [if_neg hknown]
    rfl

/-- **Reading a tag goes to its end, or no frame header fits behind it.** -/
theorem read_confined (H : s.At data length pos) (hp : preambleAt? data pos = some p) :
    (∃ table s', read s = .ok (table, []) s' ∧ s'.At data length (p.ending pos)) ∨
      ∃ s', read s = .error .endOfData s' ∧ data.length < p.ending pos + Header.size := by
  obtain ⟨s₁, H₁, hread⟩ := read_of_preamble H hp
  have hbody : Confined data length (p.stop pos + 4)
      ((if p.isKnown then readBody p (p.stop pos) else pure .empty) s₁) := by
    by_cases hknown : p.isKnown
    · rw [if_pos hknown]
      exact readBody_confined H₁ (start_le_stop p pos)
    · rw [if_neg hknown]
      exact ⟨_, H₁⟩
  rw [hread]
  rcases hr : (if p.isKnown then readBody p (p.stop pos) else pure .empty) s₁ with
    ⟨table, s₂⟩ | ⟨fault, s₂⟩
  · rw [hr] at hbody
    obtain ⟨pos₂, H₂⟩ := hbody
    obtain ⟨s₃, hseek, H₃⟩ := Source.seek_spec H₂ (p.ending pos)
    left
    refine ⟨table, s₃, ?_, H₃⟩
    rw [bind_of_ok hr, bind_of_ok hseek]
    rfl
  · rw [hr] at hbody
    obtain ⟨rfl, hshort⟩ := hbody
    have := stop_le_ending p pos
    right
    exact ⟨s₂, bind_of_error hr, by rw [Header.size]; omega⟩

/-- **Reading a tag gives the table of its body and goes to its end**, while the data lasts for the
body and for the size field of an extension. -/
theorem read_spec (H : s.At data length pos) (hp : preambleAt? data pos = some p)
    (hstop : p.stop pos ≤ data.length)
    (hroom : p.hasExtension → pos + marker.length + Preamble.length + 4 ≤ data.length)
    (hceiling : data.length ≤ ceiling) :
    ∃ s', read s =
        .ok (p.table (slice data (pos + marker.length + Preamble.length) p.size), []) s' ∧
      s'.At data length (p.ending pos) := by
  obtain ⟨s₁, H₁, hread⟩ := read_of_preamble H hp
  have hsize : p.stop pos - (pos + marker.length + Preamble.length) = p.size := by
    rw [Preamble.stop, Preamble.extent]
    omega
  have hbody : ∃ s₂ pos₂, (if p.isKnown then readBody p (p.stop pos) else pure .empty) s₁ =
      .ok (p.table (slice data (pos + marker.length + Preamble.length) p.size)) s₂ ∧
      s₂.At data length pos₂ := by
    by_cases hknown : p.isKnown
    · rw [if_pos hknown, ← hsize]
      exact readBody_spec H₁ hstop hroom hceiling hknown
    · rw [if_neg hknown, Preamble.table, if_neg hknown]
      exact ⟨s₁, _, rfl, H₁⟩
  obtain ⟨s₂, pos₂, hbody, H₂⟩ := hbody
  obtain ⟨s₃, hseek, H₃⟩ := Source.seek_spec H₂ (p.ending pos)
  refine ⟨s₃, ?_, H₃⟩
  rw [hread, bind_of_ok hbody, bind_of_ok hseek]
  rfl

/-- Three bytes that are no marker are given back. -/
theorem read_of_no_marker (H : s.At data length pos) (hfits : pos + marker.length ≤ data.length)
    (hmark : slice data pos marker.length ≠ marker) :
    ∃ s', read s = .ok (.empty, slice data pos marker.length) s' ∧
      s'.At data length (pos + marker.length) := by
  obtain ⟨s₁, hread, H₁⟩ := Source.readExact_spec H hfits
  refine ⟨s₁, ?_, H₁⟩
  rw [read, bind_of_ok hread]
  simp only [if_pos hmark]
  rfl

/-- Data that ends before a marker could, or in the preamble behind one, ends the reading. -/
theorem read_of_short (H : s.At data length pos)
    (hshort : data.length < pos + marker.length ∨ slice data pos marker.length = marker ∧
      data.length < pos + marker.length + Preamble.length) :
    ∃ s', read s = .error .endOfData s' := by
  by_cases hfits : pos + marker.length ≤ data.length
  · obtain ⟨hmark, hend⟩ := hshort.resolve_left (by omega)
    obtain ⟨s₀, hread₀, H₀⟩ := Source.readExact_spec H hfits
    obtain ⟨s₁, hread₁, -⟩ := Source.readExact_end H₀ (n := Preamble.length) (by decide) hend
    refine ⟨s₁, ?_⟩
    rw [hmark] at hread₀
    rw [read, bind_of_ok hread₀]
    simp only [ne_eq, not_true_eq_false, if_false]
    exact bind_of_error hread₁
  · obtain ⟨s₁, hread, -⟩ := Source.readExact_end H (n := marker.length) (by decide) (by omega)
    exact ⟨s₁, bind_of_error hread⟩

end MpegAudio.Tag
