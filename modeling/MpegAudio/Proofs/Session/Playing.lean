import MpegAudio.Decoder.Stamp
import MpegAudio.Proofs.Session.Headers

/-!
# Playing a stream

Playing hands the frames of the data to the decoder, one after another, as the data cut up from the
place of the reader gives them. Nothing else reaches the decoder, and the sink is given what comes
out of it, each block right after the frame that it was made of.

The induction is on the frames still to come. A round of the loop takes the first of them, and
leaves a reader that has the rest of them to come. From the headers on, and without a limit, this
gives `play_refines`: the whole journal, from the data and from what the decoder leaves behind.
-/

namespace MpegAudio.Session

open Header Synchronizer

def Event.frame? : Event → Option (List UInt8)
  | .decoded frame => some frame
  | .decoderClosed | .sink _ => none

variable {δ : Type} [Decoder δ]

/-- What is written when one frame is played. If anything came out, an open sink is given the
samples of the pairs that are said to have come out, as far as the buffer goes. -/
def frameEvents {n : Nat} (isOpen : Bool) (frame : List UInt8) (decoded : Decoded δ n) :
    List Event :=
  .decoded frame ::
    if isOpen ∧ 0 < decoded.count then
      [.sink (.block (decoded.output.toList.take (min (2 * decoded.count) n)).toArray)]
    else []

/-- What becomes of frames that are decoded one after another. Each finds the decoder and the buffer
as the one before has left them. -/
def decodes {n : Nat} :
    δ → Vector Int16 n → List (List UInt8) → List (List UInt8 × Decoded δ n)
  | _, _, [] => []
  | decoder, output, frame :: rest =>
    let decoded := Decoder.decode decoder frame output
    (frame, decoded) :: decodes decoded.decoder decoded.output rest

/-- What is written when frames are played, the decoder and its buffer being given. -/
def events {n : Nat} (isOpen : Bool) (decoder : δ) (output : Vector Int16 n)
    (frames : List (List UInt8)) : List Event :=
  (decodes decoder output frames).flatMap fun x => frameEvents isOpen x.1 x.2

@[simp] theorem events_nil {n : Nat} (isOpen : Bool) (decoder : δ) (output : Vector Int16 n) :
    events isOpen decoder output [] = [] := rfl

theorem events_cons {n : Nat} (isOpen : Bool) (decoder : δ) (output : Vector Int16 n)
    (frame : List UInt8) (rest : List (List UInt8)) :
    events isOpen decoder output (frame :: rest) =
      let decoded := Decoder.decode decoder frame output
      frameEvents isOpen frame decoded ++ events isOpen decoded.decoder decoded.output rest := rfl

/-- As many of the frames to come as are to be played. -/
def played (limit : Option Nat) (frames : List (List UInt8)) : List (List UInt8) :=
  match limit with
  | none => frames
  | some k => frames.take k

/-- How playing ends. A limit that the frames to come reach stops it. -/
def outcomeOf (limit : Option Nat) (frames : List (List UInt8)) : Outcome :=
  if limit.any (· ≤ frames.length) then .stopped else .endOfStream

theorem played_cons {limit : Option Nat} (hlimit : limit ≠ some 0) (frame : List UInt8)
    (rest : List (List UInt8)) :
    played limit (frame :: rest) = frame :: played (limit.map (· - 1)) rest := by
  rcases limit with _ | _ | k
  · rfl
  · exact absurd rfl hlimit
  · rfl

theorem outcomeOf_cons {limit : Option Nat} (hlimit : limit ≠ some 0) (frame : List UInt8)
    (rest : List (List UInt8)) :
    outcomeOf limit (frame :: rest) = outcomeOf (limit.map (· - 1)) rest := by
  rcases limit with _ | _ | k
  · rfl
  · exact absurd rfl hlimit
  · simp [outcomeOf]

/-- The frames that the decoder was given are those that were played, in that order. -/
theorem filterMap_events {n : Nat} (isOpen : Bool) (decoder : δ) (output : Vector Int16 n)
    (frames : List (List UInt8)) :
    (events isOpen decoder output frames).filterMap Event.frame? = frames := by
  induction frames generalizing decoder output with
  | nil => rfl
  | cons frame rest ih =>
      rw [events_cons, List.filterMap_append, ih, frameEvents]
      split <;> rfl

/-- A block has the first samples of the buffer. -/
theorem block_eq {n : Nat} (output : Vector Int16 n) (count : Nat) :
    block output count = (output.toList.take (min (2 * count) n)).toArray := by
  apply Array.toList_inj.mp
  rw [block, Array.toList_extract, List.extract_eq_take_drop, Nat.sub_zero, List.drop_zero]
  rfl

/-! ## One round of the loop -/

variable {s : Session δ} {data : List UInt8} {length : Option Nat}

theorem playOn_zero (s : Session δ) : playOn (some 0) s = .ok .stopped s := by
  rw [playOn, if_pos rfl]

theorem playOn_of_end {limit : Option Nat} {synchronizer : Synchronizer} (hlimit : limit ≠ some 0)
    (H : s.synchronizer.fill = .ok false synchronizer) :
    playOn limit s = .ok .endOfStream { s with synchronizer := synchronizer } := by
  rw [playOn, if_neg hlimit]
  split
  · rename_i hfill
    rw [H] at hfill
    cases hfill
  · rename_i hfill
    rw [H] at hfill
    cases hfill
    rfl
  · rename_i hfill
    rw [H] at hfill
    cases hfill

theorem playOn_of_frame {limit : Option Nat} {synchronizer : Synchronizer} (hlimit : limit ≠ some 0)
    (H : s.synchronizer.fill = .ok true synchronizer) :
    playOn limit s =
      playOn (limit.map (· - 1)) { s with synchronizer := synchronizer }.playHeld := by
  rw [playOn, if_neg hlimit]
  split
  · rename_i hfill
    rw [H] at hfill
    cases hfill
  · rename_i hfill
    rw [H] at hfill
    cases hfill
  · rename_i hfill
    rw [H] at hfill
    cases hfill
    rfl

theorem playOn_of_fault {limit : Option Nat} {fault : Fault} {synchronizer : Synchronizer}
    (hlimit : limit ≠ some 0) (H : s.synchronizer.fill = .error fault synchronizer) :
    playOn limit s = .error (.source fault) { s with synchronizer := synchronizer } := by
  rw [playOn, if_neg hlimit]
  split
  · rename_i hfill
    rw [H] at hfill
    cases hfill
    rfl
  · rename_i hfill
    rw [H] at hfill
    cases hfill
  · rename_i hfill
    rw [H] at hfill
    cases hfill

/-- Playing the frame that is held writes its events and goes on to the next frame. -/
theorem playHeld_eq (s : Session δ) :
    s.playHeld =
      let decoded := Decoder.decode s.decoder s.synchronizer.frame s.output
      { s with
        synchronizer := s.synchronizer.release
        decoder := decoded.decoder
        output := decoded.output
        frameIndex := s.frameIndex + 1
        journal := s.journal ++
          (frameEvents (s.outlet = .opened) s.synchronizer.frame decoded).toArray } := by
  rw [playHeld]
  simp only [frameEvents, note, ← block_eq]
  by_cases hcount : (Decoder.decode s.decoder s.synchronizer.frame s.output).count = 0
  · simp [hcount]
  · rw [if_neg hcount, tell]
    cases s.outlet with
    | absent => simp
    | waiting => simp
    | opened =>
        congr 1
        apply Array.toList_inj.mp
        simp [hcount, note]

/-! ## The loop -/

/-- **Playing gives the frames to come.** From any place the frames to come are played in order, up
to the limit, and their events are written. The reader is at a place again afterwards, and of the
rest of the session only the decoder, its buffer and the number of the next frame have changed. -/
theorem playOn_spec (frames : List (List UInt8)) :
    ∀ (limit : Option Nat) (s : Session δ) (place : Place),
      Standing data length place s.synchronizer → place.frames data = frames →
      ∃ synchronizer place' decoder output,
        playOn limit s = .ok (outcomeOf limit frames)
            { s with
              synchronizer := synchronizer
              decoder := decoder
              output := output
              frameIndex := s.frameIndex + (played limit frames).length
              journal := s.journal ++
                (events (s.outlet = .opened) s.decoder s.output (played limit frames)).toArray } ∧
          Standing data length place' synchronizer := by
  induction frames with
  | nil =>
      intro limit s place H hframes
      by_cases hlimit : limit = some 0
      · subst hlimit
        refine ⟨s.synchronizer, place, s.decoder, s.output, ?_, H⟩
        rw [playOn_zero]
        simp [outcomeOf, played]
      · have hfill := fill_spec H
        rw [hframes] at hfill
        obtain ⟨synchronizer, place', hfill, hplace⟩ := hfill
        refine ⟨synchronizer, place', s.decoder, s.output, ?_, hplace⟩
        rw [playOn_of_end hlimit hfill]
        cases limit with
        | none => simp [outcomeOf, played]
        | some k =>
            have hk : k ≠ 0 := by
              rintro rfl
              exact hlimit rfl
            simp [outcomeOf, played, hk]
  | cons frame rest ih =>
      intro limit s place H hframes
      by_cases hlimit : limit = some 0
      · subst hlimit
        refine ⟨s.synchronizer, place, s.decoder, s.output, ?_, H⟩
        rw [playOn_zero]
        simp [outcomeOf, played]
      · have hfill := fill_spec H
        rw [hframes] at hfill
        obtain ⟨s₁, q, hfill, hframe, hrelease, hrest⟩ := hfill
        obtain ⟨synchronizer, place', decoder, output, hplay, hplace⟩ :=
          ih (limit.map (· - 1)) { s with synchronizer := s₁ }.playHeld (.searching q)
            (by rw [synchronizer_playHeld]; exact hrelease) hrest
        refine ⟨synchronizer, place', decoder, output, ?_, hplace⟩
        rw [playOn_of_frame hlimit hfill, hplay, played_cons hlimit, outcomeOf_cons hlimit,
          playHeld_eq]
        simp only [hframe, events_cons, List.length_cons]
        congr 2
        · omega
        · simp

/-- Playing gives the frames to come, once the headers have been read and until the session is
closed. -/
theorem play_spec {place : Place} (hknown : s.track?.isSome) (hclosed : s.closed = false)
    (H : Standing data length place s.synchronizer) (limit : Option Nat) :
    ∃ s', play limit s = .ok (outcomeOf limit (place.frames data)) s' ∧
      s'.journal.toList = s.journal.toList ++
        events (s.outlet = .opened) s.decoder s.output (played limit (place.frames data)) ∧
      s'.frameIndex = s.frameIndex + (played limit (place.frames data)).length := by
  obtain ⟨track, htrack⟩ := Option.isSome_iff_exists.mp hknown
  obtain ⟨_, _, _, _, hplay, -⟩ := playOn_spec _ limit s place H rfl
  have hopen : play limit s = playOn limit s := by
    rw [play, htrack]
    simp only [hclosed, Bool.false_eq_true, if_false]
  rw [hopen, hplay]
  exact ⟨_, rfl, Array.toList_append, rfl⟩

/-- **Playing is cutting up the data.** Once the headers have been read and nothing else has been
done, playing without a limit ends with the stream. The decoder has then been given the frames that
cutting up the data from `q` on gives, each once, in order and byte for byte, where `q` is the start
of the leftmost frame, or its end if that frame is a summary. The sink has been opened and then
given one block for each frame of which the decoder said that `count` pairs came out, if these are
not none: the first `2 * count` of the 2304 samples in the buffer. -/
theorem play_refines {m : Medium} (hm : m.conduct.Faultless) {decoder : δ} {settings : Settings}
    {s₁ : Session δ} (hs : setUp (some (.ofMedium m length)) (some decoder) settings = .ok s)
    (hread : readHeaders s = .ok () s₁) :
    ∃ e p h s₂, Track.searchStart? m.data.toList m.cursor = some e ∧
      leftmost? m.data.toList settings.searchLimit e = some (p, h) ∧
      let q := match s₁.locator? with
        | some (.summary _) => p + h.frameSize
        | _ => p
      let frames := framesFrom m.data.toList q
      play none s₁ = .ok .endOfStream s₂ ∧
        s₂.journal.toList.filterMap Event.frame? = frames ∧
        s₂.journal.toList =
          (if settings.hasSink then [.sink (.opened 2 h.sampleRate)] else []) ++
            (decodes decoder (.replicate 2304 0) frames).flatMap (fun x =>
              .decoded x.1 ::
                if settings.hasSink ∧ 0 < x.2.count then
                  [.sink (.block (x.2.output.toList.take (min (2 * x.2.count) 2304)).toArray)]
                else []) ∧
        s₂.frameIndex = frames.length := by
  obtain ⟨hunread, hlimit⟩ := unread_of_setUp hm hs
  obtain ⟨p, h, tags, synchronizer, hfirst, hs₁, hplace⟩ := exists_of_readHeaders_ok hunread hread
  have hat := Track.at?_of_firstFrame hfirst
  rw [hlimit] at hfirst
  obtain ⟨e, he, hl⟩ := Track.firstFrame_eq_ok_iff.mp hfirst
  cases hs
  -- Nothing has been played, and the sink has been opened if there is one.
  rw [openSink_eq] at hs₁
  have htrack : s₁.track? = some ⟨tags, h.clock, Track.locatorAt m.data.toList length p h⟩ := by
    rw [hs₁]
    rfl
  have hclosed : s₁.closed = false := by
    rw [hs₁]
  have hdecoder : s₁.decoder = decoder := by
    rw [hs₁]
  have houtput : s₁.output = .replicate outputSize 0 := by
    rw [hs₁]
  have hindex : s₁.frameIndex = 0 := by
    rw [hs₁]
  have houtlet : decide (s₁.outlet = .opened) = settings.hasSink := by
    rw [hs₁]
    cases settings.hasSink <;> rfl
  have hjournal : s₁.journal.toList =
      if settings.hasSink then [.sink (.opened channels h.sampleRate)] else [] := by
    rw [hs₁]
    cases settings.hasSink <;> rfl
  have hstanding : Standing m.data.toList length (Track.placeAt m.data.toList length p h)
      s₁.synchronizer := by
    rw [hs₁]
    exact hplace
  obtain ⟨s₂, hplay, hjournal₂, hindex₂⟩ := play_spec (by rw [htrack]; rfl) hclosed hstanding none
  rw [Track.frames_placeAt hat, hdecoder, houtput, houtlet] at hjournal₂
  rw [Track.frames_placeAt hat, hindex, Nat.zero_add] at hindex₂
  refine ⟨e, p, h, s₂, he, hl, ?_⟩
  have hq : (match s₁.locator? with
      | some (.summary _) => p + h.frameSize
      | _ => p) = Track.audioStart m.data.toList length p h := by
    rw [locator?, htrack, Option.map_some, Track.audioStart]
    cases Track.locatorAt m.data.toList length p h <;> rfl
  rw [hq]
  refine ⟨hplay, ?_, ?_, hindex₂⟩
  · rw [hjournal₂, List.filterMap_append, filterMap_events, hjournal]
    cases settings.hasSink <;> rfl
  · rw [hjournal₂, hjournal]
    rfl

theorem take_output_stamp {n : Nat} (stamp : Stamp) (frame : List UInt8) (output : Vector Int16 n)
    {mark : Int16} (H : stamp.markOf? frame = some mark) :
    let decoded := stamp.decode frame output
    decoded.output.toList.take (min (2 * decoded.count) n) =
      List.replicate (min (2 * decoded.count) n) mark := by
  simp only [Stamp.decode, H]
  apply List.ext_getElem
  · simp
  · intro i hi _
    rw [List.length_take] at hi
    simp only [List.getElem_take, Vector.getElem_toList, Vector.getElem_ofFn,
      List.getElem_replicate]
    exact if_pos (by omega)

/-- Junk, a frame, and the start of another one: the decoder is given the first frame only. It says
that two pairs came out, so the sink is given four of the samples that it wrote. -/
theorem play_refines_cut :
    let frame : List UInt8 := [0xFF, 0xF3, 0x14, 0x00] ++ List.replicate 20 0
    let m : Medium := ⟨(5 :: frame ++ frame.take 10).toArray, 0, .plain, {}, 0⟩
    ∃ s s₁ s₂ : Session Stamp,
      setUp (some (.ofMedium m none)) (some ⟨.call, 0, some 2, 7⟩) {} = .ok s ∧
        readHeaders s = .ok () s₁ ∧ play none s₁ = .ok .endOfStream s₂ ∧
        s₂.journal.toList =
          [.sink (.opened 2 24000), .decoded frame, .sink (.block #[7, 7, 7, 7])] := by
  intro frame m
  obtain ⟨s, hs⟩ : ∃ s : Session Stamp,
      setUp (some (.ofMedium m none)) (some ⟨.call, 0, some 2, 7⟩) {} = .ok s := ⟨_, rfl⟩
  obtain ⟨hunread, hlimit⟩ := unread_of_setUp Conduct.faultless_plain hs
  obtain ⟨h, hat⟩ : ∃ h, at? m.data.toList 1 = some h := ⟨_, rfl⟩
  have hsize : h.frameSize = 24 ∧ h.sampleRate = 24000 := by
    cases hat
    decide
  have hat' : at? m.data.toList 25 = some h := hat
  have hstart : Track.searchStart? m.data.toList m.cursor = some 0 := by decide
  have hfound : leftmost? m.data.toList 2048 0 = some (1, h) := by
    rw [leftmost?_succ_of_none (by decide), leftmost?_succ_of_some hat]
  obtain ⟨tags, synchronizer, hread, -⟩ := readHeaders_of_firstFrame hunread
    (by rw [hlimit]; exact Track.firstFrame_eq_ok_iff.mpr ⟨0, hstart, hfound⟩)
  obtain ⟨e, p, h', s₂, he, hl, hplay, -, hjournal, -⟩ :=
    play_refines Conduct.faultless_plain hs hread
  rw [hstart] at he
  cases he
  rw [hfound] at hl
  cases hl
  refine ⟨s, _, s₂, hs, hread, hplay, ?_⟩
  -- Without a length there is no summary.
  have hlocator : Track.locatorAt m.data.toList none 1 h = .live := rfl
  have hnone : framesAt m.data.toList 25 h = [] := framesAt_of_cut (by rw [hsize.1]; decide)
  have htwo : framesFrom m.data.toList 25 = [] := by rw [framesFrom_of_at? hat', hnone]
  have hone : framesFrom m.data.toList 1 = [frame] := by
    rw [framesFrom_of_at? hat, framesAt_of_fits (by rw [hsize.1]; decide), hsize.1, htwo]
    decide
  rw [hjournal, openSink_eq]
  simp only [locator?, track?, Option.map_some, hlocator, hone, hsize.2, decodes,
    List.flatMap_singleton]
  have hblock := take_output_stamp ⟨.call, 0, some 2, 7⟩ frame (.replicate 2304 0) rfl
  exact congrArg (fun samples => [Event.sink (.opened 2 24000), .decoded frame,
    .sink (.block samples.toArray)]) hblock

end MpegAudio.Session
