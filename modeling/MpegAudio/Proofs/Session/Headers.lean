import MpegAudio.Proofs.Track.FirstFrame
import MpegAudio.Session

/-!
# Reading the headers of a session

Reading the headers is a question about a byte string: is there a frame within the limit, and where
is the first one? A source that refuses nothing answers it the same way however it hands out its
bytes. No tag changes this, not even one that is cut off or that claims to go on beyond the end of
the data.
-/

namespace MpegAudio.Session

open Header Synchronizer

variable {δ : Type} {s : Session δ} {data : List UInt8} {length : Option Nat} {pos : Nat}

/-! ## What the operations leave alone -/

theorem tell_eq (s : Session δ) (event : Sink.Event) :
    s.tell event =
      { s with journal := s.journal ++ if s.outlet = .opened then #[.sink event] else #[] } := by
  obtain ⟨_, _, _, outlet, _⟩ := s
  cases outlet <;> simp [tell, note]

/-- Opening the sink changes nothing but the sink and the journal. Afterwards no sink waits. -/
theorem openSink_eq (s : Session δ) (sampleRate : Nat) :
    s.openSink sampleRate =
      { s with
        outlet := if s.outlet = .absent then .absent else .opened
        journal := s.journal ++
          if s.outlet = .waiting then #[.sink (.opened channels sampleRate)] else #[] } := by
  obtain ⟨_, _, _, outlet, _⟩ := s
  cases outlet <;> simp [openSink, tell, note]

@[simp] theorem synchronizer_openSink (s : Session δ) (sampleRate : Nat) :
    (s.openSink sampleRate).synchronizer = s.synchronizer := by
  rw [openSink_eq]

/-! ## The headers -/

/-- Nothing has been read yet from data that is to be read from `pos` on. -/
structure Unread (data : List UInt8) (length : Option Nat) (pos : Nat) (s : Session δ) : Prop where
  headers : s.headers = .unread
  fresh : Fresh data length pos s.synchronizer

theorem readHeaders_of_known (hknown : s.track?.isSome) : readHeaders s = .ok () s := by
  rw [readHeaders]
  rcases hheaders : s.headers with _ | error | track
  · simp [track?, hheaders] at hknown
  · simp [track?, hheaders] at hknown
  · rfl

theorem unread_of_setUp {m : Medium} (hm : m.conduct.Faultless) {decoder : δ}
    {settings : Settings} (hs : setUp (some (.ofMedium m length)) (some decoder) settings = .ok s) :
    Unread m.data.toList length m.cursor s ∧ s.searchLimit = settings.searchLimit := by
  cases hs
  exact ⟨⟨rfl, Source.at_ofMedium hm length, rfl, rfl⟩, rfl⟩

/-- **Reading the headers is decided by the data.** The first frame settles the clock and the way to
find times. Besides what is known then, only the sink and the state of the search change. -/
theorem readHeaders_spec (H : Unread data length pos s) :
    match Track.firstFrame data pos s.searchLimit with
    | .error count => ∃ synchronizer,
        readHeaders s =
          .error (.noFrame count)
            { s with synchronizer := synchronizer, headers := .failed (.noFrame count) }
    | .ok (p, h) => ∃ tags synchronizer,
        readHeaders s =
          .ok ()
            ({ s with
                synchronizer := synchronizer
                headers := .known ⟨tags, h.clock, Track.locatorAt data length p h⟩ }.openSink
              h.sampleRate) ∧
          synchronizer.frameStart = p ∧
          Standing data length (Track.placeAt data length p h) synchronizer := by
  have hread := Track.read_spec H.fresh s.searchLimit
  have hheaders := H.headers
  rcases hfirst : Track.firstFrame data pos s.searchLimit with count | ⟨p, h⟩
  · rw [hfirst] at hread
    obtain ⟨synchronizer, hread⟩ := hread
    rw [readHeaders, hheaders]
    simp only [hread]
    exact ⟨_, rfl⟩
  · rw [hfirst] at hread
    obtain ⟨tags, synchronizer, hread, hstart, hplace⟩ := hread
    refine ⟨tags, synchronizer, ?_, hstart, hplace⟩
    rw [readHeaders, hheaders]
    simp only [hread]
    rfl

/-- A first frame is all that it takes to read the headers. -/
theorem readHeaders_of_firstFrame {p : Nat} {h : Header} (H : Unread data length pos s)
    (hfirst : Track.firstFrame data pos s.searchLimit = .ok (p, h)) :
    ∃ tags synchronizer,
      readHeaders s =
        .ok ()
          ({ s with
              synchronizer := synchronizer
              headers := .known ⟨tags, h.clock, Track.locatorAt data length p h⟩ }.openSink
            h.sampleRate) ∧
        synchronizer.frameStart = p ∧
        Standing data length (Track.placeAt data length p h) synchronizer := by
  have hspec := readHeaders_spec H
  rw [hfirst] at hspec
  exact hspec

/-- Where the headers have been read, what they tell is what the first frame settles. -/
theorem exists_of_readHeaders_ok {s₁ : Session δ} (H : Unread data length pos s)
    (hread : readHeaders s = .ok () s₁) :
    ∃ p h tags synchronizer, Track.firstFrame data pos s.searchLimit = .ok (p, h) ∧
      s₁ = { s with
              synchronizer := synchronizer
              headers := .known ⟨tags, h.clock, Track.locatorAt data length p h⟩ }.openSink
            h.sampleRate ∧
      Standing data length (Track.placeAt data length p h) synchronizer := by
  rcases hfirst : Track.firstFrame data pos s.searchLimit with count | ⟨p, h⟩
  · have hspec := readHeaders_spec H
    rw [hfirst] at hspec
    obtain ⟨synchronizer, hspec⟩ := hspec
    rw [hread] at hspec
    cases hspec
  · obtain ⟨tags, synchronizer, hspec, -, hplace⟩ := readHeaders_of_firstFrame H hfirst
    rw [hread] at hspec
    cases hspec
    exact ⟨p, h, tags, synchronizer, rfl, rfl, hplace⟩

/-- **The headers are found when there is a frame to be found, at the leftmost place.** Let `e` be
the place where the search begins: the cursor, or the end that a tag at the cursor declares for
itself. Reading the headers succeeds when some position among the first `searchLimit` ones from `e`
on holds a header, and leads to the least of them. Otherwise the error tells how many positions the
data had room for. A tag that is cut off in its preamble leaves none, and no tag leads to any other
error. -/
theorem readHeaders_decides {m : Medium} (hm : m.conduct.Faultless) {decoder : δ}
    {settings : Settings} (hs : setUp (some (.ofMedium m length)) (some decoder) settings = .ok s) :
    match Track.searchStart? m.data.toList m.cursor with
    | none => ∃ s', readHeaders s = .error (.noFrame 0) s'
    | some e =>
      ((∃ s', readHeaders s = .ok () s') ↔
        ∃ p, e ≤ p ∧ p < e + settings.searchLimit ∧ (at? m.data.toList p).isSome) ∧
      (∀ s', readHeaders s = .ok () s' →
        IsLeast {p | e ≤ p ∧ p < e + settings.searchLimit ∧ (at? m.data.toList p).isSome}
          s'.synchronizer.frameStart) ∧
      ∀ error s', readHeaders s = .error error s' →
        error = .noFrame (min settings.searchLimit (m.data.size - e - 3)) := by
  obtain ⟨hunread, hlimit⟩ := unread_of_setUp hm hs
  have hread := readHeaders_spec hunread
  rw [hlimit] at hread
  rcases he : Track.searchStart? m.data.toList m.cursor with _ | e
  · rw [Track.firstFrame_of_cut he] at hread
    obtain ⟨synchronizer, hread⟩ := hread
    exact ⟨_, hread⟩
  · rw [Track.firstFrame_of_start he, Array.length_toList] at hread
    dsimp only
    rw [← isSome_leftmost?_iff]
    rcases hl : leftmost? m.data.toList settings.searchLimit e with _ | ⟨p, h⟩
    · rw [hl] at hread
      obtain ⟨synchronizer, hread⟩ := hread
      rw [hread]
      refine ⟨by simp, by simp, ?_⟩
      intro error s' hs'
      cases hs'
      rfl
    · rw [hl] at hread
      obtain ⟨tags, synchronizer, hread, hstart, -⟩ := hread
      rw [hread]
      refine ⟨by simp, ?_, by simp⟩
      intro s' hs'
      cases hs'
      rw [synchronizer_openSink, hstart]
      exact isLeast_of_leftmost? hl

/-- A tag of version 4 with a footer stands behind one byte. The header in the footer is passed over
with the tag, and the one behind it is found. -/
theorem readHeaders_decides_behind_footer :
    let tag : List UInt8 := [0x49, 0x44, 0x33, 4, 0, 0x10, 0, 0, 0, 2, 1, 2]
    let footer : List UInt8 := [0x33, 0x44, 0x49, 4, 0, 0x10, 0xFF, 0xFB, 0x90, 0x00]
    let m : Medium := ⟨(5 :: tag ++ footer ++ [0xFF, 0xFB, 0x90, 0x00]).toArray, 1, .plain, {}, 0⟩
    ∃ s s' : Session Unit, setUp (some (.ofMedium m none)) (some ()) {} = .ok s ∧
      readHeaders s = .ok () s' ∧ s'.synchronizer.frameStart = 23 := by
  intro tag footer m
  obtain ⟨s, hs⟩ : ∃ s, setUp (some (.ofMedium m none)) (some ()) {} = .ok s := ⟨_, rfl⟩
  have key := readHeaders_decides Conduct.faultless_plain hs
  have he : Track.searchStart? m.data.toList m.cursor = some 23 := by decide
  have hheader : (at? m.data.toList 23).isSome := by decide
  rw [he] at key
  obtain ⟨hiff, hleast, -⟩ := key
  obtain ⟨s', hs'⟩ := hiff.mpr ⟨23, le_rfl, by decide, hheader⟩
  obtain ⟨⟨hge, -⟩, hle⟩ := hleast s' hs'
  exact ⟨s, s', hs, hs', Nat.le_antisymm (hle ⟨le_rfl, by decide, hheader⟩) hge⟩

end MpegAudio.Session
