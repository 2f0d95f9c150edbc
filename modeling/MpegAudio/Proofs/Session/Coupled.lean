import MpegAudio.Proofs.Session.Answers
import MpegAudio.Proofs.Track.Coupled

/-!
# Two sessions side by side

Two sessions over coupled sources that agree in what they know of the stream, in the number of the
next frame and in being closed or not answer every operation alike. What is asked of a relation
between them is no more than that the small steps keep it up, of which the operations are made. So
it may relate the decoders and the sinks as closely as is wanted, or not at all.
-/

namespace MpegAudio.Session

open Synchronizer

/-- How fast the frames of the stream pass, and how times are found in it. -/
def pace? {δ : Type} (s : Session δ) : Option (Clock × Locator) :=
  s.track?.map fun track => (track.clock, track.locator)

variable {δ δ' : Type} [Decoder δ] [Decoder δ']

/-- A relation between sessions that all the small steps keep up, over sources related by `R`. -/
structure Coupling (R : Source → Source → Prop) (Q : Session δ → Session δ' → Prop) : Prop where
  synchronizer : ∀ {s t}, Q s t → s.synchronizer.Coupled R t.synchronizer
  pace_eq : ∀ {s t}, Q s t → t.pace? = s.pace?
  closed_eq : ∀ {s t}, Q s t → t.closed = s.closed
  readHeaders : ∀ {s t}, Q s t → Matched Q (readHeaders s) (readHeaders t)
  move : ∀ {s t x y}, Q s t → Synchronizer.Coupled R x y →
    Q { s with synchronizer := x } { t with synchronizer := y }
  playHeld : ∀ {s t}, Q s t → Q s.playHeld t.playHeld
  sought : ∀ {s t x y}, Q s t → Synchronizer.Coupled R x y → ∀ frame event,
    Q ({ s with synchronizer := x, frameIndex := frame }.tell event)
      ({ t with synchronizer := y, frameIndex := frame }.tell event)
  close : ∀ {s t}, Q s t → Q s.close t.close

variable {R : Source → Source → Prop} {Q : Session δ → Session δ' → Prop} {s : Session δ}
  {t : Session δ'}

/-! ## What decides the answers -/

/-- The sessions agree in all that decides what they answer once the headers have been read. -/
structure Level (R : Source → Source → Prop) (s : Session δ) (t : Session δ') : Prop where
  synchronizer : s.synchronizer.Coupled R t.synchronizer
  pace_eq : t.pace? = s.pace?
  closed_eq : t.closed = s.closed
  frameIndex_eq : t.frameIndex = s.frameIndex

omit [Decoder δ] [Decoder δ'] in
theorem Level.move (L : Level R s t) {x y : Synchronizer} (h : x.Coupled R y) :
    Level R { s with synchronizer := x } { t with synchronizer := y } :=
  ⟨h, L.pace_eq, L.closed_eq, L.frameIndex_eq⟩

theorem Level.playHeld (L : Level R s t) : Level R s.playHeld t.playHeld := by
  rw [playHeld_eq, playHeld_eq]
  exact ⟨coupled_release L.synchronizer.source, L.pace_eq, L.closed_eq,
    congrArg (· + 1) L.frameIndex_eq⟩

omit [Decoder δ] [Decoder δ'] in
theorem Level.sought (L : Level R s t) {x y : Synchronizer} (h : x.Coupled R y) (frame : Nat)
    (event : Sink.Event) :
    Level R ({ s with synchronizer := x, frameIndex := frame }.tell event)
      ({ t with synchronizer := y, frameIndex := frame }.tell event) := by
  rw [tell_eq, tell_eq]
  exact ⟨h, L.pace_eq, L.closed_eq, rfl⟩

theorem Level.close (L : Level R s t) : Level R s.close t.close := by
  have hclosed := L.closed_eq
  by_cases hs : s.closed
  · rw [close_of_closed hs, close_of_closed (hclosed.trans hs)]
    exact L
  · have hs' : s.closed = false := by simpa using hs
    rw [close_of_open hs', close_of_open (hclosed.trans hs')]
    exact ⟨L.synchronizer, L.pace_eq, rfl, L.frameIndex_eq⟩

/-! ## The same session over another source -/

/-- The same session, but for its reader, which agrees with the other one. -/
def Beside (R : Source → Source → Prop) (s t : Session δ) : Prop :=
  ∃ x, s.synchronizer.Coupled R x ∧ t = { s with synchronizer := x }

/-- **Over coupled sources a session does the same**, to its decoder and its sink too. -/
theorem coupling_beside (H : Source.Coupling R) : Coupling R (Beside R (δ := δ)) where
  synchronizer := by
    rintro s _ ⟨x, hx, rfl⟩
    exact hx
  pace_eq := by
    rintro s _ ⟨x, -, rfl⟩
    rfl
  closed_eq := by
    rintro s _ ⟨x, -, rfl⟩
    rfl
  readHeaders := by
    rintro s _ ⟨x, hx, rfl⟩
    rw [readHeaders, readHeaders]
    rcases hheaders : s.headers with _ | error | track
    · obtain ⟨track, y, z, hy, hz, hyz⟩ | ⟨error, y, z, hy, hz, hyz⟩ :=
        Track.read_coupled H hx s.searchLimit
      · simp only [hy, hz, openSink_eq]
        exact .ok () ⟨z, hyz, rfl⟩
      · simp only [hy, hz]
        exact .error error ⟨z, hyz, rfl⟩
    · exact .error error ⟨x, hx, by rw [← hheaders]⟩
    · exact .ok () ⟨x, hx, by rw [← hheaders]⟩
  move := by
    rintro s _ y z ⟨x, -, rfl⟩ hyz
    exact ⟨z, hyz, rfl⟩
  playHeld := by
    rintro s _ ⟨x, hx, rfl⟩
    refine ⟨x.release, ?_, ?_⟩
    · rw [synchronizer_playHeld]
      exact coupled_release hx.source
    · have hframe : x.frame = s.synchronizer.frame := by rw [frame, frame, hx.held_eq]
      rw [playHeld_eq, playHeld_eq]
      simp only [hframe]
  sought := by
    rintro s _ y z ⟨x, -, rfl⟩ hyz frame event
    rw [tell_eq, tell_eq]
    exact ⟨z, hyz, rfl⟩
  close := by
    rintro s _ ⟨x, hx, rfl⟩
    rw [close, close]
    by_cases hclosed : s.closed
    · simp only [if_pos hclosed]
      exact ⟨x, hx, rfl⟩
    · simp only [if_neg hclosed, tell_eq]
      exact ⟨x, hx, rfl⟩

/-! ## Operations -/

variable (H : Source.Coupling R) (K : Coupling R Q)

include H K

/-- The loop runs alike: both readers fill the same frame, or neither fills one. -/
theorem playOn_coupled (limit : Option Nat) (s : Session δ) (t : Session δ') (h : Q s t) :
    Matched Q (playOn limit s) (playOn limit t) := by
  fun_induction playOn limit s generalizing t with
  | case1 s =>
      rw [playOn_zero]
      exact .ok _ h
  | case2 limit s hlimit fault x hx =>
      have hfill := fill_coupled H (K.synchronizer h)
      rw [hx] at hfill
      obtain ⟨y, hy, hxy⟩ := hfill.exists_error
      rw [playOn_of_fault hlimit hy]
      exact .error _ (K.move h hxy)
  | case3 limit s hlimit x hx =>
      have hfill := fill_coupled H (K.synchronizer h)
      rw [hx] at hfill
      obtain ⟨y, hy, hxy⟩ := hfill.exists_ok
      rw [playOn_of_end hlimit hy]
      exact .ok _ (K.move h hxy)
  | case4 limit s hlimit x hx ih =>
      have hfill := fill_coupled H (K.synchronizer h)
      rw [hx] at hfill
      obtain ⟨y, hy, hxy⟩ := hfill.exists_ok
      rw [playOn_of_frame hlimit hy]
      exact ih _ (K.playHeld (K.move h hxy))

theorem play_coupled (h : Q s t) (limit : Option Nat) :
    Matched Q (play limit s) (play limit t) := by
  have hpace := K.pace_eq h
  rw [play, play]
  rcases hs : s.track? with _ | track <;> rcases ht : t.track? with _ | track' <;>
    simp only [pace?, hs, ht, Option.map_none, Option.map_some, reduceCtorEq] at hpace
  · exact .error _ h
  · simp only [K.closed_eq h]
    by_cases hclosed : s.closed
    · simp only [if_pos hclosed]
      exact .ok _ h
    · simp only [if_neg hclosed]
      exact playOn_coupled H K limit s t h

theorem seekTo_coupled (h : Q s t) (requested : Duration) :
    Matched Q (seekTo requested s) (seekTo requested t) := by
  have hpace := K.pace_eq h
  have hsync := K.synchronizer h
  rw [seekTo, seekTo]
  rcases hs : s.track? with _ | track <;> rcases ht : t.track? with _ | track' <;>
    simp only [pace?, hs, ht, Option.map_none, Option.map_some, reduceCtorEq, Option.some.injEq,
      Prod.mk.injEq] at hpace
  · exact .error _ h
  · obtain ⟨hclock, hlocator⟩ := hpace
    simp only [Locator.seek, hclock, hlocator]
    rcases track.locator.target? requested.toMillis with _ | target
    · refine .error _ (K.move h ?_)
      exact hsync
    · obtain ⟨_, x, y, hx, hy, hxy⟩ | ⟨fault, x, y, hx, hy, hxy⟩ :=
        H.seek hsync.source target.position
      · simp only [hx, hy]
        exact .ok _ (K.sought h (coupled_release hxy) _ _)
      · simp only [hx, hy]
        exact .error _ (K.move h ⟨hxy, hsync.window_eq, hsync.held_eq, hsync.frameStart_eq⟩)

/-- **Coupled sessions answer alike**, and stay coupled. -/
theorem perform_coupled (h : Q s t) (op : Operation) :
    t.answer op = s.answer op ∧ Q (s.perform op) (t.perform op) := by
  have hmatched : Matched Q (respond op s) (respond op t) := by
    cases op with
    | readHeaders => exact (K.readHeaders h).map _
    | play limit => exact (play_coupled H K h limit).map _
    | seekTo requested => exact (seekTo_coupled H K h requested).map _
    | close => exact .ok _ (K.close h)
  rw [← left_respond, ← left_respond, answer, answer]
  obtain ⟨reply, s', t', hs, ht, h'⟩ | ⟨error, s', t', hs, ht, h'⟩ := hmatched
  · rw [hs, ht]
    exact ⟨rfl, h'⟩
  · rw [hs, ht]
    exact ⟨rfl, h'⟩

/-- **So they do whatever series of operations is asked of both.** -/
theorem run_coupled (h : Q s t) (ops : List Operation) :
    t.answers ops = s.answers ops ∧ Q (s.run ops) (t.run ops) := by
  induction ops generalizing s t with
  | nil => exact ⟨rfl, h⟩
  | cons op ops ih =>
      obtain ⟨hanswer, hnext⟩ := perform_coupled H K h op
      obtain ⟨hanswers, hlast⟩ := ih hnext
      exact ⟨by rw [answers, answers, hanswer, hanswers], hlast⟩

end MpegAudio.Session
