import MpegAudio.Proofs.Session.Ending

/-!
# What a session answers

Each operation on a session answers something, be it an error, and leaves a session behind. What can
be seen of a series of operations is the answers, what the decoder and the sink are given, and the
number of the next frame. Which operation gives frames to the decoder and which one changes that
number is settled here, whatever the source does.
-/

namespace MpegAudio.Session

/-- What an operation answers when it does not fail. -/
inductive Reply where
  | done
  | played (outcome : Outcome)
  | sought (actual : Duration)
  deriving DecidableEq, Repr

variable {δ : Type} {s : Session δ}

/-! ## Frames and numbers -/

@[simp] theorem frameIndex_tell (s : Session δ) (event : Sink.Event) :
    (s.tell event).frameIndex = s.frameIndex := by
  rw [tell_eq]

@[simp] theorem decoded_tell (s : Session δ) (event : Sink.Event) :
    (s.tell event).decoded = s.decoded := by
  rw [tell_eq, decoded, decoded]
  split <;> simp [Event.frame?]

theorem decoded_readHeaders (s : Session δ) : (left (readHeaders s)).decoded = s.decoded := by
  rw [readHeaders]
  split
  · rfl
  · rfl
  · split
    · rfl
    · rw [left, openSink_eq, decoded, decoded]
      split <;> simp [Event.frame?]

theorem frameIndex_readHeaders (s : Session δ) :
    (left (readHeaders s)).frameIndex = s.frameIndex := by
  rw [readHeaders]
  split
  · rfl
  · rfl
  · split
    · rfl
    · rw [left, openSink_eq]

/-- What a seek that succeeds leaves: the reader at the place of the time, nothing held, the number
of the frame found for it, and the sink told. -/
theorem exists_target_of_seekTo_ok {requested actual : Duration} {r : Session δ}
    (h : seekTo requested s = .ok actual r) :
    ∃ track target source, s.track? = some track ∧
      track.locator.target? requested.toMillis = some target ∧
      r = ({ s with
              synchronizer := { s.synchronizer with source := source }.release
              frameIndex := target.frame }.tell (.sought requested actual)) := by
  rw [seekTo] at h
  rcases htrack : s.track? with _ | track
  · simp only [htrack] at h
    cases h
  · simp only [htrack, Locator.seek] at h
    rcases htarget : track.locator.target? requested.toMillis with _ | target
    · simp only [htarget] at h
      cases h
    · simp only [htarget] at h
      rcases hseek : s.synchronizer.source.seek target.position with ⟨_, source⟩ | ⟨fault, source⟩
      · simp only [hseek] at h
        cases h
        exact ⟨track, target, source, rfl, htarget, rfl⟩
      · simp only [hseek] at h
        cases h

/-- A seek that fails leaves everything but the source as it was. -/
theorem exists_source_of_seekTo_error {requested : Duration} {error : Error} {r : Session δ}
    (h : seekTo requested s = .error error r) :
    ∃ source, r = { s with synchronizer := { s.synchronizer with source := source } } := by
  rw [seekTo] at h
  split at h
  · cases h
    exact ⟨s.synchronizer.source, rfl⟩
  · split at h
    · cases h
      exact ⟨_, rfl⟩
    · cases h

theorem seekTo_of_unknown (hunknown : s.track? = none) (requested : Duration) :
    seekTo requested s = .error .headersNotRead s := by
  rw [seekTo, hunknown]

theorem ne_unread_of_known (hknown : s.track?.isSome) : s.headers ≠ .unread := by
  intro hunread
  rw [track?, hunread] at hknown
  cases hknown

theorem decoded_seekTo (s : Session δ) (requested : Duration) :
    (left (seekTo requested s)).decoded = s.decoded := by
  rcases h : seekTo requested s with ⟨actual, r⟩ | ⟨error, r⟩
  · obtain ⟨_, _, _, -, -, hr⟩ := exists_target_of_seekTo_ok h
    rw [left, hr, decoded_tell]
    rfl
  · obtain ⟨_, hr⟩ := exists_source_of_seekTo_error h
    rw [left, hr]
    rfl

variable [Decoder δ]

@[simp] theorem decoded_playHeld (s : Session δ) :
    s.playHeld.decoded = s.decoded ++ [s.synchronizer.frame] := by
  rw [playHeld_eq, decoded, decoded]
  simp only [frameEvents, Array.toList_append, List.filterMap_append]
  split <;> rfl

theorem play_of_unknown (hunknown : s.track? = none) (limit : Option Nat) :
    play limit s = .error .headersNotRead s := by
  rw [play, hunknown]

theorem play_of_closed (hknown : s.track?.isSome) (hclosed : s.closed) (limit : Option Nat) :
    play limit s = .ok .endOfStream s := by
  obtain ⟨track, htrack⟩ := Option.isSome_iff_exists.mp hknown
  rw [play, htrack]
  simp only [if_pos hclosed]

/-- Playing leaves alone what is known of the stream, whether the session is closed and what has
become of the sink. -/
theorem playOn_keeps (limit : Option Nat) (s : Session δ) :
    (left (playOn limit s)).headers = s.headers ∧ (left (playOn limit s)).closed = s.closed ∧
      (left (playOn limit s)).outlet = s.outlet := by
  fun_induction playOn limit s with
  | case1 s => exact ⟨rfl, rfl, rfl⟩
  | case2 limit s hlimit fault x hx => exact ⟨rfl, rfl, rfl⟩
  | case3 limit s hlimit x hx => exact ⟨rfl, rfl, rfl⟩
  | case4 limit s hlimit x hx ih =>
      rw [playHeld_eq] at ih
      rw [playHeld_eq]
      exact ih

/-- Closing tells an open sink first and the decoder then. -/
theorem close_of_open (hopen : s.closed = false) :
    s.close =
      { s with
        closed := true
        decoder := Decoder.close s.decoder
        journal := s.journal ++
          (if s.outlet = .opened then #[.sink .closed] else #[]) ++ #[.decoderClosed] } := by
  rw [close, if_neg (by rw [hopen]; decide), tell_eq, note]
  simp only [Array.push_eq_append]

theorem close_of_closed (hclosed : s.closed) : s.close = s := by
  rw [close, if_pos hclosed]

@[simp] theorem headers_close (s : Session δ) : s.close.headers = s.headers := by
  by_cases hclosed : s.closed
  · rw [close_of_closed hclosed]
  · rw [close_of_open (by simpa using hclosed)]

@[simp] theorem frameIndex_close (s : Session δ) : s.close.frameIndex = s.frameIndex := by
  by_cases hclosed : s.closed
  · rw [close_of_closed hclosed]
  · rw [close_of_open (by simpa using hclosed)]

@[simp] theorem decoded_close (s : Session δ) : s.close.decoded = s.decoded := by
  by_cases hclosed : s.closed
  · rw [close_of_closed hclosed]
  · rw [close_of_open (by simpa using hclosed), decoded, decoded]
    split <;> simp [Event.frame?]

/-! ## Answers -/

/-- Any operation as a step with an answer. -/
def respond : Operation → Action δ Reply
  | .readHeaders => (fun _ => .done) <$> readHeaders
  | .play limit => .played <$> play limit
  | .seekTo requested => .sought <$> seekTo requested
  | .close => fun s => .ok .done s.close

def answer (s : Session δ) (op : Operation) : Except Error Reply :=
  match respond op s with
  | .ok reply _ => .ok reply
  | .error error _ => .error error

/-- What the operations of a series answer, one after another. -/
def answers (s : Session δ) : List Operation → List (Except Error Reply)
  | [] => []
  | op :: ops => s.answer op :: (s.perform op).answers ops

omit [Decoder δ] in
theorem left_map {α β : Type} (f : α → β) (act : Action δ α) (s : Session δ) :
    left ((f <$> act) s) = left (act s) := by
  simp only [Functor.map, EStateM.map]
  cases act s <;> rfl

/-- An operation leaves behind what a series of operations goes on with. -/
theorem left_respond (s : Session δ) (op : Operation) : left (respond op s) = s.perform op := by
  cases op with
  | readHeaders => exact left_map _ _ s
  | play limit => exact left_map _ _ s
  | seekTo requested => exact left_map _ _ s
  | close => rfl

omit [Decoder δ] in
theorem exists_of_map_ok {α β : Type} {f : α → β} {act : Action δ α} {b : β} {s' : Session δ}
    (h : (f <$> act) s = .ok b s') : ∃ a, act s = .ok a s' ∧ f a = b := by
  simp only [Functor.map, EStateM.map] at h
  rcases hact : act s with ⟨a, t⟩ | ⟨error, t⟩
  · rw [hact] at h
    cases h
    exact ⟨a, rfl, rfl⟩
  · rw [hact] at h
    cases h

theorem exists_seekTo_of_answer {op : Operation} {actual : Duration}
    (h : s.answer op = .ok (.sought actual)) :
    ∃ t r, op = .seekTo t ∧ seekTo t s = .ok actual r := by
  obtain ⟨r, hrespond⟩ : ∃ r, respond op s = .ok (.sought actual) r := by
    rw [answer] at h
    rcases hrespond : respond op s with ⟨reply, r⟩ | ⟨error, r⟩
    · rw [hrespond] at h
      cases h
      exact ⟨r, rfl⟩
    · rw [hrespond] at h
      cases h
  cases op with
  | readHeaders =>
      obtain ⟨_, -, hdone⟩ := exists_of_map_ok hrespond
      cases hdone
  | play limit =>
      obtain ⟨_, -, hplayed⟩ := exists_of_map_ok hrespond
      cases hplayed
  | seekTo requested =>
      obtain ⟨_, hseek, hsought⟩ := exists_of_map_ok hrespond
      cases hsought
      exact ⟨requested, r, rfl, hseek⟩
  | close => cases hrespond

end MpegAudio.Session
