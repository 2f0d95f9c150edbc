import MpegAudio.Decoder.Stamp
import MpegAudio.Medium.Schedule
import MpegAudio.Proofs.Session.Lifecycle

/-!
# The headers are read once

Reading the headers succeeds or fails for good. Whichever it is, it comes out the same ever after,
and without a look at the source: a fault that has passed meanwhile makes no difference. Until the
headers have been read with success nothing is set up, no time is known and nothing reaches the
decoder or a sink.

The decoder is closed once, at the end at the latest, and is given no frame after that. A sink is
opened once at most and hears no audio after the session was closed.

All of it follows from what a single operation can do, which is said once. It is said of the journal,
and the journal leaves nothing out: the decoder has been through what stands in it and nothing else.
-/

namespace MpegAudio.Session

variable {δ : Type} {s s' : Session δ}

/-! ## The outcome stays -/

theorem readHeaders_of_failed {error : Error} (hfailed : s.headers = .failed error) :
    readHeaders s = .error error s := by
  simp only [readHeaders, hfailed]

theorem ne_unread_of_failed {error : Error} (hfailed : s.headers = .failed error) :
    s.headers ≠ .unread := by
  rw [hfailed]
  rintro ⟨⟩

theorem headers_of_readHeaders (s : Session δ) :
    match readHeaders s with
    | .ok () s' => s'.track?.isSome
    | .error error s' => s'.headers = .failed error := by
  rcases hheaders : s.headers with _ | error | track
  · rw [readHeaders, hheaders]
    rcases hread : Track.read s.searchLimit s.synchronizer with ⟨track, x⟩ | ⟨error, x⟩
    · simp only [openSink_eq, track?, Option.isSome_some]
    · rfl
  · rw [readHeaders_of_failed hheaders]
    exact hheaders
  · have hknown : s.track?.isSome := by simp only [track?, hheaders, Option.isSome_some]
    rw [readHeaders_of_known hknown]
    exact hknown

/-! ## What an operation can do -/

/-- The event gives the decoder a frame or the sink samples. -/
def Event.IsAudio : Event → Prop
  | .decoded _ | .sink (.block _) => True
  | .decoderClosed | .sink (.opened _ _) | .sink (.sought _ _) | .sink .closed => False

def Event.isOpening : Event → Bool
  | .sink (.opened _ _) => true
  | .decoded _ | .decoderClosed | .sink (.block _) | .sink (.sought _ _) | .sink .closed => false

/-- The event opens the sink or tells it of a change of position. -/
def Event.IsNotice : Event → Prop
  | .sink (.opened _ _) | .sink (.sought _ _) => True
  | .decoded _ | .decoderClosed | .sink (.block _) | .sink .closed => False

/-- What is written to the journal when a session is closed. -/
def closing (s : Session δ) : List Event :=
  (if s.outlet = .opened then [.sink .closed] else []) ++ [.decoderClosed]

/-- What can come of one operation: what becomes of the headers, of the sink and of the session, and
what is written to the journal. -/
inductive Deed (s s' : Session δ) : Operation → List Event → Prop where
  | idle {op : Operation} (headers : s'.headers = s.headers) (outlet : s'.outlet = s.outlet)
      (closed : s'.closed = s.closed) : Deed s s' op []
  | settled (unread : s.headers = .unread) (outlet : s'.outlet = s.outlet)
      (closed : s'.closed = s.closed) : Deed s s' .readHeaders []
  | opened {rate : Nat} (unread : s.headers = .unread) (waiting : s.outlet = .waiting)
      (known : s'.track?.isSome) (outlet : s'.outlet = .opened) (closed : s'.closed = s.closed) :
      Deed s s' .readHeaders [.sink (.opened channels rate)]
  | played {limit : Option Nat} {news : List Event} (known : s.track?.isSome)
      (lively : s.closed = false) (headers : s'.headers = s.headers)
      (outlet : s'.outlet = s.outlet) (closed : s'.closed = s.closed)
      (audio : ∀ e ∈ news, e.IsAudio) : Deed s s' (.play limit) news
  | sought {requested actual : Duration} (known : s.track?.isSome)
      (headers : s'.headers = s.headers) (outlet : s'.outlet = s.outlet)
      (closed : s'.closed = s.closed) :
      Deed s s' (.seekTo requested) [.sink (.sought requested actual)]
  | closed (lively : s.closed = false) (headers : s'.headers = s.headers)
      (outlet : s'.outlet = s.outlet) (closed : s'.closed) : Deed s s' .close s.closing

variable [Decoder δ]

/-- The decoder with its buffer after an event. -/
def through (d : δ × Vector Int16 outputSize) : Event → δ × Vector Int16 outputSize
  | .decoded frame =>
    let decoded := Decoder.decode d.1 frame d.2
    (decoded.decoder, decoded.output)
  | .decoderClosed => (Decoder.close d.1, d.2)
  | .sink _ => d

/-- What was written to the journal in between, and that the decoder has been through just that. -/
structure Wrote (s s' : Session δ) (news : List Event) : Prop where
  journal : s'.journal.toList = s.journal.toList ++ news
  decoder : (s'.decoder, s'.output) = news.foldl through (s.decoder, s.output)

theorem wrote_nil (hjournal : s'.journal = s.journal) (hdecoder : s'.decoder = s.decoder)
    (houtput : s'.output = s.output) : Wrote s s' [] :=
  ⟨by rw [hjournal, List.append_nil], by rw [hdecoder, houtput]; rfl⟩

theorem Wrote.trans {s'' : Session δ} {news news' : List Event} (H : Wrote s s' news)
    (H' : Wrote s' s'' news') : Wrote s s'' (news ++ news') :=
  ⟨by rw [H'.journal, H.journal, List.append_assoc],
    by rw [H'.decoder, H.decoder, List.foldl_append]⟩

theorem deed_readHeaders (s : Session δ) :
    ∃ news, Deed s (left (readHeaders s)) .readHeaders news ∧
      Wrote s (left (readHeaders s)) news := by
  rcases hheaders : s.headers with _ | error | track
  · rcases hread : Track.read s.searchLimit s.synchronizer with ⟨track, x⟩ | ⟨error, x⟩
    · have hs : left (readHeaders s) =
          { s with synchronizer := x, headers := .known track }.openSink track.clock.sampleRate := by
        simp only [readHeaders, hheaders, hread, left]
      rw [hs, openSink_eq]
      cases houtlet : s.outlet with
      | absent => exact ⟨[], .settled hheaders (by simp [houtlet]) rfl, by simp, rfl⟩
      | waiting =>
          exact ⟨[.sink (.opened channels track.clock.sampleRate)],
            .opened hheaders houtlet rfl (by simp) rfl, by simp, rfl⟩
      | opened => exact ⟨[], .settled hheaders (by simp [houtlet]) rfl, by simp, rfl⟩
    · have hs : left (readHeaders s) = { s with synchronizer := x, headers := .failed error } := by
        simp only [readHeaders, hheaders, hread, left]
      rw [hs]
      exact ⟨[], .settled hheaders rfl rfl, wrote_nil rfl rfl rfl⟩
  · rw [readHeaders_of_failed hheaders]
    exact ⟨[], .idle rfl rfl rfl, wrote_nil rfl rfl rfl⟩
  · rw [readHeaders_of_known (by simp only [track?, hheaders, Option.isSome_some])]
    exact ⟨[], .idle rfl rfl rfl, wrote_nil rfl rfl rfl⟩

theorem deed_seekTo (s : Session δ) (requested : Duration) :
    ∃ news, Deed s (left (seekTo requested s)) (.seekTo requested) news ∧
      Wrote s (left (seekTo requested s)) news := by
  rcases hseek : seekTo requested s with ⟨actual, r⟩ | ⟨error, r⟩
  · obtain ⟨track, target, source, htrack, -, rfl⟩ := exists_target_of_seekTo_ok hseek
    have hknown : s.track?.isSome := by rw [htrack]; rfl
    rw [left, tell_eq]
    by_cases hopened : s.outlet = .opened
    · exact ⟨[.sink (.sought requested actual)], .sought hknown rfl rfl rfl, by simp [hopened], rfl⟩
    · exact ⟨[], .idle rfl rfl rfl, by simp [hopened], rfl⟩
  · obtain ⟨source, rfl⟩ := exists_source_of_seekTo_error hseek
    exact ⟨[], .idle rfl rfl rfl, wrote_nil rfl rfl rfl⟩

omit [Decoder δ] in
theorem isAudio_of_mem_frameEvents {isOpen : Bool} {frame : List UInt8}
    {decoded : Decoded δ outputSize} {e : Event} (he : e ∈ frameEvents isOpen frame decoded) :
    e.IsAudio := by
  rw [frameEvents, List.mem_cons] at he
  rcases he with rfl | he
  · exact trivial
  · split at he
    · rw [List.mem_singleton] at he
      subst he
      exact trivial
    · cases he

theorem wrote_playHeld (s : Session δ) :
    ∃ news, Wrote s s.playHeld news ∧ ∀ e ∈ news, e.IsAudio := by
  rw [playHeld_eq]
  refine ⟨_, ⟨Array.toList_append, ?_⟩, fun e he => isAudio_of_mem_frameEvents he⟩
  rw [frameEvents]
  split <;> rfl

theorem wrote_playOn (limit : Option Nat) (s : Session δ) :
    ∃ news, Wrote s (left (playOn limit s)) news ∧ ∀ e ∈ news, e.IsAudio := by
  fun_induction playOn limit s with
  | case1 s => exact ⟨[], wrote_nil rfl rfl rfl, List.forall_mem_nil _⟩
  | case2 limit s hlimit fault x hx => exact ⟨[], wrote_nil rfl rfl rfl, List.forall_mem_nil _⟩
  | case3 limit s hlimit x hx => exact ⟨[], wrote_nil rfl rfl rfl, List.forall_mem_nil _⟩
  | case4 limit s hlimit x hx ih =>
      obtain ⟨first, hfirst, haudio⟩ := wrote_playHeld { s with synchronizer := x }
      obtain ⟨news, hnews, haudio'⟩ := ih
      have hstart : Wrote s { s with synchronizer := x } [] := wrote_nil rfl rfl rfl
      refine ⟨first ++ news, (hstart.trans hfirst).trans hnews, fun e he => ?_⟩
      rcases List.mem_append.mp he with he | he
      · exact haudio e he
      · exact haudio' e he

theorem deed_play (s : Session δ) (limit : Option Nat) :
    ∃ news, Deed s (left (play limit s)) (.play limit) news ∧
      Wrote s (left (play limit s)) news := by
  by_cases hknown : s.track?.isSome
  · cases hclosed : s.closed with
    | true =>
        rw [play_of_closed hknown hclosed]
        exact ⟨[], .idle rfl rfl rfl, wrote_nil rfl rfl rfl⟩
    | false =>
        rw [play_eq_playOn hknown hclosed]
        obtain ⟨hheaders, hclosed', houtlet⟩ := playOn_keeps limit s
        obtain ⟨news, hwrote, haudio⟩ := wrote_playOn limit s
        exact ⟨news, .played hknown hclosed hheaders houtlet hclosed' haudio, hwrote⟩
  · rw [play_of_unknown (by simpa using hknown)]
    exact ⟨[], .idle rfl rfl rfl, wrote_nil rfl rfl rfl⟩

theorem deed_close (s : Session δ) :
    ∃ news, Deed s s.close .close news ∧ Wrote s s.close news := by
  cases hclosed : s.closed with
  | true =>
      rw [close_of_closed hclosed]
      exact ⟨[], .idle rfl rfl rfl, wrote_nil rfl rfl rfl⟩
  | false =>
      rw [close_of_open hclosed]
      refine ⟨s.closing, .closed hclosed rfl rfl rfl, ?_, ?_⟩
      · rw [closing]
        split <;> simp
      · rw [closing]
        split <;> rfl

/-- **Every operation does one of these things.** -/
theorem exists_deed (s : Session δ) (op : Operation) :
    ∃ news, Deed s (s.perform op) op news ∧ Wrote s (s.perform op) news := by
  cases op with
  | readHeaders => exact deed_readHeaders s
  | play limit => exact deed_play s limit
  | seekTo requested => exact deed_seekTo s requested
  | close => exact deed_close s

/-- A series of operations writes all that the decoder goes through. -/
theorem exists_wrote (s : Session δ) (ops : List Operation) :
    ∃ news, Wrote s (s.run ops) news := by
  induction ops generalizing s with
  | nil => exact ⟨[], wrote_nil rfl rfl rfl⟩
  | cons op ops ih =>
      obtain ⟨first, -, hfirst⟩ := exists_deed s op
      obtain ⟨news, hnews⟩ := ih (s.perform op)
      exact ⟨first ++ news, hfirst.trans hnews⟩

/-! ## What the deeds keep up -/

omit [Decoder δ] in
theorem Deed.headers_eq {op : Operation} {news : List Event} (H : Deed s s' op news)
    (hread : s.headers ≠ .unread) : s'.headers = s.headers := by
  cases H with
  | idle headers _ _ => exact headers
  | settled unread _ _ => exact absurd unread hread
  | opened unread _ _ _ _ => exact absurd unread hread
  | played _ _ headers _ _ _ => exact headers
  | sought _ headers _ _ => exact headers
  | closed _ headers _ _ => exact headers

omit [Decoder δ] in
theorem Deed.closed_eq {op : Operation} {news : List Event} (H : Deed s s' op news)
    (hop : op ≠ .close) : s'.closed = s.closed := by
  cases H with
  | idle _ _ closed => exact closed
  | settled _ _ closed => exact closed
  | opened _ _ _ _ closed => exact closed
  | played _ _ _ _ closed _ => exact closed
  | sought _ _ _ closed => exact closed
  | closed _ _ _ _ => exact absurd rfl hop

theorem headers_run (hread : s.headers ≠ .unread) (ops : List Operation) :
    (s.run ops).headers = s.headers := by
  induction ops generalizing s with
  | nil => rfl
  | cons op ops ih =>
      obtain ⟨news, hdeed, -⟩ := exists_deed s op
      have hsame := hdeed.headers_eq hread
      exact (ih (hsame ▸ hread)).trans hsame

theorem closed_run {ops : List Operation} (hops : .close ∉ ops) :
    (s.run ops).closed = s.closed := by
  induction ops generalizing s with
  | nil => rfl
  | cons op ops ih =>
      rw [List.mem_cons, not_or] at hops
      obtain ⟨news, hdeed, -⟩ := exists_deed s op
      exact (ih hops.2).trans (hdeed.closed_eq (Ne.symm hops.1))

/-- **How reading the headers comes out is how it comes out ever after.** Neither the source nor
anything else is changed by asking again, and without headers nothing is played or sought. -/
theorem readHeaders_run (s : Session δ) (between : List Operation) :
    match readHeaders s with
    | .ok () s' => readHeaders (s'.run between) = .ok () (s'.run between)
    | .error error s' =>
      readHeaders (s'.run between) = .error error (s'.run between) ∧
        (∀ limit, play limit (s'.run between) = .error .headersNotRead (s'.run between)) ∧
        ∀ requested, seekTo requested (s'.run between) = .error .headersNotRead (s'.run between) := by
  have hsettled := headers_of_readHeaders s
  rcases hr : readHeaders s with ⟨_, s'⟩ | ⟨error, s'⟩ <;> rw [hr] at hsettled
  · apply readHeaders_of_known
    rw [track?, headers_run (ne_unread_of_known hsettled)]
    exact hsettled
  · have hheaders : (s'.run between).headers = .failed error := by
      rw [headers_run (ne_unread_of_failed hsettled), hsettled]
    have hunknown : (s'.run between).track? = none := by rw [track?, hheaders]
    exact ⟨readHeaders_of_failed hheaders, play_of_unknown hunknown, seekTo_of_unknown hunknown⟩

/-- The journal and the sink agree. Before the headers are known no sink is open, and nothing has
happened but, maybe, the closing of the decoder, which happens when the session is closed. -/
structure Orderly (s : Session δ) : Prop where
  openings : s.journal.toList.countP Event.isOpening = if s.outlet = .opened then 1 else 0
  closings : s.journal.toList.count .decoderClosed = if s.closed then 1 else 0
  untouched : s.track? = none → s.outlet ≠ .opened ∧ ∀ e ∈ s.journal.toList, e = .decoderClosed

omit [Decoder δ] in
/-- Of audio nothing is an opening or the closing of the decoder. -/
theorem count_of_isAudio {news : List Event} (haudio : ∀ e ∈ news, e.IsAudio) :
    news.countP Event.isOpening = 0 ∧ news.count .decoderClosed = 0 := by
  refine ⟨List.countP_eq_zero.mpr fun e he => ?_, List.count_eq_zero.mpr fun h => haudio _ h⟩
  have h := haudio e he
  cases e with
  | decoded frame => exact Bool.false_ne_true
  | decoderClosed => exact h.elim
  | sink event => cases event <;> first | exact Bool.false_ne_true | exact h.elim

omit [Decoder δ] in
theorem count_closing (s : Session δ) : s.closing.count .decoderClosed = 1 := by
  rw [closing]
  split <;> rfl

omit [Decoder δ] in
theorem Orderly.step (H : Orderly s) {op : Operation} {news : List Event}
    (hdeed : Deed s s' op news) (hjournal : s'.journal.toList = s.journal.toList ++ news) :
    Orderly s' := by
  obtain ⟨hopenings, hclosings, huntouched⟩ := H
  cases hdeed with
  | idle headers outlet closed =>
      rw [List.append_nil] at hjournal
      refine ⟨?_, ?_, ?_⟩
      · rw [hjournal, outlet, hopenings]
      · rw [hjournal, closed, hclosings]
      · rw [hjournal, outlet, track?, headers]
        exact huntouched
  | settled unread outlet closed =>
      rw [List.append_nil] at hjournal
      refine ⟨?_, ?_, fun _ => ?_⟩
      · rw [hjournal, outlet, hopenings]
      · rw [hjournal, closed, hclosings]
      · rw [hjournal, outlet]
        exact huntouched (by rw [track?, unread])
  | opened unread waiting known outlet closed =>
      refine ⟨?_, ?_, fun hunknown => ?_⟩
      · rw [hjournal, outlet, List.countP_append, hopenings, waiting]
        rfl
      · rw [hjournal, closed, List.count_append, hclosings]
        simp
      · rw [hunknown] at known
        cases known
  | played known _ headers outlet closed audio =>
      obtain ⟨hnone, hnone'⟩ := count_of_isAudio audio
      refine ⟨?_, ?_, fun hunknown => ?_⟩
      · rw [hjournal, outlet, List.countP_append, hopenings, hnone, Nat.add_zero]
      · rw [hjournal, closed, List.count_append, hclosings, hnone', Nat.add_zero]
      · rw [track?, headers, ← track?] at hunknown
        rw [hunknown] at known
        cases known
  | sought known headers outlet closed =>
      refine ⟨?_, ?_, fun hunknown => ?_⟩
      · rw [hjournal, outlet, List.countP_append, hopenings]
        rfl
      · rw [hjournal, closed, List.count_append, hclosings]
        simp
      · rw [track?, headers, ← track?] at hunknown
        rw [hunknown] at known
        cases known
  | closed lively headers outlet closed =>
      refine ⟨?_, ?_, fun hunknown => ?_⟩
      · rw [hjournal, outlet, List.countP_append, hopenings, closing]
        split <;> rfl
      · rw [hjournal, List.count_append, hclosings, lively, closed, count_closing]
        rfl
      · rw [track?, headers, ← track?] at hunknown
        obtain ⟨hopened, hall⟩ := huntouched hunknown
        rw [hjournal, outlet, closing, if_neg hopened]
        refine ⟨hopened, fun e he => ?_⟩
        rcases List.mem_append.mp he with he | he
        · exact hall e he
        · exact List.mem_singleton.mp he

theorem Orderly.run (H : Orderly s) (ops : List Operation) : Orderly (s.run ops) := by
  induction ops generalizing s with
  | nil => exact H
  | cons op ops ih =>
      obtain ⟨news, hdeed, hwrote⟩ := exists_deed s op
      exact ih (H.step hdeed hwrote.journal)

/-! ## After the session has been closed -/

omit [Decoder δ] in
/-- Of a session that is closed at most the sink hears, and not of audio. -/
theorem Deed.isNotice {op : Operation} {news : List Event} (H : Deed s s' op news)
    (hclosed : s.closed) : s'.closed ∧ ∀ e ∈ news, e.IsNotice := by
  cases H with
  | idle _ _ closed => exact ⟨closed.trans hclosed, nofun⟩
  | settled _ _ closed => exact ⟨closed.trans hclosed, nofun⟩
  | opened _ _ _ _ closed =>
      refine ⟨closed.trans hclosed, fun e he => ?_⟩
      rw [List.mem_singleton] at he
      subst he
      exact trivial
  | played _ lively _ _ _ _ =>
      rw [lively] at hclosed
      cases hclosed
  | sought _ _ _ closed =>
      refine ⟨closed.trans hclosed, fun e he => ?_⟩
      rw [List.mem_singleton] at he
      subst he
      exact trivial
  | closed lively _ _ _ =>
      rw [lively] at hclosed
      cases hclosed

theorem exists_notices (hclosed : s.closed) (ops : List Operation) :
    (s.run ops).closed ∧ ∃ after, (s.run ops).journal.toList = s.journal.toList ++ after ∧
      ∀ e ∈ after, e.IsNotice := by
  induction ops generalizing s with
  | nil => exact ⟨hclosed, [], by rw [List.append_nil]; rfl, nofun⟩
  | cons op ops ih =>
      obtain ⟨news, hdeed, hwrote⟩ := exists_deed s op
      obtain ⟨hclosed', hnotice⟩ := hdeed.isNotice hclosed
      obtain ⟨hlast, after, hall, hafter⟩ := ih hclosed'
      refine ⟨hlast, news ++ after, ?_, fun e he => ?_⟩
      · rw [← List.append_assoc, ← hwrote.journal]
        exact hall
      · rcases List.mem_append.mp he with he | he
        · exact hnotice e he
        · exact hafter e he

/-! ## Every session -/

/-- One of the operations reads the headers with success. -/
def HeadersRead (s : Session δ) (ops : List Operation) : Prop :=
  ∃ before after, ops = before ++ .readHeaders :: after ∧
    ∃ s', readHeaders (s.run before) = .ok () s'

/-- Only an operation that reads the headers with success makes them known. -/
theorem perform_known {op : Operation} (hunknown : s.track? = none)
    (hknown : (s.perform op).track?.isSome) :
    op = .readHeaders ∧ ∃ s', readHeaders s = .ok () s' := by
  have hsame : ∀ r : Session δ, r.headers = s.headers → ¬r.track?.isSome := by
    intro r hr
    rw [track?, hr, ← track?, hunknown]
    exact Bool.false_ne_true
  cases op with
  | readHeaders =>
      have hsettled := headers_of_readHeaders s
      rw [perform] at hknown
      rcases hread : readHeaders s with ⟨_, s'⟩ | ⟨error, s'⟩ <;> rw [hread] at hsettled hknown
      · exact ⟨rfl, s', rfl⟩
      · simp only [left, track?, hsettled, Option.isSome_none] at hknown
        cases hknown
  | play limit =>
      rw [perform, play_of_unknown hunknown] at hknown
      exact absurd hknown (hsame s rfl)
  | seekTo requested =>
      rw [perform, seekTo_of_unknown hunknown] at hknown
      exact absurd hknown (hsame s rfl)
  | close => exact absurd hknown (hsame s.close (headers_close s))

theorem headersRead_of_known (hunknown : s.track? = none) {ops : List Operation}
    (hknown : (s.run ops).track?.isSome) : HeadersRead s ops := by
  induction ops generalizing s with
  | nil =>
      rw [run, List.foldl_nil, hunknown] at hknown
      cases hknown
  | cons op ops ih =>
      cases htrack : (s.perform op).track? with
      | none =>
          obtain ⟨before, after, hops, hread⟩ := ih htrack hknown
          exact ⟨op :: before, after, by rw [hops, List.cons_append], hread⟩
      | some track =>
          obtain ⟨hop, hread⟩ := perform_known hunknown (by rw [htrack]; rfl)
          exact ⟨[], ops, by rw [hop, List.nil_append], hread⟩

/-- **The headers are read once, and the decoder and the sink are treated accordingly.** Take any
series of operations over any source.

Once the headers have been read, reading them again has the same outcome and changes nothing, be it
success or the same error; and after an error nothing is played or sought.

As long as they have not been read with success there are no tags, no sink is open, neither the
sample rate nor the duration is known, no time can be taken up, and nothing has happened to the
decoder or a sink but that the decoder may have been closed.

When the session has been given up, its journal is all that the decoder has been through. A sink was
opened at most once, and the decoder was closed exactly once: when the session was closed first, with
the sink if one was open then. After that no frame was decoded and no sink was given samples. -/
theorem headers_final {source : Source} {decoder : δ} {settings : Settings}
    (hs : setUp (some source) (some decoder) settings = .ok s) (ops : List Operation) :
    let now := s.run ops
    let atClose := s.run (ops.takeWhile (· ≠ .close))
    let all := now.close.journal.toList
    (∀ before between, ops = before ++ .readHeaders :: between →
      match readHeaders (s.run before) with
      | .ok () _ => readHeaders now = .ok () now
      | .error error _ => readHeaders now = .error error now ∧
          (∀ limit, play limit now = .error .headersNotRead now) ∧
          ∀ requested, seekTo requested now = .error .headersNotRead now) ∧
      (¬HeadersRead s ops → now.tags = .empty ∧ now.outlet ≠ .opened ∧ now.sampleRate? = none ∧
        now.duration? = none ∧ now.isSeekable = false ∧
        ∀ e ∈ now.journal.toList, e = .decoderClosed) ∧
      (now.close.decoder, now.close.output) = all.foldl through (s.decoder, s.output) ∧
      all.countP Event.isOpening ≤ 1 ∧ all.count .decoderClosed = 1 ∧
      ∃ after, all = atClose.journal.toList ++ atClose.closing ++ after ∧
        (∀ e ∈ atClose.journal.toList, e ≠ .decoderClosed) ∧ ∀ e ∈ after, e.IsNotice := by
  intro now atClose all
  have hstart : Orderly s ∧ s.track? = none ∧ s.closed = false ∧ s.journal = #[] := by
    cases hs
    refine ⟨⟨?_, rfl, fun _ => ⟨?_, nofun⟩⟩, rfl, rfl, rfl⟩
    · cases settings.hasSink <;> rfl
    · cases settings.hasSink <;> exact nofun
  obtain ⟨horderly, hunknown, hlively, hempty⟩ := hstart
  have hend : Orderly now.close := (horderly.run ops).run [.close]
  refine ⟨?_, ?_, ?_, ?_, ?_, ?_⟩
  · rintro before between hops
    have hnow : now = (left (readHeaders (s.run before))).run between := by
      simp only [now, hops, run, List.foldl_append, List.foldl_cons, perform]
    have key := readHeaders_run (s.run before) between
    rcases hr : readHeaders (s.run before) with ⟨_, s'⟩ | ⟨error, s'⟩ <;> rw [hr] at key hnow
    · rw [hnow]
      exact key
    · rw [hnow]
      exact key
  · intro hnot
    have hnone : now.track? = none := by
      by_contra hknown
      exact hnot (headersRead_of_known hunknown (Option.isSome_iff_ne_none.mpr hknown))
    obtain ⟨houtlet, hjournal⟩ := (horderly.run ops).untouched hnone
    refine ⟨?_, houtlet, ?_, ?_, ?_, hjournal⟩
    · rw [tags, hnone]
      rfl
    · rw [sampleRate?, hnone]
      rfl
    · rw [duration?, locator?, hnone]
      rfl
    · rw [isSeekable, locator?, hnone]
      rfl
  · obtain ⟨news, hnews⟩ := exists_wrote s ops
    obtain ⟨last, -, hlast⟩ := deed_close now
    have hwrote := hnews.trans hlast
    have hall : all = news ++ last := by
      have hjournal := hwrote.journal
      rw [hempty] at hjournal
      exact hjournal
    rw [hall]
    exact hwrote.decoder
  · rw [hend.openings]
    split <;> decide
  · rw [hend.closings, if_pos (close_sink now).1]
  · have hopen : atClose.closed = false := by
      rw [← hlively]
      exact closed_run fun h => by simpa using List.mem_takeWhile_imp h
    have hbefore := (horderly.run (ops.takeWhile (· ≠ .close))).closings
    rw [hopen] at hbefore
    obtain ⟨rest, -, hrest⟩ := exists_rest s ops
    obtain ⟨hclosed, after, hafter, hnotice⟩ := exists_notices (close_sink atClose).1 rest
    refine ⟨after, ?_, fun e he h => List.count_eq_zero.mp hbefore (h ▸ he), hnotice⟩
    have hall : all = (atClose.close.run rest).journal.toList := by
      rw [← hrest hclosed]
    rw [hall, hafter, close_of_open hopen, closing]
    split <;> simp

/-- The first read fails and all later ones would succeed. The headers are not read, neither at the
second attempt nor after the session was closed, and all that ever happens is that the decoder is
closed. -/
theorem headers_final_transient :
    let frame : List UInt8 := [0xFF, 0xF3, 0x14, 0x00] ++ List.replicate 20 0
    let m : Medium :=
      ⟨frame.toArray, 0, Schedule.conduct { failAt := some 0, failTimes := some 1 }, {}, 0⟩
    let ops : List Operation :=
      [.play none, .readHeaders, .readHeaders, .seekTo ⟨0⟩, .close, .readHeaders, .play none]
    ∃ s : Session Stamp,
      setUp (some (.ofMedium m (some 24))) (some ⟨.call, 0, none, 0⟩) {} = .ok s ∧
        (∃ error, readHeaders (s.run ops) = .error error (s.run ops)) ∧
        play none (s.run ops) = .error .headersNotRead (s.run ops) ∧
        (s.run ops).close.journal.toList = [.decoderClosed] := by
  intro frame m ops
  obtain ⟨s, hs⟩ : ∃ s : Session Stamp,
      setUp (some (.ofMedium m (some 24))) (some ⟨.call, 0, none, 0⟩) {} = .ok s := ⟨_, rfl⟩
  have hfails : (match readHeaders (s.run [.play none]) with
      | .ok _ _ => false
      | .error _ _ => true) = true := by
    cases hs
    decide +kernel
  have hjournal : (s.run ops).close.journal.toList = [.decoderClosed] := by
    cases hs
    decide +kernel
  obtain ⟨hfinal, -⟩ := headers_final hs ops
  have key := hfinal [.play none] _ rfl
  rcases hr : readHeaders (s.run [.play none]) with ⟨_, s'⟩ | ⟨error, s'⟩
  · rw [hr] at hfails
    cases hfails
  · rw [hr] at key
    obtain ⟨hread, hplay, -⟩ := key
    refine ⟨s, hs, ⟨error, hread⟩, hplay none, hjournal⟩

end MpegAudio.Session
