import MpegAudio.Decoder.Stamp
import MpegAudio.Proofs.Session.Answers
import Mathlib.Data.List.TakeWhile

/-!
# The life of a sink

A sink is opened when the headers have been read, then hears of blocks and of changes of position,
and is closed when the session is. But a closed session still reads headers and still seeks, unlike
playing, which takes notice. So a sink that is opened late is never closed, and a sink that has been
closed still hears of the seeks that succeed. In no other way is a sink told anything out of its
turn, whatever the source does.

What a sink hears is followed through two stretches of a series of operations, before the session is
closed for the first time and from then on. In each the induction is on the operations. A session
that is given up is closed, so every series ends with that.
-/

namespace MpegAudio

/-- What belongs between the opening of a sink and its closing. -/
def Sink.Event.IsPlayback : Sink.Event → Prop
  | .block _ | .sought _ _ => True
  | .opened _ _ | .closed => False

namespace Session

open Synchronizer

def Event.sink? : Event → Option Sink.Event
  | .sink event => some event
  | .decoded _ | .decoderClosed => none

variable {δ : Type} {s : Session δ}

/-- All that the sink has heard, in that order. -/
def heard (s : Session δ) : List Sink.Event := s.journal.toList.filterMap Event.sink?

/-- What is to be heard of an operation if it is a seek that succeeds. -/
def soughtBy (s : Session δ) : Operation → List Sink.Event
  | .seekTo requested =>
    match seekTo requested s with
    | .ok actual _ => [.sought requested actual]
    | .error _ _ => []
  | .readHeaders | .play _ | .close => []

theorem isPlayback_soughtBy (s : Session δ) (op : Operation) :
    ∀ e ∈ s.soughtBy op, e.IsPlayback := by
  cases op with
  | seekTo requested =>
      rw [soughtBy]
      split <;> simp [Sink.Event.IsPlayback]
  | readHeaders => exact nofun
  | play limit => exact nofun
  | close => exact nofun

/-! ## What each operation tells the sink -/

theorem heard_tell (s : Session δ) (event : Sink.Event) :
    (s.tell event).heard = s.heard ++ if s.outlet = .opened then [event] else [] := by
  rw [tell_eq, heard, heard]
  split <;> simp [Event.sink?]

/-- Reading the headers opens a sink that is waiting, or else tells the sink nothing. -/
theorem readHeaders_sink (s : Session δ) (hunknown : s.outlet = .waiting → s.track? = none) :
    let s' := left (readHeaders s)
    s'.closed = s.closed ∧
      ((s'.outlet = s.outlet ∧ s'.heard = s.heard ∧ (s'.outlet = .waiting → s'.track? = none)) ∨
        s.outlet = .waiting ∧ s'.outlet = .opened ∧
          ∃ rate, s'.heard = s.heard ++ [.opened channels rate]) := by
  intro s'
  rcases hheaders : s.headers with _ | error | track
  · rcases hread : Track.read s.searchLimit s.synchronizer with ⟨track, x⟩ | ⟨error, x⟩
    · have hs' : s' = { s with synchronizer := x, headers := .known track }.openSink
          track.clock.sampleRate := by
        simp only [s', readHeaders, hheaders, hread, left]
      rw [hs', openSink_eq]
      refine ⟨rfl, ?_⟩
      rcases houtlet : s.outlet with _ | _ | _
      · exact .inl ⟨by simp, by simp [heard], by simp⟩
      · refine .inr ⟨rfl, by simp, track.clock.sampleRate, ?_⟩
        simp [heard, Event.sink?]
      · exact .inl ⟨by simp, by simp [heard], by simp⟩
    · have hs' : s' = { s with synchronizer := x, headers := .failed error } := by
        simp only [s', readHeaders, hheaders, hread, left]
      rw [hs']
      exact ⟨rfl, .inl ⟨rfl, rfl, fun _ => rfl⟩⟩
  · have hs' : s' = s := by simp only [s', readHeaders, hheaders, left]
    rw [hs']
    exact ⟨rfl, .inl ⟨rfl, rfl, hunknown⟩⟩
  · have hs' : s' = s := by simp only [s', readHeaders, hheaders, left]
    rw [hs']
    exact ⟨rfl, .inl ⟨rfl, rfl, hunknown⟩⟩

theorem seekTo_sink (s : Session δ) (requested : Duration) :
    let s' := left (seekTo requested s)
    s'.closed = s.closed ∧ s'.outlet = s.outlet ∧ s'.track? = s.track? ∧
      s'.heard = s.heard ++ if s.outlet = .opened then s.soughtBy (.seekTo requested) else [] := by
  intro s'
  rcases hseek : seekTo requested s with ⟨actual, r⟩ | ⟨error, r⟩
  · obtain ⟨_, _, _, -, -, hr⟩ := exists_target_of_seekTo_ok hseek
    have hnews : s.soughtBy (.seekTo requested) = [.sought requested actual] := by
      rw [soughtBy, hseek]
    have hs' : s' = r := by simp only [s', hseek, left]
    rw [hs', hnews, hr, heard_tell, tell_eq]
    exact ⟨rfl, rfl, rfl, rfl⟩
  · obtain ⟨_, hr⟩ := exists_source_of_seekTo_error hseek
    have hnews : s.soughtBy (.seekTo requested) = [] := by
      rw [soughtBy, hseek]
    have hs' : s' = r := by simp only [s', hseek, left]
    rw [hs', hnews, hr, ite_self, List.append_nil]
    exact ⟨rfl, rfl, rfl, rfl⟩

/-- What the sink has heard between two states belongs to playback, and only an open one hears any.
-/
def Relays (s s' : Session δ) : Prop :=
  ∃ news, s'.heard = s.heard ++ news ∧ (∀ e ∈ news, e.IsPlayback) ∧
    (s.outlet ≠ .opened → news = [])

theorem relays_of_eq {s' : Session δ} (h : s'.heard = s.heard) : Relays s s' :=
  ⟨[], by rw [h, List.append_nil], nofun, fun _ => rfl⟩

theorem Relays.trans {s' s'' : Session δ} (H : Relays s s') (houtlet : s'.outlet = s.outlet)
    (H' : Relays s' s'') : Relays s s'' := by
  obtain ⟨news, hheard, hplayback, hnone⟩ := H
  obtain ⟨news', hheard', hplayback', hnone'⟩ := H'
  refine ⟨news ++ news', ?_, ?_, fun h => ?_⟩
  · rw [hheard', hheard, List.append_assoc]
  · intro e he
    rcases List.mem_append.mp he with h | h
    · exact hplayback e h
    · exact hplayback' e h
  · rw [hnone h, hnone' (houtlet ▸ h), List.append_nil]

theorem relays_seekTo (s : Session δ) (requested : Duration) :
    Relays s (left (seekTo requested s)) := by
  obtain ⟨-, -, -, hheard⟩ := seekTo_sink s requested
  refine ⟨_, hheard, ?_, fun h => if_neg h⟩
  split
  · exact isPlayback_soughtBy s _
  · exact nofun

variable [Decoder δ]

theorem relays_playHeld (s : Session δ) : Relays s s.playHeld := by
  rw [playHeld_eq]
  refine ⟨(frameEvents (s.outlet = .opened) s.synchronizer.frame
    (Decoder.decode s.decoder s.synchronizer.frame s.output)).filterMap Event.sink?, ?_, ?_, ?_⟩
  · simp only [heard, Array.toList_append, List.filterMap_append]
  · rw [frameEvents]
    split <;> simp [Event.sink?, Sink.Event.IsPlayback]
  · intro h
    simp [frameEvents, h, Event.sink?]

theorem relays_playOn (limit : Option Nat) (s : Session δ) : Relays s (left (playOn limit s)) := by
  fun_induction playOn limit s with
  | case1 s => exact relays_of_eq rfl
  | case2 limit s hlimit fault x hx => exact relays_of_eq rfl
  | case3 limit s hlimit x hx => exact relays_of_eq rfl
  | case4 limit s hlimit x hx ih =>
      refine Relays.trans (relays_playHeld { s with synchronizer := x }) ?_ ih
      rw [playHeld_eq]

/-- Playing tells an open sink of blocks only, and a closed session plays nothing. -/
theorem play_sink (limit : Option Nat) (s : Session δ) :
    let s' := left (play limit s)
    s'.closed = s.closed ∧ s'.outlet = s.outlet ∧ s'.track? = s.track? ∧
      (s.closed → s'.heard = s.heard) ∧ Relays s s' := by
  intro s'
  by_cases hknown : s.track?.isSome
  · by_cases hclosed : s.closed
    · have hs' : s' = s := by simp only [s', play_of_closed hknown hclosed, left]
      rw [hs']
      exact ⟨rfl, rfl, rfl, fun _ => rfl, relays_of_eq rfl⟩
    · have hs' : s' = left (playOn limit s) := by
        simp only [s', play_eq_playOn hknown (by simpa using hclosed)]
      obtain ⟨hheaders, hclosed', houtlet⟩ := playOn_keeps limit s
      rw [hs', track?, hheaders]
      exact ⟨hclosed', houtlet, rfl, fun h => absurd h hclosed, relays_playOn limit s⟩
  · have hs' : s' = s := by simp only [s', play_of_unknown (by simpa using hknown), left]
    rw [hs']
    exact ⟨rfl, rfl, rfl, fun _ => rfl, relays_of_eq rfl⟩

theorem close_sink (s : Session δ) :
    s.close.closed ∧ s.close.outlet = s.outlet ∧ s.close.track? = s.track? ∧
      s.close.heard = s.heard ++
        if s.closed = false ∧ s.outlet = .opened then [.closed] else [] := by
  by_cases hclosed : s.closed
  · rw [close_of_closed hclosed]
    exact ⟨hclosed, rfl, rfl, by simp [hclosed]⟩
  · have hopen : s.closed = false := by simpa using hclosed
    rw [close_of_open hopen]
    refine ⟨rfl, rfl, rfl, ?_⟩
    rw [heard, heard, hopen]
    split <;> simp_all [Event.sink?]

/-! ## Before the session is closed -/

/-- The session is not closed. A sink that is open has been opened first and has then heard of
playback only. Any other sink has heard nothing, and waits only as long as the headers are not
known. -/
structure Lively (s : Session δ) : Prop where
  closed : s.closed = false
  unknown : s.outlet = .waiting → s.track? = none
  silent : s.outlet ≠ .opened → s.heard = []
  heard : s.outlet = .opened → ∃ rate news,
    s.heard = .opened channels rate :: news ∧ ∀ e ∈ news, e.IsPlayback

omit [Decoder δ] in
theorem Lively.relay {s' : Session δ} (H : Lively s) (hclosed : s'.closed = s.closed)
    (houtlet : s'.outlet = s.outlet) (htrack : s'.track? = s.track?) (h : Relays s s') :
    Lively s' := by
  obtain ⟨news, hheard, hplayback, hnone⟩ := h
  refine ⟨hclosed.trans H.closed, fun h => htrack.trans (H.unknown (houtlet ▸ h)), fun h => ?_,
    fun h => ?_⟩
  · rw [houtlet] at h
    rw [hheard, H.silent h, hnone h, List.append_nil]
  · obtain ⟨rate, before, hbefore, hall⟩ := H.heard (houtlet ▸ h)
    refine ⟨rate, before ++ news, by rw [hheard, hbefore, List.cons_append], fun e he => ?_⟩
    rcases List.mem_append.mp he with h | h
    · exact hall e h
    · exact hplayback e h

/-- **Until the session is closed the sink hears what it should.** -/
theorem Lively.perform (H : Lively s) {op : Operation} (hop : op ≠ .close) :
    Lively (s.perform op) := by
  cases op with
  | readHeaders =>
      obtain ⟨hclosed, ⟨houtlet, hheard, hunknown⟩ | ⟨hwaiting, hopened, rate, hheard⟩⟩ :=
        readHeaders_sink s H.unknown
      · refine ⟨hclosed.trans H.closed, hunknown, fun h => ?_, fun h => ?_⟩
        · exact hheard.trans (H.silent (houtlet ▸ h))
        · rw [Session.perform, hheard]
          exact H.heard (houtlet ▸ h)
      · have hnothing : s.heard = [] := H.silent (by rw [hwaiting]; simp)
        refine ⟨hclosed.trans H.closed, fun h => ?_, fun h => absurd hopened h, fun _ => ?_⟩
        · rw [Session.perform, hopened] at h
          cases h
        · refine ⟨rate, [], ?_, fun _ h => absurd h List.not_mem_nil⟩
          rw [Session.perform, hheard, hnothing, List.nil_append]
  | play limit =>
      obtain ⟨hclosed, houtlet, htrack, -, hrelays⟩ := play_sink limit s
      exact H.relay hclosed houtlet htrack hrelays
  | seekTo requested =>
      obtain ⟨hclosed, houtlet, htrack, -⟩ := seekTo_sink s requested
      exact H.relay hclosed houtlet htrack (relays_seekTo s requested)
  | close => exact absurd rfl hop

theorem Lively.run (H : Lively s) {ops : List Operation} (hops : .close ∉ ops) :
    Lively (s.run ops) := by
  induction ops generalizing s with
  | nil => exact H
  | cons op ops ih =>
      refine ih (H.perform fun h => hops ?_) fun h => hops (List.mem_cons_of_mem op h)
      rw [h]
      exact List.mem_cons_self

/-! ## After the session has been closed -/

/-- What is to be heard of the seeks of a series that succeed. -/
def soughts (s : Session δ) : List Operation → List Sink.Event
  | [] => []
  | op :: ops => s.soughtBy op ++ (s.perform op).soughts ops

omit [Decoder δ] in
theorem soughtBy_of_unknown (hunknown : s.track? = none) (op : Operation) : s.soughtBy op = [] := by
  cases op with
  | seekTo requested => simp only [soughtBy, seekTo, hunknown]
  | readHeaders => rfl
  | play limit => rfl
  | close => rfl

/-- One operation after the session has been closed, with an open sink. -/
theorem perform_of_opened (hclosed : s.closed) (hopened : s.outlet = .opened) (op : Operation) :
    (s.perform op).closed ∧ (s.perform op).outlet = .opened ∧
      (s.perform op).heard = s.heard ++ s.soughtBy op := by
  cases op with
  | readHeaders =>
      have hunknown : s.outlet = .waiting → s.track? = none := by simp [hopened]
      obtain ⟨hclosed', ⟨houtlet, hheard, -⟩ | ⟨hwaiting, -⟩⟩ := readHeaders_sink s hunknown
      · exact ⟨hclosed'.trans hclosed, houtlet.trans hopened,
          hheard.trans (List.append_nil _).symm⟩
      · rw [hopened] at hwaiting
        cases hwaiting
  | play limit =>
      obtain ⟨hclosed', houtlet, -, hheard, -⟩ := play_sink limit s
      exact ⟨hclosed'.trans hclosed, houtlet.trans hopened,
        (hheard hclosed).trans (List.append_nil _).symm⟩
  | seekTo requested =>
      obtain ⟨hclosed', houtlet, -, hheard⟩ := seekTo_sink s requested
      rw [if_pos hopened] at hheard
      exact ⟨hclosed'.trans hclosed, houtlet.trans hopened, hheard⟩
  | close =>
      rw [perform, close_of_closed hclosed]
      exact ⟨hclosed, hopened, (List.append_nil _).symm⟩

/-- **An open sink hears of the seeks even after the session has been closed**, and of nothing else.
-/
theorem heard_run_of_opened (hclosed : s.closed) (hopened : s.outlet = .opened)
    (ops : List Operation) :
    (s.run ops).closed ∧ (s.run ops).heard = s.heard ++ s.soughts ops := by
  induction ops generalizing s with
  | nil => exact ⟨hclosed, (List.append_nil _).symm⟩
  | cons op ops ih =>
      obtain ⟨hclosed', hopened', hheard⟩ := perform_of_opened hclosed hopened op
      obtain ⟨hlast, hall⟩ := ih hclosed' hopened'
      refine ⟨hlast, ?_⟩
      rw [soughts, ← List.append_assoc, ← hheard]
      exact hall

/-- One operation after the session has been closed, without an open sink. -/
theorem perform_of_unopened (hclosed : s.closed) (hunopened : s.outlet ≠ .opened)
    (hunknown : s.outlet = .waiting → s.track? = none) (op : Operation) :
    let s' := s.perform op
    s'.closed ∧
      ((s'.outlet = s.outlet ∧ s'.heard = s.heard ∧ (s'.outlet = .waiting → s'.track? = none)) ∨
        s.outlet = .waiting ∧ s'.outlet = .opened ∧
          ∃ rate, s'.heard = s.heard ++ [.opened channels rate]) := by
  intro s'
  cases op with
  | readHeaders =>
      obtain ⟨hclosed', hcases⟩ := readHeaders_sink s hunknown
      exact ⟨hclosed'.trans hclosed, hcases⟩
  | play limit =>
      obtain ⟨hclosed', houtlet, htrack, hheard, -⟩ := play_sink limit s
      exact ⟨hclosed'.trans hclosed,
        .inl ⟨houtlet, hheard hclosed, fun h => htrack.trans (hunknown (houtlet ▸ h))⟩⟩
  | seekTo requested =>
      obtain ⟨hclosed', houtlet, htrack, hheard⟩ := seekTo_sink s requested
      rw [if_neg hunopened, List.append_nil] at hheard
      exact ⟨hclosed'.trans hclosed,
        .inl ⟨houtlet, hheard, fun h => htrack.trans (hunknown (houtlet ▸ h))⟩⟩
  | close =>
      have hs' : s' = s := close_of_closed hclosed
      rw [hs']
      exact ⟨hclosed, .inl ⟨rfl, rfl, hunknown⟩⟩

/-- **A sink that is opened after the session has been closed is never closed.** It hears that it is
opened, and then of the seeks. -/
theorem heard_run_of_unopened (hclosed : s.closed) (hunopened : s.outlet ≠ .opened)
    (hunknown : s.outlet = .waiting → s.track? = none) (ops : List Operation) :
    (s.run ops).closed ∧
      ((s.run ops).heard = s.heard ∨
        s.outlet = .waiting ∧
          ∃ rate, (s.run ops).heard = s.heard ++ .opened channels rate :: s.soughts ops) := by
  induction ops generalizing s with
  | nil => exact ⟨hclosed, .inl rfl⟩
  | cons op ops ih =>
      obtain ⟨hclosed', ⟨houtlet, hheard, hunknown'⟩ | ⟨hwaiting, hopened, rate, hheard⟩⟩ :=
        perform_of_unopened hclosed hunopened hunknown op
      · obtain ⟨hlast, hsame | ⟨hwaiting, rate, hall⟩⟩ :=
          ih hclosed' (houtlet ▸ hunopened) hunknown'
        · exact ⟨hlast, .inl (hsame.trans hheard)⟩
        · refine ⟨hlast, .inr ⟨houtlet ▸ hwaiting, rate, ?_⟩⟩
          rw [soughts, soughtBy_of_unknown (hunknown (houtlet ▸ hwaiting)), List.nil_append,
            ← hheard]
          exact hall
      · obtain ⟨hlast, hall⟩ := heard_run_of_opened hclosed' hopened ops
        refine ⟨hlast, .inr ⟨hwaiting, rate, ?_⟩⟩
        rw [soughts, soughtBy_of_unknown (hunknown hwaiting), List.nil_append,
          List.append_cons, ← hheard]
        exact hall

/-! ## The whole life -/

theorem isPlayback_soughts (s : Session δ) (ops : List Operation) :
    ∀ e ∈ s.soughts ops, e.IsPlayback := by
  induction ops generalizing s with
  | nil => exact nofun
  | cons op ops ih =>
      intro e he
      rcases List.mem_append.mp he with h | h
      · exact isPlayback_soughtBy s op e h
      · exact ih _ e h

omit [Decoder δ] in
theorem count_closed {l : List Sink.Event} (h : ∀ e ∈ l, e.IsPlayback) : l.count .closed = 0 :=
  List.count_eq_zero.mpr fun hmem => h _ hmem

/-- A series of operations, and the session being given up at the end of it, is what comes before
the session is closed for the first time, that closing, and what comes after it. -/
theorem exists_rest (s : Session δ) (ops : List Operation) :
    let s₁ := s.run (ops.takeWhile (· ≠ .close))
    ∃ rest, s₁.soughts (ops.dropWhile (· ≠ .close)) = s₁.close.soughts rest ∧
      ((s₁.close.run rest).closed → (s.run ops).close = s₁.close.run rest) := by
  intro s₁
  have hrun : s.run ops = s₁.run (ops.dropWhile (· ≠ .close)) := by
    conv_lhs => rw [← List.takeWhile_append_dropWhile (p := (· ≠ .close)) (l := ops)]
    exact List.foldl_append
  rcases hafter : ops.dropWhile (· ≠ .close) with _ | ⟨op, rest⟩
  · rw [hafter] at hrun
    rw [hrun, hafter]
    exact ⟨[], rfl, fun _ => rfl⟩
  · have hne : ops.dropWhile (· ≠ .close) ≠ [] := by
      rw [hafter]
      exact List.cons_ne_nil _ _
    have hhead := List.head_dropWhile_not (fun op : Operation => decide (op ≠ .close)) hne
    simp only [hafter, List.head_cons, decide_eq_false_iff_not, not_not] at hhead
    subst hhead
    rw [hafter] at hrun
    rw [hrun, hafter]
    exact ⟨rest, rfl, fun hclosed => close_of_closed hclosed⟩

/-- A sink that is open when the session is closed is closed then, and hears of the later seeks. -/
theorem Lively.heard_of_opened (H : Lively s) (hopened : s.outlet = .opened)
    (rest : List Operation) :
    (s.close.run rest).closed ∧ ∃ rate news, (∀ e ∈ news, e.IsPlayback) ∧
      (s.close.run rest).heard =
        .opened channels rate :: news ++ .closed :: s.close.soughts rest := by
  obtain ⟨hclosed, houtlet, -, hheard⟩ := close_sink s
  obtain ⟨hlast, hall⟩ := heard_run_of_opened hclosed (houtlet.trans hopened) rest
  obtain ⟨rate, news, hbefore, hnews⟩ := H.heard hopened
  rw [if_pos ⟨H.closed, hopened⟩, hbefore] at hheard
  refine ⟨hlast, rate, news, hnews, ?_⟩
  rw [hall, hheard, List.append_assoc, List.singleton_append]

/-- A sink that is not open then hears nothing, unless it is opened later. It is not closed after
that. -/
theorem Lively.heard_of_unopened (H : Lively s) (hunopened : s.outlet ≠ .opened)
    (rest : List Operation) :
    (s.close.run rest).closed ∧ ((s.close.run rest).heard = [] ∨
      ∃ rate, (s.close.run rest).heard = .opened channels rate :: s.close.soughts rest) := by
  obtain ⟨hclosed, houtlet, htrack, hheard⟩ := close_sink s
  have hunknown : s.close.outlet = .waiting → s.close.track? = none :=
    fun h => htrack.trans (H.unknown (houtlet ▸ h))
  have hnothing : s.close.heard = [] := by
    rw [hheard, if_neg (fun h => hunopened h.2), H.silent hunopened, List.append_nil]
  obtain ⟨hlast, hall⟩ :=
    heard_run_of_unopened hclosed (houtlet ▸ hunopened) hunknown rest
  rw [hnothing] at hall
  obtain hsame | ⟨-, rate, hlate⟩ := hall
  · exact ⟨hlast, .inl hsame⟩
  · exact ⟨hlast, .inr ⟨rate, hlate⟩⟩

/-- A closing is the only one, and the last thing heard, when no playback follows it. -/
theorem closed_last_iff {before late : List Sink.Event} (hbefore : before.count .closed = 0)
    (hlate : ∀ e ∈ late, e.IsPlayback) :
    ((before ++ .closed :: late).count .closed = 1 ∧
      (before ++ .closed :: late).getLast? = some .closed) ↔ late = [] := by
  have hcount : (before ++ .closed :: late).count .closed = 1 := by
    rw [List.count_append, List.count_cons_self, hbefore, count_closed hlate]
  rw [and_iff_right hcount]
  rcases List.eq_nil_or_concat late with rfl | ⟨init, e, rfl⟩
  · simp
  · -- The last seek is heard last.
    have he : e ≠ .closed := by
      rintro rfl
      exact hlate .closed (by simp)
    have hlast : (before ++ .closed :: init.concat e).getLast? = some e := by
      rw [List.concat_eq_append, ← List.cons_append, ← List.append_assoc]
      exact List.getLast?_concat
    rw [hlast]
    simp [he]

/-- **All that a sink hears.** Take any series of operations over any source, at the end of which
the session is given up. A sink that was open when the session was closed first has been opened
once, then has heard of blocks and seeks, then has been closed once. But it has also heard, after
that, of every later seek that succeeded. A sink that was not open then was never opened, or it was
opened later, heard of the later seeks, and was never closed.

So a sink that is opened is closed, once and last of all, just when it was open before the session
was closed and no seek succeeded from then on. -/
theorem heard_close_run {source : Source} {decoder : δ} {settings : Settings}
    (hs : setUp (some source) (some decoder) settings = .ok s) (ops : List Operation) :
    let before := s.run (ops.takeWhile (· ≠ .close))
    let late := before.soughts (ops.dropWhile (· ≠ .close))
    let all := (s.run ops).close.heard
    (before.outlet = .opened → ∃ rate news, (∀ e ∈ news, e.IsPlayback) ∧
      all = .opened channels rate :: news ++ .closed :: late) ∧
    (before.outlet ≠ .opened → all = [] ∨ ∃ rate, all = .opened channels rate :: late) ∧
    (∀ rate, .opened channels rate ∈ all →
      (all.count .closed = 1 ∧ all.getLast? = some .closed ↔
        before.outlet = .opened ∧ late = [])) := by
  intro before late all
  have hlively : Lively before := by
    have hstart : Lively s := by
      cases hs
      refine ⟨rfl, fun _ => rfl, fun _ => rfl, fun h => ?_⟩
      simp only at h
      split at h <;> cases h
    exact hstart.run fun h => by simpa using List.mem_takeWhile_imp h
  have hplayback : ∀ e ∈ late, e.IsPlayback := isPlayback_soughts _ _
  obtain ⟨rest, hlate, hlast⟩ : ∃ rest, late = before.close.soughts rest ∧
      ((before.close.run rest).closed → all = (before.close.run rest).heard) := by
    obtain ⟨rest, hlate, hlast⟩ := exists_rest s ops
    exact ⟨rest, hlate, fun h => congrArg heard (hlast h)⟩
  by_cases hopened : before.outlet = .opened
  · obtain ⟨hend, rate, news, hnews, hall⟩ := hlively.heard_of_opened hopened rest
    rw [← hlast hend, ← hlate] at hall
    refine ⟨fun _ => ⟨rate, news, hnews, hall⟩, fun h => absurd hopened h, fun _ _ => ?_⟩
    have hnone : (.opened channels rate :: news : List Sink.Event).count .closed = 0 := by
      rw [List.count_cons_of_ne (by simp), count_closed hnews]
    rw [hall, closed_last_iff hnone hplayback]
    exact (and_iff_right hopened).symm
  · obtain ⟨hend, hall⟩ := hlively.heard_of_unopened hopened rest
    rw [← hlast hend, ← hlate] at hall
    refine ⟨fun h => absurd h hopened, fun _ => hall, fun rate hmem => ?_⟩
    obtain hnothing | ⟨rate', hall⟩ := hall
    · rw [hnothing] at hmem
      cases hmem
    · have hnever : all.count .closed = 0 := by
        rw [hall, List.count_cons_of_ne (by simp), count_closed hplayback]
      rw [hnever]
      exact ⟨fun h => absurd h.1 (by decide), fun h => absurd h.1 hopened⟩

/-- One frame is played twice, with a seek to its start in between. Then the session is closed, once
more than is needed. -/
theorem heard_close_run_once :
    let frame : List UInt8 := [0xFF, 0xF3, 0x14, 0x00] ++ List.replicate 20 0
    let m : Medium := ⟨frame.toArray, 0, .plain, {}, 0⟩
    let ops : List Operation :=
      [.readHeaders, .play none, .seekTo ⟨0⟩, .play none, .close, .play none, .close]
    ∃ s : Session Stamp,
      setUp (some (.ofMedium m (some 24))) (some ⟨.call, 0, none, 0⟩) {} = .ok s ∧
        (s.run ops).close.heard.count .closed = 1 ∧
        (s.run ops).close.heard.getLast? = some .closed := by
  intro frame m ops
  obtain ⟨s, hs⟩ : ∃ s : Session Stamp,
      setUp (some (.ofMedium m (some 24))) (some ⟨.call, 0, none, 0⟩) {} = .ok s := ⟨_, rfl⟩
  have hopened : (s.run (ops.takeWhile (· ≠ .close))).outlet = .opened := by
    cases hs
    decide +kernel
  have hlate : (s.run (ops.takeWhile (· ≠ .close))).soughts (ops.dropWhile (· ≠ .close)) = [] := by
    cases hs
    decide +kernel
  have hheard : .opened channels 24000 ∈ (s.run ops).close.heard := by
    cases hs
    decide +kernel
  obtain ⟨-, -, hiff⟩ := heard_close_run hs ops
  obtain ⟨hcount, hlast⟩ := (hiff 24000 hheard).mpr ⟨hopened, hlate⟩
  exact ⟨s, hs, hcount, hlast⟩

/-- **A sink is not always closed, nor is closing always the last it hears.** If the session is
closed before the headers are read, the sink is opened and never closed. If the start is sought
after the session has been closed, the closed sink hears of it. -/
theorem heard_close_run_late :
    let frame : List UInt8 := [0xFF, 0xF3, 0x14, 0x00] ++ List.replicate 20 0
    let m : Medium := ⟨frame.toArray, 0, .plain, {}, 0⟩
    ∃ s : Session Stamp,
      setUp (some (.ofMedium m (some 24))) (some ⟨.call, 0, none, 0⟩) {} = .ok s ∧
        (s.run [.close, .readHeaders]).close.heard = [.opened 2 24000] ∧
        (s.run [.readHeaders, .close, .seekTo ⟨0⟩]).close.heard =
          [.opened 2 24000, .closed, .sought ⟨0⟩ ⟨0⟩] := by
  intro frame m
  refine ⟨_, rfl, ?_, ?_⟩
  · decide +kernel
  · decide +kernel

end Session

end MpegAudio
