import MpegAudio.Proofs.Session.Playing

/-!
# Everything that can be done with a session

Headers are read, frames are played up to some limit, other times are sought and the session is
closed, in any order and any number of times. Over a source that refuses nothing this never gets the
reader lost: before the headers are read it stands at the start, and afterwards it is at some place
in the data, whichever operations came between. What the headers told is still what the data says.

## Main definitions

* `Session.Operation` — what can be asked of a session.
* `Session.run s ops` — the session after a series of operations.
* `Session.Consistent data length pos limit s` — the state agrees with the data.
* `Session.consistent_run` — no series of operations destroys the agreement.
-/

namespace MpegAudio.Session

open Header Synchronizer

/-- What can be asked of a session. -/
inductive Operation where
  | readHeaders
  | play (limit : Option Nat)
  | seekTo (requested : Duration)
  | close
  deriving DecidableEq, Repr

/-- What a step leaves behind, whether it fails or not. -/
def left {ε σ α : Type} : EStateM.Result ε σ α → σ
  | .ok _ s => s
  | .error _ s => s

variable {δ : Type} {data : List UInt8} {length : Option Nat} {pos limit : Nat} {s : Session δ}

/-! ## Seeking -/

theorem seekTo_of_live {track : Track} {requested : Duration} (hheaders : s.headers = .known track)
    (H : track.locator.target? requested.toMillis = none) :
    seekTo requested s = .error (.seek .unsupported) s := by
  rw [seekTo, track?, hheaders]
  simp only [Locator.seek, H]
  rw [← hheaders]

theorem seekTo_of_seek {track : Track} {target : Target} {requested : Duration} {source : Source}
    (hheaders : s.headers = .known track)
    (H : track.locator.target? requested.toMillis = some target)
    (hseek : s.synchronizer.source.seek target.position = .ok () source) :
    let actual := Duration.ofMillis (track.clock.timecode target.frame)
    seekTo requested s =
      .ok actual
        ({ s with
            synchronizer := { s.synchronizer with source := source }.release
            frameIndex := target.frame }.tell (.sought requested actual)) := by
  rw [seekTo, track?, hheaders]
  simp only [Locator.seek, H, hseek]

/-- A place for the time is taken up from wherever the reader is. -/
theorem seekTo_of_target {track : Track} {target : Target} {place : Place} {requested : Duration}
    (hheaders : s.headers = .known track)
    (H : track.locator.target? requested.toMillis = some target)
    (hplace : Standing data length place s.synchronizer) :
    let actual := Duration.ofMillis (track.clock.timecode target.frame)
    ∃ synchronizer,
      seekTo requested s =
        .ok actual
          ({ s with synchronizer := synchronizer, frameIndex := target.frame }.tell
            (.sought requested actual)) ∧
        Standing data length (.searching target.position) synchronizer ∧
        synchronizer.source.position = target.position := by
  obtain ⟨pos, hat⟩ := hplace.exists_at
  obtain ⟨source, hseek, hat'⟩ := Source.seek_spec hat target.position
  have hreleased : Standing data length (.searching target.position)
      { s.synchronizer with source := source }.release := standing_release hat'
  exact ⟨_, seekTo_of_seek hheaders H hseek, hreleased, hat'.position_eq⟩

/-! ## What stays true -/

/-- The state of the session agrees with the data: what has been read of the headers, if anything,
is what the data calls for, and the reader is at some place. -/
inductive Consistent (data : List UInt8) (length : Option Nat) (pos limit : Nat) (s : Session δ) :
    Prop where
  | unread (unread : Unread data length pos s) (limit_eq : s.searchLimit = limit)
  | failed {count : Nat} (missing : Track.firstFrame data pos limit = .error count)
      (headers : s.headers = .failed (.noFrame count))
  | known {p : Nat} {h : Header} {tags : Tag.Table} {place : Place}
      (found : Track.firstFrame data pos limit = .ok (p, h))
      (headers : s.headers = .known ⟨tags, h.clock, Track.locatorAt data length p h⟩)
      (standing : Standing data length place s.synchronizer)

theorem consistent_of_setUp {m : Medium} (hm : m.conduct.Faultless) {decoder : δ}
    {settings : Settings} (hs : setUp (some (.ofMedium m length)) (some decoder) settings = .ok s) :
    Consistent m.data.toList length m.cursor settings.searchLimit s :=
  .unread (unread_of_setUp hm hs).1 (unread_of_setUp hm hs).2

theorem consistent_readHeaders (H : Consistent data length pos limit s) :
    Consistent data length pos limit (left (readHeaders s)) := by
  cases H with
  | unread hunread limit_eq =>
      subst limit_eq
      have hspec := readHeaders_spec hunread
      rcases hfirst : Track.firstFrame data pos s.searchLimit with count | ⟨p, h⟩
      · rw [hfirst] at hspec
        obtain ⟨synchronizer, hspec⟩ := hspec
        rw [hspec]
        exact .failed hfirst rfl
      · rw [hfirst] at hspec
        obtain ⟨tags, synchronizer, hspec, -, hplace⟩ := hspec
        rw [hspec, left, openSink_eq]
        exact .known hfirst rfl hplace
  | failed missing headers =>
      rw [readHeaders, headers]
      exact .failed missing headers
  | known found headers standing =>
      rw [readHeaders, headers]
      exact .known found headers standing

/-- Only the reader, the headers and the limit of the search matter. -/
theorem Consistent.congr {s' : Session δ} (H : Consistent data length pos limit s)
    (hsynchronizer : s'.synchronizer = s.synchronizer) (hheaders : s'.headers = s.headers)
    (hlimit : s'.searchLimit = s.searchLimit) : Consistent data length pos limit s' := by
  cases H with
  | unread hunread limit_eq =>
      exact .unread ⟨hheaders.trans hunread.headers, hsynchronizer ▸ hunread.fresh⟩
        (hlimit.trans limit_eq)
  | failed missing headers => exact .failed missing (hheaders.trans headers)
  | known found headers standing =>
      exact .known found (hheaders.trans headers) (hsynchronizer ▸ standing)

theorem Consistent.tell (H : Consistent data length pos limit s) (event : Sink.Event) :
    Consistent data length pos limit (s.tell event) := by
  rw [tell_eq]
  exact H.congr rfl rfl rfl

theorem consistent_seekTo (H : Consistent data length pos limit s) (requested : Duration) :
    Consistent data length pos limit (left (seekTo requested s)) := by
  have H₀ := H
  cases H with
  | unread hunread limit_eq =>
      rw [seekTo, track?, hunread.headers]
      exact H₀
  | failed missing headers =>
      rw [seekTo, track?, headers]
      exact H₀
  | @known p h tags place found headers standing =>
      rcases ht : (Track.locatorAt data length p h).target? requested.toMillis with _ | target
      · rw [seekTo_of_live headers ht]
        exact H₀
      · obtain ⟨synchronizer, hseek, hplace, -⟩ := seekTo_of_target headers ht standing
        rw [hseek]
        apply Consistent.tell
        exact .known found headers hplace

/-! ## Operations in any order -/

variable [Decoder δ]

theorem consistent_play (H : Consistent data length pos limit s) (count : Option Nat) :
    Consistent data length pos limit (left (play count s)) := by
  have H₀ := H
  cases H with
  | unread hunread limit_eq =>
      rw [play, track?, hunread.headers]
      exact H₀
  | failed missing headers =>
      rw [play, track?, headers]
      exact H₀
  | known found headers standing =>
      rw [play, track?, headers]
      by_cases hclosed : s.closed
      · simp only [if_pos hclosed]
        exact H₀
      · simp only [if_neg hclosed]
        obtain ⟨_, _, _, _, hplay, hplace⟩ := playOn_spec _ count s _ standing rfl
        rw [hplay]
        exact .known found headers hplace

theorem consistent_close (H : Consistent data length pos limit s) :
    Consistent data length pos limit s.close := by
  rw [close]
  by_cases hclosed : s.closed
  · rw [if_pos hclosed]
    exact H
  · rw [if_neg hclosed]
    have hmarked : Consistent data length pos limit { s with closed := true } :=
      H.congr rfl rfl rfl
    exact (hmarked.tell .closed).congr rfl rfl rfl

def perform (s : Session δ) : Operation → Session δ
  | .readHeaders => left (readHeaders s)
  | .play limit => left (play limit s)
  | .seekTo requested => left (seekTo requested s)
  | .close => close s

/-- The session after a series of operations. -/
def run (s : Session δ) (ops : List Operation) : Session δ := ops.foldl perform s

/-- **No operation destroys the agreement with the data.** -/
theorem consistent_perform (H : Consistent data length pos limit s) (op : Operation) :
    Consistent data length pos limit (s.perform op) := by
  cases op with
  | readHeaders => exact consistent_readHeaders H
  | play count => exact consistent_play H count
  | seekTo requested => exact consistent_seekTo H requested
  | close => exact consistent_close H

/-- **No series of operations does.** -/
theorem consistent_run (H : Consistent data length pos limit s) (ops : List Operation) :
    Consistent data length pos limit (s.run ops) := by
  induction ops generalizing s with
  | nil => exact H
  | cons op ops ih => exact ih (consistent_perform H op)

end MpegAudio.Session
