import MpegAudio.Proofs.Source.Faultless

/-!
# Two sources side by side

Whatever is built on a source learns of it only by reading, by seeking, by its position and by its
length. So a relation between sources that reading and seeking keep up, with equal outcomes, and
that makes positions and lengths equal, is kept up by all that is built on sources.

Three such relations are of use. Two faultless sources can stand at the same place in the same data.
Two sources can differ in their media alone, where these go on alike: they hold the same data at the
same cursor, and their conduct answers the same from now on, though their tallies may differ. And
one source beside itself shows what never changes, its length and its conduct.

## Main definitions

* `Matched R` — two steps have the same outcome and leave related states.
* `Source.Coupling R` — reading and seeking keep up the relation `R`.
* `Medium.Alike`, `Source.Alike` — media that go on alike, and sources over such.
* `Source.coupling_together`, `Source.coupling_alike`, `Source.coupling_same` — the three relations.
-/

namespace MpegAudio

/-- Two steps succeed with the same value or fail with the same error, and what they leave behind is
related. -/
def Matched {ε σ τ α : Type} (R : σ → τ → Prop) (x : EStateM.Result ε σ α)
    (y : EStateM.Result ε τ α) : Prop :=
  (∃ a s t, x = .ok a s ∧ y = .ok a t ∧ R s t) ∨ ∃ e s t, x = .error e s ∧ y = .error e t ∧ R s t

namespace Matched

variable {ε σ τ α β : Type} {R : σ → τ → Prop} {s : σ} {t : τ}

theorem ok (a : α) (h : R s t) : Matched (ε := ε) R (.ok a s) (.ok a t) :=
  .inl ⟨a, s, t, rfl, rfl, h⟩

theorem error (e : ε) (h : R s t) : Matched (α := α) R (.error e s) (.error e t) :=
  .inr ⟨e, s, t, rfl, rfl, h⟩

theorem exists_ok {a : α} {y : EStateM.Result ε τ α} (H : Matched R (.ok a s) y) :
    ∃ t, y = .ok a t ∧ R s t := by
  obtain ⟨_, _, t, hx, hy, h⟩ | ⟨_, _, _, hx, -, -⟩ := H
  · cases hx
    exact ⟨t, hy, h⟩
  · cases hx

theorem exists_error {e : ε} {y : EStateM.Result ε τ α} (H : Matched R (.error e s) y) :
    ∃ t, y = .error e t ∧ R s t := by
  obtain ⟨_, _, _, hx, -, -⟩ | ⟨_, _, t, hx, hy, h⟩ := H
  · cases hx
  · cases hx
    exact ⟨t, hy, h⟩

/-- Steps that match, followed by steps that match whenever they start from related states. -/
theorem bind {act : EStateM ε σ α} {act' : EStateM ε τ α} {next : α → EStateM ε σ β}
    {next' : α → EStateM ε τ β} (H : Matched R (act s) (act' t))
    (hnext : ∀ a s t, R s t → Matched R (next a s) (next' a t)) :
    Matched R ((act >>= next) s) ((act' >>= next') t) := by
  obtain ⟨a, s', t', hact, hact', h⟩ | ⟨e, s', t', hact, hact', h⟩ := H
  · rw [bind_of_ok hact, bind_of_ok hact']
    exact hnext a s' t' h
  · rw [bind_of_error hact, bind_of_error hact']
    exact error e h

theorem bind_get {next : σ → EStateM ε σ β} {next' : τ → EStateM ε τ β}
    (H : Matched R (next s s) (next' t t)) :
    Matched R ((get >>= next) s) ((get >>= next') t) := H

theorem map {act : EStateM ε σ α} {act' : EStateM ε τ α} (H : Matched R (act s) (act' t))
    (f : α → β) : Matched R ((f <$> act) s) ((f <$> act') t) := by
  simp only [Functor.map, EStateM.map]
  obtain ⟨a, s', t', hact, hact', h⟩ | ⟨e, s', t', hact, hact', h⟩ := H
  · simp only [hact, hact']
    exact ok (f a) h
  · simp only [hact, hact']
    exact error e h

end Matched

/-! ## Media that go on alike -/

/-- The tally after so many more answers. -/
def Tally.later (t : Tally) (reads refusals seeks : Nat) : Tally :=
  ⟨t.reads + reads, t.refusals + refusals, t.seeks + seeks⟩

theorem Tally.later_later (t : Tally) (a b c a' b' c' : Nat) :
    (t.later a b c).later a' b' c' = t.later (a + a') (b + b') (c + c') := by
  simp only [later, Nat.add_assoc]

/-- Two media hold the same data at the same cursor, and answer alike from now on, whatever each of
them has answered before. -/
structure Medium.Alike (m m' : Medium) : Prop where
  data_eq : m'.data = m.data
  cursor_eq : m'.cursor = m.cursor
  interrupted_eq : m'.interrupted = m.interrupted
  onRead_eq : ∀ a b c,
    m'.conduct.onRead (m'.tally.later a b c) = m.conduct.onRead (m.tally.later a b c)
  onSeek_eq : ∀ a b c,
    m'.conduct.onSeek (m'.tally.later a b c) = m.conduct.onSeek (m.tally.later a b c)

namespace Medium

variable {m m' : Medium}

theorem Alike.refl (m : Medium) : m.Alike m :=
  ⟨rfl, rfl, rfl, fun _ _ _ => rfl, fun _ _ _ => rfl⟩

theorem Alike.later (H : m.Alike m') (cursor a b c interrupted : Nat) :
    Alike { m with cursor := cursor, tally := m.tally.later a b c, interrupted := interrupted }
      { m' with
        data := m.data
        cursor := cursor
        tally := m'.tally.later a b c
        interrupted := interrupted } := by
  refine ⟨rfl, rfl, rfl, fun a' b' c' => ?_, fun a' b' c' => ?_⟩
  · simp only [Tally.later_later]
    exact H.onRead_eq _ _ _
  · simp only [Tally.later_later]
    exact H.onSeek_eq _ _ _

/-- Media that go on alike give the same answer to a read. -/
theorem read_alike (H : m.Alike m') (wanted : Nat) :
    (m'.read wanted).1 = (m.read wanted).1 ∧ (m.read wanted).2.Alike (m'.read wanted).2 := by
  have hturn : m'.conduct.onRead m'.tally = m.conduct.onRead m.tally := H.onRead_eq 0 0 0
  simp only [read, hturn, H.data_eq, H.cursor_eq, H.interrupted_eq]
  split
  · exact ⟨rfl, H.later m.cursor 0 0 0 _⟩
  · split
    · exact ⟨rfl, H.later _ 1 0 0 0⟩
    · exact ⟨rfl, H.later m.cursor 1 1 0 0⟩

/-- What becomes of a read that is asked for, by what its first attempt leads to. -/
theorem ask_eq (wanted : Nat) (m : Medium) :
    ask wanted m =
      match (m.read wanted).1 with
      | .interrupted => ask wanted (m.read wanted).2
      | .bytes part => .ok part (m.read wanted).2
      | .refused fault => .error fault (m.read wanted).2 := by
  rw [ask]
  split <;> rename_i hr <;> rw [hr]

theorem conduct_ask (wanted : Nat) (m : Medium) :
    match ask wanted m with
    | .ok _ m' => m'.conduct = m.conduct
    | .error _ m' => m'.conduct = m.conduct := by
  rw [ask_eq_answer]
  cases (m.conduct.onRead m.tally m.cursor wanted).answer <;> rfl

theorem ask_alike (H : m.Alike m') (wanted : Nat) :
    Matched Alike (ask wanted m) (ask wanted m') := by
  fun_induction ask wanted m generalizing m' with
  | case1 m n hr ih =>
      obtain ⟨hreading, halike⟩ := read_alike H wanted
      rw [hr] at hreading halike
      rw [ask_eq wanted m', hreading]
      exact ih halike
  | case2 m part n hr =>
      obtain ⟨hreading, halike⟩ := read_alike H wanted
      rw [hr] at hreading halike
      rw [ask_eq wanted m', hreading]
      exact .ok part halike
  | case3 m fault n hr =>
      obtain ⟨hreading, halike⟩ := read_alike H wanted
      rw [hr] at hreading halike
      rw [ask_eq wanted m', hreading]
      exact .error fault halike

theorem seek_alike (H : m.Alike m') (target : Nat) :
    (m'.seek target).1 = (m.seek target).1 ∧ (m.seek target).2.Alike (m'.seek target).2 := by
  have hanswer : m'.conduct.onSeek m'.tally = m.conduct.onSeek m.tally := H.onSeek_eq 0 0 0
  simp only [seek, hanswer]
  split
  · refine ⟨rfl, ?_⟩
    rw [H.data_eq, H.cursor_eq, H.interrupted_eq]
    exact H.later m.cursor 0 0 1 _
  · refine ⟨rfl, ?_⟩
    rw [H.data_eq, H.interrupted_eq]
    exact H.later target 0 0 1 _

end Medium

/-! ## What is kept up -/

namespace Source

/-- A relation that reading and seeking keep up, with equal outcomes, positions and lengths. -/
structure Coupling (R : Source → Source → Prop) : Prop where
  readExact : ∀ {s t : Source}, R s t → ∀ n, Matched R (readExact n s) (readExact n t)
  seek : ∀ {s t : Source}, R s t → ∀ target, Matched R (seek target s) (seek target t)
  position_eq : ∀ {s t : Source}, R s t → t.position = s.position
  length_eq : ∀ {s t : Source}, R s t → t.length = s.length

variable {R : Source → Source → Prop} {s t : Source}

theorem Coupling.readByte? (H : Coupling R) (h : R s t) :
    Matched R (readByte? s) (readByte? t) := by
  rw [Source.readByte?, Source.readByte?]
  obtain ⟨bs, s', t', hs, ht, h'⟩ | ⟨fault, s', t', hs, ht, h'⟩ := H.readExact h 1
  · simp only [hs, ht]
    exact .ok _ h'
  · simp only [hs, ht]
    split
    · exact .ok _ h'
    · exact .error _ h'

theorem Coupling.skip (H : Coupling R) (h : R s t) (count : Nat) :
    Matched R (skip count s) (skip count t) := by
  rw [Source.skip, Source.skip, H.position_eq h]
  exact H.seek h _

/-! ## Three couplings -/

/-- Both sources stand at the same place in the same data, and refuse nothing. -/
def Together (data : List UInt8) (length : Option Nat) (s t : Source) : Prop :=
  ∃ pos, s.At data length pos ∧ t.At data length pos

theorem coupling_together (data : List UInt8) (length : Option Nat) :
    Coupling (Together data length) where
  readExact := by
    rintro s t ⟨pos, hs, ht⟩ n
    by_cases hfits : pos + n ≤ data.length
    · obtain ⟨s', hread, hs'⟩ := readExact_spec hs hfits
      obtain ⟨t', hread', ht'⟩ := readExact_spec ht hfits
      rw [hread, hread']
      exact .ok _ ⟨_, hs', ht'⟩
    · by_cases hn : n = 0
      · rw [hn, readExact_zero, readExact_zero]
        exact .ok _ ⟨pos, hs, ht⟩
      · obtain ⟨s', hread, hs'⟩ := readExact_end hs (Nat.pos_of_ne_zero hn) (by omega)
        obtain ⟨t', hread', ht'⟩ := readExact_end ht (Nat.pos_of_ne_zero hn) (by omega)
        rw [hread, hread']
        exact .error _ ⟨_, hs', ht'⟩
  seek := by
    rintro s t ⟨pos, hs, ht⟩ target
    obtain ⟨s', hseek, hs'⟩ := seek_spec hs target
    obtain ⟨t', hseek', ht'⟩ := seek_spec ht target
    rw [hseek, hseek']
    exact .ok _ ⟨target, hs', ht'⟩
  position_eq := by
    rintro s t ⟨pos, hs, ht⟩
    rw [hs.position_eq, ht.position_eq]
  length_eq := by
    rintro s t ⟨pos, hs, ht⟩
    rw [hs.length_eq, ht.length_eq]

/-- Two sources differ in their media alone, which go on alike. -/
def Alike (s t : Source) : Prop := ∃ medium, s.medium.Alike medium ∧ t = { s with medium := medium }

private theorem gather_alike (wanted : Nat) (got : Array UInt8) (s t : Source) (H : s.Alike t) :
    Matched Alike (gather wanted got s) (gather wanted got t) := by
  fun_induction gather wanted got s generalizing t with
  | case1 got s h =>
      obtain ⟨medium, hm, rfl⟩ := H
      rw [gather, if_pos h]
      exact .ok _ ⟨medium, hm, rfl⟩
  | case2 got s h fault n hr =>
      obtain ⟨medium, hm, rfl⟩ := H
      have hask := Medium.ask_alike hm (wanted - got.size)
      rw [hr] at hask
      obtain ⟨n', hr', hn⟩ := hask.exists_error
      rw [gather, if_neg h]
      simp only [hr']
      exact .error _ ⟨n', hn, rfl⟩
  | case3 got s h part n hr h0 =>
      obtain ⟨medium, hm, rfl⟩ := H
      have hask := Medium.ask_alike hm (wanted - got.size)
      rw [hr] at hask
      obtain ⟨n', hr', hn⟩ := hask.exists_ok
      rw [gather, if_neg h]
      simp only [hr', if_pos h0]
      exact .error _ ⟨n', hn, rfl⟩
  | case4 got s h part n hr h0 ih =>
      obtain ⟨medium, hm, rfl⟩ := H
      have hask := Medium.ask_alike hm (wanted - got.size)
      rw [hr] at hask
      obtain ⟨n', hr', hn⟩ := hask.exists_ok
      have hnext : gather wanted got { s with medium := medium } =
          gather wanted (got ++ part) { s with medium := n' } := by
        rw [gather, if_neg h]
        simp only [hr', if_neg h0]
      rw [hnext]
      exact ih _ ⟨n', hn, rfl⟩

theorem coupling_alike : Coupling Alike where
  readExact h n := gather_alike n #[] _ _ h
  seek := by
    rintro s t ⟨medium, hm, rfl⟩ target
    obtain ⟨hanswer, halike⟩ := Medium.seek_alike hm target
    rw [seek, seek]
    rcases hs : s.medium.seek target with ⟨_ | _, n⟩ <;>
      rcases ht : medium.seek target with ⟨_ | _, n'⟩ <;>
      rw [hs, ht] at hanswer halike
    · cases hanswer
      exact .error _ ⟨n', halike, rfl⟩
    · cases hanswer
    · cases hanswer
    · exact .ok () ⟨n', halike, rfl⟩
  position_eq := by
    rintro s t ⟨medium, -, rfl⟩
    rfl
  length_eq := by
    rintro s t ⟨medium, -, rfl⟩
    rfl

/-- What never changes about a source: its length, and the choices of its medium. -/
def Fixed (length : Option Nat) (conduct : Conduct) (s : Source) : Prop :=
  s.length = length ∧ s.medium.conduct = conduct

private theorem gather_fixed {length : Option Nat} {conduct : Conduct} (wanted : Nat)
    (got : Array UInt8) (s : Source) (H : Fixed length conduct s) :
    match gather wanted got s with
    | .ok _ s' => Fixed length conduct s'
    | .error _ s' => Fixed length conduct s' := by
  fun_induction gather wanted got s with
  | case1 got s h => exact H
  | case2 got s h fault m hr =>
      have key := Medium.conduct_ask (wanted - got.size) s.medium
      rw [hr] at key
      exact ⟨H.1, key.trans H.2⟩
  | case3 got s h part m hr h0 =>
      have key := Medium.conduct_ask (wanted - got.size) s.medium
      rw [hr] at key
      exact ⟨H.1, key.trans H.2⟩
  | case4 got s h part m hr h0 ih =>
      have key := Medium.conduct_ask (wanted - got.size) s.medium
      rw [hr] at key
      exact ih ⟨H.1, key.trans H.2⟩

theorem coupling_same (length : Option Nat) (conduct : Conduct) :
    Coupling fun s t => s = t ∧ s.Fixed length conduct where
  readExact := by
    rintro s _ ⟨rfl, hs⟩ n
    have key := gather_fixed n #[] s hs
    rw [← readExact] at key
    rcases hr : readExact n s with ⟨bs, s'⟩ | ⟨fault, s'⟩ <;> rw [hr] at key
    · exact .ok bs ⟨rfl, key⟩
    · exact .error fault ⟨rfl, key⟩
  seek := by
    rintro s _ ⟨rfl, hs⟩ target
    rw [seek, Medium.seek]
    rcases s.medium.conduct.onSeek s.medium.tally target with _ | fault
    · exact .ok () ⟨rfl, hs⟩
    · exact .error fault ⟨rfl, hs⟩
  position_eq := by
    rintro s _ ⟨rfl, -⟩
    rfl
  length_eq := by
    rintro s _ ⟨rfl, -⟩
    rfl

end Source

end MpegAudio
