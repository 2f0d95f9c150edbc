import MpegAudio.Proofs.Source.Failing

/-!
# Sources that refuse nothing

Over a medium that refuses nothing a source is a byte string with a position. How large the pieces
are in which the medium gives its bytes, and how often it is interrupted, shows nowhere: a read
returns the stretch at the position and moves behind it, or runs into the end of the data and stays
there, and a seek goes where it is sent.

The medium keeps a cursor and the source keeps an account of it. `At` says that the two agree, so
that every operation below hands on what the next one needs.
-/

namespace MpegAudio

open Bytes

theorem bind_of_ok {ε σ α β : Type} {act : EStateM ε σ α} {next : α → EStateM ε σ β} {a : α}
    {s s' : σ} (h : act s = .ok a s') : (act >>= next) s = next a s' := by
  simp only [bind, EStateM.bind, h]

theorem bind_of_error {ε σ α β : Type} {act : EStateM ε σ α} {next : α → EStateM ε σ β} {e : ε}
    {s s' : σ} (h : act s = .error e s') : (act >>= next) s = .error e s' := by
  simp only [bind, EStateM.bind, h]

theorem exists_of_bind_ok {ε σ α β : Type} {act : EStateM ε σ α} {next : α → EStateM ε σ β} {b : β}
    {s s'' : σ} (h : (act >>= next) s = .ok b s'') :
    ∃ a s', act s = .ok a s' ∧ next a s' = .ok b s'' := by
  rcases hact : act s with ⟨a, s'⟩ | ⟨e, s'⟩
  · rw [bind_of_ok hact] at h
    exact ⟨a, s', rfl, h⟩
  · rw [bind_of_error hact] at h
    cases h

namespace Source

/-- The source stands at `pos` in `data`, says that the data has `length` bytes, and refuses
nothing. -/
structure At (s : Source) (data : List UInt8) (length : Option Nat) (pos : Nat) : Prop where
  data_eq : s.medium.data.toList = data
  length_eq : s.length = length
  cursor_eq : s.medium.cursor = pos
  position_eq : s.position = pos
  faultless : s.medium.conduct.Faultless

variable {s s' : Source} {data : List UInt8} {length : Option Nat} {pos : Nat}

theorem at_ofMedium {m : Medium} (H : m.conduct.Faultless) (length : Option Nat) :
    (ofMedium m length).At m.data.toList length m.cursor :=
  ⟨rfl, rfl, rfl, rfl, H⟩

theorem At.on (H : s.At data length pos) : s.On data pos :=
  ⟨H.data_eq, H.cursor_eq, H.position_eq⟩

/-- Wherever a call leads, nothing is refused there either. -/
theorem At.moved (H : s.At data length pos) {refusals seeks pos' : Nat}
    (hs : s.Moved s' refusals seeks pos') : s'.At data length pos' where
  data_eq := by rw [hs.data_eq, H.data_eq]
  length_eq := hs.length_eq.trans H.length_eq
  cursor_eq := hs.cursor_eq
  position_eq := hs.position_eq
  faultless := hs.conduct_eq ▸ H.faultless

theorem At.not_refuses (H : s.At data length pos) (p : Nat) (fault : Fault) :
    ¬ s.medium.Refuses p fault := by
  rintro ⟨tally, wanted, -, -, hrefuse⟩
  obtain ⟨count, hgive⟩ := H.faultless.gives tally p wanted
  rw [hrefuse] at hgive
  cases hgive

/-- A read that fits into the data returns the stretch at the position and moves behind it. -/
theorem readExact_spec (H : s.At data length pos) {n : Nat} (h : pos + n ≤ data.length) :
    ∃ s', readExact n s = .ok (slice data pos n) s' ∧ s'.At data length (pos + n) := by
  have hread := reads_readExact (H.cursor_eq.trans H.position_eq.symm) n
  rw [← H.data_eq, Array.length_toList, ← H.position_eq] at h
  rw [← H.position_eq]
  generalize readExact n s = x at hread ⊢
  cases hread with
  | nothing hn moved =>
      subst hn
      exact ⟨_, by rw [slice_zero], H.moved moved⟩
  | whole hn fits passes moved => exact ⟨_, by rw [H.data_eq], H.moved moved⟩
  | ends hn beyond passes moved => omega
  | refused f behind inside reached passes refuses moved => exact absurd refuses (H.not_refuses _ _)

/-- A read that does not fit runs into the end of the data and stays there, or where it is when that
lies beyond. -/
theorem readExact_end (H : s.At data length pos) {n : Nat} (hn : 0 < n)
    (h : data.length < pos + n) :
    ∃ s', readExact n s = .error .endOfData s' ∧ s'.At data length (max pos data.length) := by
  have hread := reads_readExact (H.cursor_eq.trans H.position_eq.symm) n
  have hsize : data.length = s.medium.data.size := by rw [← H.data_eq, Array.length_toList]
  rw [hsize, ← H.position_eq] at h ⊢
  generalize readExact n s = x at hread ⊢
  cases hread with
  | nothing hn' moved => omega
  | whole _ fits passes moved => omega
  | ends _ beyond passes moved => exact ⟨_, rfl, H.moved moved⟩
  | refused f behind inside reached passes refuses moved => exact absurd refuses (H.not_refuses _ _)

theorem readByte?_spec (H : s.At data length pos) (h : pos < data.length) :
    ∃ s', readByte? s = .ok (some data[pos]) s' ∧ s'.At data length (pos + 1) := by
  obtain ⟨s', hr, hat⟩ := readExact_spec H (n := 1) h
  refine ⟨s', ?_, hat⟩
  rw [readByte?, hr, slice_one h]
  rfl

theorem readByte?_end (H : s.At data length pos) (h : data.length ≤ pos) :
    ∃ s', readByte? s = .ok none s' ∧ s'.At data length pos := by
  obtain ⟨s', hr, hat⟩ := readExact_end H (n := 1) Nat.one_pos (by omega)
  rw [Nat.max_eq_left h] at hat
  refine ⟨s', ?_, hat⟩
  rw [readByte?, hr]
  rfl

theorem seek_spec (H : s.At data length pos) (target : Nat) :
    ∃ s', seek target s = .ok () s' ∧ s'.At data length target := by
  refine ⟨_, seek_of_granted (H.faultless.seeks _ _), ?_⟩
  exact ⟨H.data_eq, H.length_eq, rfl, rfl, H.faultless⟩

/-- A skip moves on by the count, up to the ceiling. -/
theorem skip_spec (H : s.At data length pos) (count : Nat) :
    ∃ s', skip count s = .ok () s' ∧ s'.At data length (saturate (pos + count)) := by
  rw [skip, H.position_eq]
  exact seek_spec H _

end Source

end MpegAudio
