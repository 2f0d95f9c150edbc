import MpegAudio.Proofs.Bytes.Slice
import MpegAudio.Source.Progress

/-!
# What becomes of a call

Through a source a medium is a byte string with a position. The pieces in which the medium gives its
bytes are put together, its interruptions are overcome, and what is left of its choices is where it
refuses. A read is whole, or it runs into the end of the data, or it stands where the medium has
refused; and the position, which the source counts for itself, is that of the cursor after each of
these.

Which places a read has moved over and at which one it was refused is kept along with where it
stands. It is all that there is to know about the medium.

## Main definitions

* `Medium.Passes`, `Medium.Refuses` — the places that reads move over, and those they stop at.
* `Source.Moved` — what a call changes about a source.
* `Source.Reads`, `Source.ReadsByte`, `Source.Seeks` — all that can become of a call.
* `Source.reads_readExact`, `Source.readsByte_readByte?`, `Source.seeks_seek` — and it does.
-/

namespace MpegAudio

open Bytes

/-! ## Places -/

namespace Conduct

variable (c : Conduct) (size refusals seeks : Nat)

/-- With so many refusals and seeks before it, there is a read that is given bytes at `p`: it starts
there, or it starts before and `p` is inside the data and among its bytes. -/
def Passes (p : Nat) : Prop :=
  ∃ tally cursor wanted count, tally.refusals = refusals ∧ tally.seeks = seeks ∧
    (c.onRead tally cursor wanted).answer = .give count ∧
    (cursor = p ∨ cursor < p ∧ p < cursor + min wanted (max count 1) ∧ p < size)

/-- With so many refusals and seeks before it, there is a read that is refused at `p`. -/
def Refuses (p : Nat) (fault : Fault) : Prop :=
  ∃ tally wanted, tally.refusals = refusals ∧ tally.seeks = seeks ∧
    (c.onRead tally p wanted).answer = .refuse fault

end Conduct

namespace Medium

variable {m m' m'' : Medium} {refusals seeks refusals' seeks' p pos pos' : Nat} {fault : Fault}

/-- A read of this medium, as it is now, can move over `p`. -/
def Passes (m : Medium) (p : Nat) : Prop :=
  m.conduct.Passes m.data.size m.tally.refusals m.tally.seeks p

/-- A read of this medium, as it is now, can be refused at `p`. -/
def Refuses (m : Medium) (p : Nat) (fault : Fault) : Prop :=
  m.conduct.Refuses m.tally.refusals m.tally.seeks p fault

/-- The same medium after so many more refusals and seeks, with the cursor at `pos`. -/
structure Moved (m m' : Medium) (refusals seeks pos : Nat) : Prop where
  conduct_eq : m'.conduct = m.conduct
  data_eq : m'.data = m.data
  refusals_eq : m'.tally.refusals = m.tally.refusals + refusals
  seeks_eq : m'.tally.seeks = m.tally.seeks + seeks
  cursor_eq : m'.cursor = pos

theorem Moved.refl (m : Medium) : m.Moved m 0 0 m.cursor := ⟨rfl, rfl, rfl, rfl, rfl⟩

theorem Moved.trans (H : m.Moved m' refusals seeks pos) (H' : m'.Moved m'' refusals' seeks' pos') :
    m.Moved m'' (refusals + refusals') (seeks + seeks') pos' := by
  refine ⟨H'.conduct_eq.trans H.conduct_eq, H'.data_eq.trans H.data_eq, ?_, ?_, H'.cursor_eq⟩
  · rw [H'.refusals_eq, H.refusals_eq, Nat.add_assoc]
  · rw [H'.seeks_eq, H.seeks_eq, Nat.add_assoc]

theorem Moved.passes_iff (H : m.Moved m' 0 0 pos) : m'.Passes p ↔ m.Passes p := by
  rw [Passes, Passes, H.conduct_eq, H.data_eq, H.refusals_eq, H.seeks_eq]
  rfl

theorem Moved.refuses_iff (H : m.Moved m' 0 0 pos) : m'.Refuses p fault ↔ m.Refuses p fault := by
  rw [Refuses, Refuses, H.conduct_eq, H.refusals_eq, H.seeks_eq]
  rfl

/-- The interruptions of a read do not show: what is asked for is answered as if there were none. -/
theorem ask_eq_answer (wanted : Nat) (m : Medium) :
    ask wanted m =
      match (m.conduct.onRead m.tally m.cursor wanted).answer with
      | .give count =>
        .ok (m.data.extract m.cursor (m.cursor + min wanted (max count 1)))
          { m with
            cursor :=
              m.cursor + (m.data.extract m.cursor (m.cursor + min wanted (max count 1))).size
            tally := { m.tally with reads := m.tally.reads + 1 }
            interrupted := 0 }
      | .refuse fault =>
        .error fault
          { m with
            tally :=
              { m.tally with reads := m.tally.reads + 1, refusals := m.tally.refusals + 1 }
            interrupted := 0 } := by
  fun_induction ask wanted m with
  | case1 m n hr ih =>
      simp only [read] at hr
      split at hr
      · cases hr
        exact ih
      · split at hr <;> cases hr
  | case2 m part n hr =>
      simp only [read] at hr
      split at hr
      · cases hr
      · rcases hanswer : (m.conduct.onRead m.tally m.cursor wanted).answer with count | fault
        · simp only [hanswer] at hr ⊢
          cases hr
          rfl
        · simp only [hanswer] at hr
          cases hr
  | case3 m fault n hr =>
      simp only [read] at hr
      split at hr
      · cases hr
      · rcases hanswer : (m.conduct.onRead m.tally m.cursor wanted).answer with count | fault
        · simp only [hanswer] at hr
          cases hr
        · simp only [hanswer] at hr ⊢
          cases hr
          rfl

/-- What one answer of the medium adds to the bytes gathered so far is the stretch of the data at
the cursor. -/
theorem toList_of_ask {wanted : Nat} {part : Array UInt8} (h : ask wanted m = .ok part m') :
    part.toList = slice m.data.toList m.cursor part.size := by
  have hp := congrArg Array.toList (cursor_of_ask h).2.2.2
  rw [Array.toList_extract, List.extract_eq_take_drop] at hp
  rw [hp, slice]
  congr 1
  omega

/-- An answer moves over the bytes that it gives, of which there are some unless the data ends. -/
theorem moved_of_ask {wanted : Nat} {part : Array UInt8} (hwanted : 0 < wanted)
    (H : ask wanted m = .ok part m') :
    m.Moved m' 0 0 (m.cursor + part.size) ∧ m.Passes m.cursor ∧
      (∀ p, m.cursor ≤ p → p < m.cursor + part.size → m.Passes p) ∧
      (part.size = 0 → m.data.size ≤ m.cursor) := by
  rw [ask_eq_answer] at H
  split at H
  · rename_i count hanswer
    cases H
    refine ⟨⟨rfl, rfl, rfl, rfl, rfl⟩,
      ⟨m.tally, m.cursor, wanted, count, rfl, rfl, hanswer, .inl rfl⟩, ?_, ?_⟩
    · intro p hle hlt
      rw [Array.size_extract] at hlt
      refine ⟨m.tally, m.cursor, wanted, count, rfl, rfl, hanswer, ?_⟩
      omega
    · intro hzero
      rw [Array.size_extract] at hzero
      omega
  · cases H

theorem moved_of_ask_error {wanted : Nat} (H : ask wanted m = .error fault m') :
    m.Moved m' 1 0 m.cursor ∧ m.Refuses m.cursor fault := by
  rw [ask_eq_answer] at H
  split at H
  · cases H
  · rename_i hanswer
    cases H
    exact ⟨⟨rfl, rfl, rfl, rfl, rfl⟩, m.tally, wanted, rfl, rfl, hanswer⟩

end Medium

/-! ## Calls -/

namespace Source

variable {s s' t t' : Source}

/-- The same source after so many more refusals and seeks of its medium, at `pos`: there is the
cursor, and there the position. -/
structure Moved (s s' : Source) (refusals seeks pos : Nat) : Prop
    extends Medium.Moved s.medium s'.medium refusals seeks pos where
  position_eq : s'.position = pos
  length_eq : s'.length = s.length

/-- What can become of a read of `n` bytes: nothing if there are none, the stretch at the position,
the end of the data, or a refusal in between. The places on the way have been passed. -/
inductive Reads (s : Source) (n : Nat) : EStateM.Result Fault Source (List UInt8) → Prop where
  | nothing {s' : Source} (hn : n = 0) (moved : s.Moved s' 0 0 s.position) : Reads s n (.ok [] s')
  | whole {s' : Source} (hn : 0 < n) (fits : s.position + n ≤ s.medium.data.size)
      (passes : ∀ p, s.position ≤ p → p < s.position + n → s.medium.Passes p)
      (moved : s.Moved s' 0 0 (s.position + n)) :
      Reads s n (.ok (slice s.medium.data.toList s.position n) s')
  | ends {s' : Source} (hn : 0 < n) (beyond : s.medium.data.size < s.position + n)
      (passes : ∀ p, s.position ≤ p → p ≤ max s.position s.medium.data.size → s.medium.Passes p)
      (moved : s.Moved s' 0 0 (max s.position s.medium.data.size)) :
      Reads s n (.error .endOfData s')
  | refused {s' : Source} {fault : Fault} (f : Nat) (behind : s.position ≤ f)
      (inside : f < s.position + n) (reached : f ≤ max s.position s.medium.data.size)
      (passes : ∀ p, s.position ≤ p → p < f → s.medium.Passes p)
      (refuses : s.medium.Refuses f fault) (moved : s.Moved s' 1 0 f) :
      Reads s n (.error fault s')

/-- What can become of a read of one byte. A refusal that says that the data has ended is taken at
its word. -/
inductive ReadsByte (s : Source) : EStateM.Result Fault Source (Option UInt8) → Prop where
  | byte {s' : Source} (h : s.position < s.medium.data.size)
      (moved : s.Moved s' 0 0 (s.position + 1)) :
      ReadsByte s (.ok (some s.medium.data[s.position]) s')
  | ends {s' : Source} (h : s.medium.data.size ≤ s.position) (moved : s.Moved s' 0 0 s.position) :
      ReadsByte s (.ok none s')
  | refused {s' : Source} {fault : Fault} (refuses : s.medium.Refuses s.position fault)
      (moved : s.Moved s' 1 0 s.position) :
      ReadsByte s (if fault.IsEnd then .ok none s' else .error fault s')

/-- What can become of a change of position. -/
inductive Seeks (s : Source) (target : Nat) : EStateM.Result Fault Source Unit → Prop where
  | granted {s' : Source} (h : s.medium.conduct.onSeek s.medium.tally target = none)
      (moved : s.Moved s' 0 1 target) : Seeks s target (.ok () s')
  | refused {s' : Source} {fault : Fault}
      (h : s.medium.conduct.onSeek s.medium.tally target = some fault)
      (moved : s.Moved s' 0 1 s.position) : Seeks s target (.error fault s')

theorem size_le_of_slice {data : List UInt8} {pos : Nat} {got : Array UInt8}
    (h : got.toList = slice data pos got.size) :
    got.size ≤ data.length - pos := by
  have hlen := congrArg List.length h
  rw [length_slice, Array.length_toList] at hlen
  omega

/-- Gathering on, when the medium has moved over what is gathered. -/
private theorem gather_reads (wanted : Nat) (got : Array UInt8) (t : Source) (hwanted : 0 < wanted)
    (hgot : got.size ≤ wanted) (hmoved : s.medium.Moved t.medium 0 0 (s.position + got.size))
    (hposition : t.position = s.position) (hlength : t.length = s.length)
    (hlist : got.toList = slice s.medium.data.toList s.position got.size)
    (hpasses : ∀ p, s.position ≤ p → p < s.position + got.size → s.medium.Passes p) :
    s.Reads wanted (gather wanted got t) := by
  have hinside := size_le_of_slice hlist
  rw [Array.length_toList] at hinside
  fun_induction gather wanted got t with
  | case1 got t h =>
      have hw : wanted = got.size := by omega
      rw [hlist, ← hw]
      rw [← hw] at hmoved hpasses
      exact .whole hwanted (by omega) hpasses ⟨hmoved, by rw [advance, hposition, hw], hlength⟩
  | case2 got t h fault m hr =>
      obtain ⟨hask, hrefuses⟩ := Medium.moved_of_ask_error hr
      rw [hmoved.refuses_iff, hmoved.cursor_eq] at hrefuses
      rw [hmoved.cursor_eq] at hask
      exact .refused (s.position + got.size) (by omega) (by omega) (by omega) hpasses hrefuses
        ⟨hmoved.trans hask, by rw [advance, hposition], hlength⟩
  | case3 got t h part m hr h0 =>
      obtain ⟨hask, hhere, -, hend⟩ := Medium.moved_of_ask (by omega) hr
      have hover := hend h0
      rw [hmoved.passes_iff, hmoved.cursor_eq] at hhere
      rw [hmoved.cursor_eq, hmoved.data_eq] at hover
      rw [hmoved.cursor_eq, h0] at hask
      have hmax : max s.position s.medium.data.size = s.position + got.size := by omega
      refine .ends hwanted (by omega) ?_ ?_
      · intro p hle hp
        rcases Nat.lt_or_eq_of_le hp with hlt | rfl
        · exact hpasses p hle (by omega)
        · rwa [hmax]
      · rw [hmax]
        exact ⟨hmoved.trans hask, by rw [advance, hposition], hlength⟩
  | case4 got t h part m hr h0 ih =>
      obtain ⟨hask, -, hover, -⟩ := Medium.moved_of_ask (by omega) hr
      obtain ⟨-, -, hle, -⟩ := Medium.cursor_of_ask hr
      have hpart := Medium.toList_of_ask hr
      rw [hmoved.cursor_eq, hmoved.data_eq] at hpart
      rw [hmoved.cursor_eq] at hask hover
      have hlist' : (got ++ part).toList =
          slice s.medium.data.toList s.position (got ++ part).size := by
        rw [Array.toList_append, hlist, hpart, slice_append_slice, Array.size_append]
      have hinside' := size_le_of_slice hlist'
      rw [Array.length_toList] at hinside'
      refine ih ?_ ?_ hposition hlength hlist' ?_ hinside'
      · rw [Array.size_append]
        omega
      · rw [Array.size_append, ← Nat.add_assoc]
        exact hmoved.trans hask
      · intro p hp hlt
        rw [Array.size_append] at hlt
        by_cases hold : p < s.position + got.size
        · exact hpasses p hp hold
        · exact hmoved.passes_iff.mp (hover p (by omega) (by omega))

theorem readExact_zero (s : Source) : readExact 0 s = .ok [] s := by
  rw [readExact, gather]
  simp [advance]

/-- A read, wherever the position is that of the cursor. -/
theorem reads_readExact (H : s.medium.cursor = s.position) (n : Nat) :
    s.Reads n (readExact n s) := by
  rcases Nat.eq_zero_or_pos n with rfl | hn
  · rw [readExact_zero]
    exact .nothing rfl ⟨H ▸ Medium.Moved.refl s.medium, rfl, rfl⟩
  · refine gather_reads n #[] s hn (Nat.zero_le n) ?_ rfl rfl (slice_zero _ _).symm ?_
    · exact H ▸ Medium.Moved.refl s.medium
    · intro p hle hlt
      exact absurd hlt (Nat.not_lt.mpr hle)

theorem readsByte_readByte? (H : s.medium.cursor = s.position) : s.ReadsByte (readByte? s) := by
  have hread := reads_readExact H 1
  rw [readByte?]
  rcases hr : readExact 1 s with ⟨bs, s'⟩ | ⟨fault, s'⟩ <;> rw [hr] at hread
  · cases hread with
    | nothing hn moved => cases hn
    | whole hn fits passes moved =>
        have hinside : s.position < s.medium.data.toList.length := by
          rw [Array.length_toList]
          omega
        simp only [slice_one hinside, List.head?_cons, Array.getElem_toList]
        exact .byte fits moved
  · cases hread with
    | ends hn beyond passes moved =>
        rw [Nat.max_eq_left (by omega)] at moved
        simp only [if_pos Fault.isEnd_endOfData]
        exact .ends (by omega) moved
    | refused f behind inside reached passes refuses moved =>
        have hf : f = s.position := by omega
        rw [hf] at refuses moved
        exact .refused refuses moved

theorem seek_of_granted {target : Nat}
    (H : s.medium.conduct.onSeek s.medium.tally target = none) :
    seek target s = .ok ()
      { s with
        medium :=
          { s.medium with
            cursor := target
            tally := { s.medium.tally with seeks := s.medium.tally.seeks + 1 } }
        position := target } := by
  simp only [seek, Medium.seek, H]

theorem seeks_seek (H : s.medium.cursor = s.position) (target : Nat) :
    s.Seeks target (seek target s) := by
  rcases hanswer : s.medium.conduct.onSeek s.medium.tally target with _ | fault
  · rw [seek_of_granted hanswer]
    exact .granted hanswer ⟨⟨rfl, rfl, rfl, rfl, rfl⟩, rfl, rfl⟩
  · simp only [seek, Medium.seek, hanswer]
    exact .refused hanswer ⟨⟨rfl, rfl, rfl, rfl, H⟩, rfl, rfl⟩

end Source

end MpegAudio
