import MpegAudio.Proofs.Source.Calls
import MpegAudio.Medium.Schedule

/-!
# A source as a plain reader

Where a medium refuses can depend on what it refused before and on how often it was sent elsewhere,
but also on how many reads there were, and so on its own pieces. If it does not depend on these, it
is a matter of obstacles: the medium refuses at each of them that it comes to, and passes none.

Then the obstacles alone decide what becomes of a read, and two media that meet the same ones are
one and the same to a source, however each of them goes from one to the next. A schedule is of this
kind. Its pieces and its interruptions can be changed, and nothing is seen of it.
-/

namespace MpegAudio

open Bytes

/-- Where reads and seeks are refused. It may depend on how many were before. -/
structure Obstacles where
  onRead : (refusals seeks position : Nat) → Option Fault
  onSeek : (refusals seeks target : Nat) → Option Fault

/-- On data of some size, a conduct refuses at each obstacle that it comes to, passes none, and
refuses nowhere else. How much it gives at once and how often it interrupts is left to it. -/
structure Conduct.Meets (c : Conduct) (o : Obstacles) (size : Nat) : Prop where
  passes : ∀ {refusals seeks p}, c.Passes size refusals seeks p → o.onRead refusals seeks p = none
  refuses : ∀ {refusals seeks p fault}, c.Refuses refusals seeks p fault →
    o.onRead refusals seeks p = some fault
  onSeek_eq : ∀ tally target, c.onSeek tally target = o.onSeek tally.refusals tally.seeks target

/-- The obstacles of a schedule: the barrier and all that is behind it, as long as it is there. -/
def Schedule.obstacles (s : Schedule) : Obstacles where
  onRead refusals _ position :=
    match s.barrier? refusals with
    | none => none
    | some barrier => if barrier ≤ position then some s.readFault else none
  onSeek _ _ target := if s.seekMax.any (· < target) then some s.seekFault else none

/-- A schedule never gives anything from behind its barrier. -/
theorem Schedule.meets_obstacles (s : Schedule) (size : Nat) :
    s.conduct.Meets s.obstacles size where
  passes := by
    rintro _ _ p ⟨tally, cursor, wanted, count, rfl, -, hgive, hp⟩
    simp only [conduct, answer] at hgive
    rcases hbarrier : s.barrier? tally.refusals with _ | barrier
    · simp only [obstacles, hbarrier]
    · simp only [hbarrier] at hgive
      simp only [obstacles, hbarrier]
      split at hgive
      · cases hgive
      · cases hgive
        exact if_neg (by omega)
  refuses := by
    rintro _ _ p fault ⟨tally, wanted, rfl, -, hrefuse⟩
    simp only [conduct, answer] at hrefuse
    rcases hbarrier : s.barrier? tally.refusals with _ | barrier
    · simp only [hbarrier] at hrefuse
      cases hrefuse
    · simp only [hbarrier] at hrefuse
      simp only [obstacles, hbarrier]
      split at hrefuse
      · cases hrefuse
        exact if_pos ‹_›
      · cases hrefuse
  onSeek_eq _ _ := rfl

namespace Source

variable {s s' t t' : Source} {o : Obstacles}

/-! ## Reading amid obstacles -/

/-- What the obstacles leave a read of `n` bytes: it is whole if there are none on the way, it runs
into the end of the data if there are none as far as that, and else it stands at the first. -/
structure ReadsAmid (o : Obstacles) (s : Source) (n : Nat)
    (x : EStateM.Result Fault Source (List UInt8)) : Prop where
  whole : s.position + n ≤ s.medium.data.size →
    (∀ p, s.position ≤ p → p < s.position + n →
      o.onRead s.medium.tally.refusals s.medium.tally.seeks p = none) →
    ∃ s', x = .ok (slice s.medium.data.toList s.position n) s' ∧ s'.position = s.position + n
  ends : s.medium.data.size < s.position + n →
    (∀ p, s.position ≤ p → p ≤ max s.position s.medium.data.size →
      o.onRead s.medium.tally.refusals s.medium.tally.seeks p = none) →
    ∃ s', x = .error .endOfData s' ∧ s'.position = max s.position s.medium.data.size
  refused : ∀ f fault, s.position ≤ f → f < s.position + n →
    f ≤ max s.position s.medium.data.size →
    (∀ p, s.position ≤ p → p < f →
      o.onRead s.medium.tally.refusals s.medium.tally.seeks p = none) →
    o.onRead s.medium.tally.refusals s.medium.tally.seeks f = some fault →
    ∃ s', x = .error fault s' ∧ s'.position = f

theorem Reads.amid {n : Nat} {x : EStateM.Result Fault Source (List UInt8)} (hx : s.Reads n x)
    (hn : 0 < n) (H : s.medium.conduct.Meets o s.medium.data.size) : s.ReadsAmid o n x := by
  have hpasses : ∀ {p fault}, s.medium.Passes p →
      o.onRead s.medium.tally.refusals s.medium.tally.seeks p ≠ some fault := by
    intro p fault hp hsome
    exact nomatch (H.passes hp).symm.trans hsome
  have hrefuses : ∀ {p fault}, s.medium.Refuses p fault →
      o.onRead s.medium.tally.refusals s.medium.tally.seeks p ≠ none := by
    intro p fault hp hnone
    exact nomatch (H.refuses hp).symm.trans hnone
  cases hx with
  | nothing hn' moved => omega
  | whole _ fits passes moved =>
      refine ⟨fun _ _ => ⟨_, rfl, moved.position_eq⟩, fun _ _ => by omega, ?_⟩
      intro f fault hle hlt _ _ hsome
      exact absurd hsome (hpasses (passes f hle hlt))
  | ends _ beyond passes moved =>
      refine ⟨fun _ _ => by omega, fun _ _ => ⟨_, rfl, moved.position_eq⟩, ?_⟩
      intro f fault hle _ hreached _ hsome
      exact absurd hsome (hpasses (passes f hle hreached))
  | refused f behind inside reached passes refuses moved =>
      refine ⟨fun _ hclear => ?_, fun _ hclear => ?_, ?_⟩
      · exact absurd (hclear f behind inside) (hrefuses refuses)
      · exact absurd (hclear f behind reached) (hrefuses refuses)
      · intro f' fault' hle hlt _ hclear hsome
        rcases Nat.lt_trichotomy f f' with hbefore | rfl | hafter
        · exact absurd (hclear f behind hbefore) (hrefuses refuses)
        · rw [← Option.some.inj ((H.refuses refuses).symm.trans hsome)]
          exact ⟨_, rfl, moved.position_eq⟩
        · exact absurd hsome (hpasses (passes f' hle hafter))

/-- Two sources stand at the same place in the same data, and their media meet the same obstacles,
after as many refusals and seeks. -/
structure Paced (o : Obstacles) (s t : Source) : Prop where
  cursor_eq : s.medium.cursor = s.position
  cursor_eq' : t.medium.cursor = t.position
  position_eq : t.position = s.position
  length_eq : t.length = s.length
  data_eq : t.medium.data = s.medium.data
  refusals_eq : t.medium.tally.refusals = s.medium.tally.refusals
  seeks_eq : t.medium.tally.seeks = s.medium.tally.seeks
  meets : s.medium.conduct.Meets o s.medium.data.size
  meets' : t.medium.conduct.Meets o s.medium.data.size

namespace Paced

theorem of_moved (H : Paced o s t) {refusals seeks pos : Nat} (hs : s.Moved s' refusals seeks pos)
    (ht : t.Moved t' refusals seeks pos) : Paced o s' t' where
  cursor_eq := hs.cursor_eq.trans hs.position_eq.symm
  cursor_eq' := ht.cursor_eq.trans ht.position_eq.symm
  position_eq := ht.position_eq.trans hs.position_eq.symm
  length_eq := by rw [ht.length_eq, hs.length_eq, H.length_eq]
  data_eq := by rw [ht.data_eq, hs.data_eq, H.data_eq]
  refusals_eq := by rw [ht.refusals_eq, hs.refusals_eq, H.refusals_eq]
  seeks_eq := by rw [ht.seeks_eq, hs.seeks_eq, H.seeks_eq]
  meets := by
    rw [hs.conduct_eq, hs.data_eq]
    exact H.meets
  meets' := by
    rw [ht.conduct_eq, hs.data_eq]
    exact H.meets'

/-- Where one of the two passes, the other is not refused. -/
theorem not_refuses_of_passes (H : Paced o s t) {p : Nat} {fault : Fault}
    (hs : s.medium.Passes p) : ¬ t.medium.Refuses p fault := by
  intro ht
  rw [Medium.Refuses, H.refusals_eq, H.seeks_eq] at ht
  have hboth := (H.meets.passes hs).symm.trans (H.meets'.refuses ht)
  cases hboth

theorem not_passes_of_refuses (H : Paced o s t) {p : Nat} {fault : Fault}
    (hs : s.medium.Refuses p fault) : ¬ t.medium.Passes p := by
  intro ht
  rw [Medium.Passes, H.refusals_eq, H.seeks_eq, H.data_eq] at ht
  have hboth := (H.meets'.passes ht).symm.trans (H.meets.refuses hs)
  cases hboth

theorem fault_eq (H : Paced o s t) {p : Nat} {fault fault' : Fault} (hs : s.medium.Refuses p fault)
    (ht : t.medium.Refuses p fault') : fault' = fault := by
  rw [Medium.Refuses, H.refusals_eq, H.seeks_eq] at ht
  exact Option.some.inj ((H.meets'.refuses ht).symm.trans (H.meets.refuses hs))

/-- **A read goes as far as the first obstacle**, whichever way the bytes before it are given. -/
theorem reads (H : Paced o s t) {n : Nat} {x y : EStateM.Result Fault Source (List UInt8)}
    (hx : s.Reads n x) (hy : t.Reads n y) : Matched (Paced o) x y := by
  have hpos := H.position_eq
  have hdata := H.data_eq
  cases hx with
  | nothing hn moved =>
      cases hy with
      | nothing _ moved' => exact .ok _ (H.of_moved moved (hpos ▸ moved'))
      | whole | ends | refused => omega
  | whole hn fits passes moved =>
      cases hy with
      | whole _ fits' passes' moved' =>
          rw [hpos, hdata]
          exact .ok _ (H.of_moved moved (hpos ▸ moved'))
      | nothing => omega
      | ends hn' beyond passes' moved' =>
          rw [hpos, hdata] at beyond
          omega
      | refused f behind inside reached passes' refuses moved' =>
          exact absurd refuses (H.not_refuses_of_passes (passes f (by omega) (by omega)))
  | ends hn beyond passes moved =>
      cases hy with
      | ends _ beyond' passes' moved' =>
          rw [hpos, hdata] at moved'
          exact .error _ (H.of_moved moved moved')
      | nothing => omega
      | whole _ fits passes' moved' =>
          rw [hpos, hdata] at fits
          omega
      | refused f behind inside reached passes' refuses moved' =>
          rw [hpos, hdata] at reached
          exact absurd refuses (H.not_refuses_of_passes (passes f (by omega) reached))
  | refused f behind inside reached passes refuses moved =>
      have hnot := H.not_passes_of_refuses refuses
      cases hy with
      | nothing => omega
      | whole _ fits passes' moved' => exact absurd (passes' f (by omega) (by omega)) hnot
      | ends _ beyond passes' moved' =>
          exact absurd (passes' f (by omega) (by rwa [hpos, hdata])) hnot
      | refused f' behind' inside' reached' passes' refuses' moved' =>
          -- Neither of the two places lies before the other.
          have hf : f' = f := by
            rcases Nat.lt_trichotomy f f' with hlt | heq | hlt
            · exact absurd (passes' f (by omega) hlt) hnot
            · exact heq.symm
            · exact absurd refuses' (H.not_refuses_of_passes (passes f' (by omega) hlt))
          subst hf
          rw [H.fault_eq refuses refuses']
          exact .error _ (H.of_moved moved moved')

theorem seeks (H : Paced o s t) {target : Nat} {x y : EStateM.Result Fault Source Unit}
    (hx : s.Seeks target x) (hy : t.Seeks target y) : Matched (Paced o) x y := by
  have hanswer : t.medium.conduct.onSeek t.medium.tally target =
      s.medium.conduct.onSeek s.medium.tally target := by
    rw [H.meets.onSeek_eq, H.meets'.onSeek_eq, H.refusals_eq, H.seeks_eq]
  cases hx with
  | granted h moved =>
      cases hy with
      | granted _ moved' => exact .ok () (H.of_moved moved moved')
      | refused h' _ => exact nomatch h'.symm.trans (hanswer.trans h)
  | refused h moved =>
      cases hy with
      | granted h' _ => exact nomatch h'.symm.trans (hanswer.trans h)
      | refused h' moved' =>
          rw [Option.some.inj (h'.symm.trans (hanswer.trans h))]
          exact .error _ (H.of_moved moved (H.position_eq ▸ moved'))

end Paced

/-- **Nothing that is built on sources learns how a medium gives its bytes**, or how often it
interrupts. -/
theorem coupling_paced (o : Obstacles) : Coupling (Paced o) where
  readExact H n := H.reads (reads_readExact H.cursor_eq n) (reads_readExact H.cursor_eq' n)
  seek H target := H.seeks (seeks_seek H.cursor_eq target) (seeks_seek H.cursor_eq' target)
  position_eq H := H.position_eq
  length_eq H := H.length_eq

/-- **After any calls, failed or not, a source is a plain reader** over its medium. It stands where
the medium does, and each further call ends in one of the ways that it can. Where the medium's
refusals are a matter of obstacles these say which, and any other medium over the same data that
meets the same ones gives the same answers at the same positions. -/
theorem calls_plain (m : Medium) (length : Option Nat) (cs : List Call) :
    (∀ s, (calls cs (ofMedium m length)).2 = s →
      (ofMedium m length).Kept s ∧ (∀ n, s.Reads n (readExact n s)) ∧ s.ReadsByte (readByte? s) ∧
        (∀ target, s.Seeks target (seek target s)) ∧
        ∀ count, s.Seeks (saturate (s.position + count)) (skip count s)) ∧
      ∀ o, m.conduct.Meets o m.data.size →
        (∀ s, (calls cs (ofMedium m length)).2 = s →
          ∀ n, 0 < n → s.ReadsAmid o n (readExact n s)) ∧
        ∀ m' : Medium, m'.data = m.data → m'.cursor = m.cursor →
          m'.tally.refusals = m.tally.refusals → m'.tally.seeks = m.tally.seeks →
          m'.conduct.Meets o m.data.size →
          (calls cs (ofMedium m' length)).1 = (calls cs (ofMedium m length)).1 := by
  have hkept : (ofMedium m length).Kept (calls cs (ofMedium m length)).2 :=
    ((coupling_kept (ofMedium m length)).calls ⟨rfl, rfl, rfl, rfl, rfl⟩ cs).2.2
  refine ⟨?_, fun o hmeets => ⟨?_, ?_⟩⟩
  · rintro s rfl
    refine ⟨hkept, reads_readExact hkept.cursor_eq, readsByte_readByte? hkept.cursor_eq,
      seeks_seek hkept.cursor_eq, fun count => seeks_seek hkept.cursor_eq _⟩
  · rintro s rfl n hn
    refine (reads_readExact hkept.cursor_eq n).amid hn ?_
    rw [hkept.conduct_eq, hkept.data_eq]
    exact hmeets
  · intro m' hdata hcursor hrefusals hseeks hmeets'
    have hpaced : Paced o (ofMedium m length) (ofMedium m' length) :=
      ⟨rfl, rfl, hcursor, rfl, hdata, hrefusals, hseeks, hmeets, hmeets'⟩
    exact ((coupling_paced o).calls hpaced cs).1

/-- Bytes one by one with an interruption before each but the first: a read that comes to the
barrier stands there. The answers are those of the medium that gives all bytes at once, with one
read that is refused in the middle and another that ends with the data. -/
theorem calls_plain_scheduled :
    let data : Array UInt8 := #[10, 11, 12, 13, 14, 15, 16, 17]
    let slow : Schedule :=
      { chunk := some 1, interruptEvery := 2, failAt := some 4, failTimes := some 1 }
    let s := ofMedium ⟨data, 0, slow.conduct, {}, 0⟩ none
    (∃ s', readExact 6 s = .error slow.readFault s' ∧ s'.position = 4) ∧
      (calls [.readExact 3, .readExact 3, .readByte, .skip 1, .readExact 3, .readByte] s).1 =
        [(.bytes [10, 11, 12], 3), (.failed slow.readFault, 4), (.byte (some 14), 5), (.moved, 6),
          (.failed .endOfData, 8), (.byte none, 8)] := by
  intro data slow s
  constructor
  · obtain ⟨-, hobstacles⟩ := calls_plain ⟨data, 0, slow.conduct, {}, 0⟩ none []
    obtain ⟨hamid, -⟩ := hobstacles slow.obstacles (slow.meets_obstacles 8)
    refine (hamid s rfl 6 (by decide)).refused 4 slow.readFault (by decide) (by decide) (by decide)
      ?_ (by decide)
    intro p _ hp
    exact if_neg (Nat.not_le.mpr hp)
  · let fast : Schedule := { failAt := some 4, failTimes := some 1 }
    obtain ⟨-, hobstacles⟩ := calls_plain ⟨data, 0, fast.conduct, {}, 0⟩ none
      [.readExact 3, .readExact 3, .readByte, .skip 1, .readExact 3, .readByte]
    obtain ⟨-, hsame⟩ := hobstacles slow.obstacles (fast.meets_obstacles 8)
    rw [hsame ⟨data, 0, slow.conduct, {}, 0⟩ rfl rfl rfl rfl (slow.meets_obstacles 8)]
    decide +kernel

end Source

end MpegAudio
