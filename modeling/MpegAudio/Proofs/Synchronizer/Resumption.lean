import MpegAudio.Medium.Schedule
import MpegAudio.Proofs.Synchronizer.Place
import Mathlib.Algebra.Ring.Nat

/-!
# Searches in a row

A search ends when it has found a header, when its budget is used up, when the data ends or seems to
end, or when a read fails. In all cases but the first the window keeps what the next search needs.
So several searches in a row look at the same positions as a single one would: each once, in order,
and none is passed over.

What a search looks at is not part of its outcome, so the loop is written a second time here with an
account of the windows that it examines. Without the account it is the loop of the reader.

## Main definitions

* `Synchronizer.Look` — one window that was examined, and where it stands.
* `Synchronizer.searchLooking` — a search with an account of its looks; `fst_searchLooking` says
  that it is the search.
* `Synchronizer.Facing data next s` — the next position to be examined, over any medium.
* `Synchronizer.findFirst calls s` — searches one after the other up to the first that succeeds.
* `Synchronizer.search_resumes` — what they look at, and what they find.
-/

namespace MpegAudio.Synchronizer

open Bytes Header

/-! ## Looks -/

/-- One window that was examined for a header, and where its first byte stands. -/
structure Look where
  position : Nat
  window : List UInt8
  deriving DecidableEq, Repr

/-- Slides the window on as `slide` does, with an account of the windows examined. -/
def slideLooking (examined : Nat) :
    (budget : Nat) → Synchronizer → EStateM.Result Fault Synchronizer Search × List Look
  | 0, s => (.ok (.missed examined) s, [])
  | budget + 1, s =>
    match onSource Source.readByte? s with
    | .error fault s => (.error fault s, [])
    | .ok none s => (.ok (.missed examined) s, [])
    | .ok (some b) s =>
      let window := slid s.window b
      let look : Look := ⟨s.source.position - size, window⟩
      match ofBytes? window with
      | some header => (.ok .found (s.lock header window), [look])
      | none =>
        let later := slideLooking (examined + 1) budget { s with window := window }
        (later.1, look :: later.2)

/-- Searches as `search` does, with an account of the windows examined. -/
def searchLooking (budget : Nat) (s : Synchronizer) :
    EStateM.Result Fault Synchronizer Search × List Look :=
  let s := { s with held := none }
  if budget = 0 then (.ok (.missed 0) s, [])
  else
    match prime (3 - s.window.length) s with
    | .error fault s => (.error fault s, [])
    | .ok false s => (.ok (.missed 0) s, [])
    | .ok true s => slideLooking 0 budget s

theorem fst_slideLooking (budget : Nat) :
    ∀ (examined : Nat) (s : Synchronizer),
      (slideLooking examined budget s).1 = slide examined budget s := by
  induction budget with
  | zero =>
      intro examined s
      rfl
  | succ budget ih =>
      intro examined s
      rw [slideLooking, slide]
      rcases onSource Source.readByte? s with ⟨_ | b, s'⟩ | ⟨fault, s'⟩
      · rfl
      · cases hheader : ofBytes? (slid s'.window b) with
        | none => simp only [hheader, ih]
        | some header => simp only [hheader]
      · rfl

theorem fst_searchLooking (budget : Nat) (s : Synchronizer) :
    (searchLooking budget s).1 = search budget s := by
  rw [searchLooking, search]
  by_cases hbudget : budget = 0
  · simp only [if_pos hbudget]
  · simp only [if_neg hbudget]
    rcases prime (3 - s.window.length) { s with held := none } with ⟨_ | _, s'⟩ | ⟨fault, s'⟩
    · rfl
    · exact fst_slideLooking budget 0 s'
    · rfl

/-- The looks at `n` positions from `next` on. -/
def looksAt (data : List UInt8) (next n : Nat) : List Look :=
  (List.range' next n).map fun c => ⟨c, slice data c size⟩

variable {data : List UInt8} {s : Synchronizer} {next : Nat}

theorem looksAt_succ (data : List UInt8) (next n : Nat) :
    looksAt data next (n + 1) = ⟨next, slice data next size⟩ :: looksAt data (next + 1) n := by
  simp [looksAt, List.range'_succ]

theorem looksAt_append (data : List UInt8) (next m n : Nat) :
    looksAt data next m ++ looksAt data (next + m) n = looksAt data next (m + n) := by
  simp [looksAt, ← List.map_append]

/-! ## One search -/

/-- Next to be examined is the position `next`: the bytes of the window that still count are those
from there up to the source. -/
structure Facing (data : List UInt8) (next : Nat) (s : Synchronizer) : Prop where
  window : s.tail = slice data next s.tail.length
  source : s.source.On data (next + s.tail.length)

/-- Whether a search succeeded, and the reader that it leaves behind. -/
def verdict : EStateM.Result Fault Synchronizer Search → Bool × Synchronizer
  | .ok .found s => (true, s)
  | .ok (.missed _) s => (false, s)
  | .error _ s => (false, s)

/-- What `n` looks from `next` on lead to: the last of them shows a header and those before it show
none, or none of them does and the position behind them comes next. -/
def Led (data : List UInt8) (next n : Nat) : Bool × Synchronizer → Prop
  | (true, s) => ∃ p h, next + n = p + 1 ∧ next ≤ p ∧ at? data p = some h ∧
      (∀ c, next ≤ c → c < p → at? data c = none) ∧
      s.held = some ⟨h, slice data p size⟩ ∧ s.frameStart = p
  | (false, s) => (∀ c, next ≤ c → c < next + n → at? data c = none) ∧ Facing data (next + n) s

/-- Nothing has been looked at where the reader still faces the same position. -/
theorem Facing.led (H : Facing data next s) : Led data next 0 (false, s) :=
  ⟨fun _ hle hlt => absurd hlt (Nat.not_lt.mpr hle), H⟩

/-- A position that shows no header, and then the positions behind it. -/
theorem Led.append {m n : Nat} {v : Bool × Synchronizer} (H : Led data (next + m) n v)
    (hnone : ∀ c, next ≤ c → c < next + m → at? data c = none) : Led data next (m + n) v := by
  have hsum : next + m + n = next + (m + n) := by omega
  rcases v with ⟨_ | _, s⟩
  · obtain ⟨hlater, hfacing⟩ := H
    rw [hsum] at hlater hfacing
    refine ⟨fun c hle hlt => ?_, hfacing⟩
    by_cases hc : c < next + m
    · exact hnone c hle hc
    · exact hlater c (by omega) hlt
  · obtain ⟨p, h, hn, hle, hat, hlater, hheld, hstart⟩ := H
    refine ⟨p, h, by omega, by omega, hat, fun c hle' hlt => ?_, hheld, hstart⟩
    by_cases hc : c < next + m
    · exact hnone c hle' hc
    · exact hlater c (by omega) hlt

/-- Asking for a byte: it is the one behind the window, or the reader faces the same position. -/
theorem Facing.onSource_readByte? (H : Facing data next s) :
    match onSource Source.readByte? s with
    | .ok (some b) s' => ∃ source, s' = { s with source := source } ∧
        slice data (next + s.tail.length) 1 = [b] ∧ source.On data (next + s.tail.length + 1)
    | .ok none s' => Facing data next s'
    | .error _ s' => Facing data next s' := by
  have hread := Source.readByte?_on H.source
  rw [onSource]
  rcases hr : s.source.readByte? with ⟨_ | b, source⟩ | ⟨fault, source⟩ <;> rw [hr] at hread
  · exact ⟨H.window, hread⟩
  · exact ⟨source, rfl, hread⟩
  · exact ⟨H.window, hread⟩

theorem prime_facing (missing : Nat) :
    ∀ s : Synchronizer, missing = 3 - s.window.length → Facing data next s →
      match prime missing s with
      | .ok true s' => Facing data next s' ∧ s'.tail.length = 3
      | .ok false s' => Facing data next s'
      | .error _ s' => Facing data next s' := by
  induction missing with
  | zero =>
      intro s hmissing H
      refine ⟨H, ?_⟩
      rw [tail, List.length_drop]
      omega
  | succ missing ih =>
      intro s hmissing H
      have hread := H.onSource_readByte?
      rw [prime]
      rcases hr : onSource Source.readByte? s with ⟨_ | b, s'⟩ | ⟨fault, s'⟩ <;> rw [hr] at hread
      · exact hread
      · obtain ⟨source, rfl, hbyte, hon⟩ := hread
        have hwindow := H.window
        rw [tail_of_length_le (by omega)] at hwindow hbyte hon
        have hlonger : tail { s with source := source, window := s.window ++ [b] } =
            s.window ++ [b] :=
          tail_of_length_le (by simp only [List.length_append, List.length_singleton]; omega)
        refine ih { s with source := source, window := s.window ++ [b] } ?_ ⟨?_, ?_⟩
        · simp only [List.length_append, List.length_singleton]
          omega
        · rw [hlonger, List.length_append, List.length_singleton, ← slice_append_slice, hbyte,
            ← hwindow]
        · rw [hlonger, List.length_append, List.length_singleton]
          exact hon
      · exact hread

theorem slideLooking_led (budget : Nat) :
    ∀ (examined next : Nat) (s : Synchronizer), Facing data next s → s.tail.length = 3 →
      ∃ n, (slideLooking examined budget s).2 = looksAt data next n ∧
        Led data next n (verdict (slideLooking examined budget s).1) := by
  induction budget with
  | zero =>
      intro examined next s H _
      exact ⟨0, rfl, H.led⟩
  | succ budget ih =>
      intro examined next s H hthree
      have hread := H.onSource_readByte?
      rw [slideLooking]
      rcases hr : onSource Source.readByte? s with ⟨_ | b, s'⟩ | ⟨fault, s'⟩ <;> rw [hr] at hread
      · exact ⟨0, rfl, hread.led⟩
      · obtain ⟨source, rfl, hbyte, hon⟩ := hread
        have hwindow := H.window
        rw [hthree] at hwindow hbyte hon
        have hslid : slid s.window b = slice data next size := by
          rw [slid, ← tail, hwindow, ← hbyte, slice_append_slice]
          rfl
        have hfour : (slice data next size).length = size := by
          rw [← hslid, slid, List.length_append, ← tail, hthree]
          rfl
        have hstart : source.position - size = next := by
          rw [hon.position_eq, size]
          omega
        simp only [hslid, hstart]
        cases hheader : ofBytes? (slice data next size) with
        | some header =>
            refine ⟨1, rfl, next, header, rfl, le_rfl, hheader, ?_, rfl, hstart⟩
            intro c hle hlt
            omega
        | none =>
            -- The last three bytes of the window are those of the next position.
            have htail : (slice data next size).drop ((slice data next size).length - 3) =
                slice data (next + 1) 3 := by
              rw [hfour, drop_slice]
              rfl
            have hlen : (slice data (next + 1) 3).length = 3 := by
              rw [← htail, List.length_drop, hfour]
              rfl
            obtain ⟨n, hlooks, hled⟩ := ih (examined + 1) (next + 1)
              { s with source := source, window := slice data next size }
              ⟨by rw [tail, htail, hlen], by rw [tail, htail, hlen]; exact hon⟩
              (by rw [tail, htail, hlen])
            refine ⟨n + 1, ?_, ?_⟩
            · rw [looksAt_succ, hlooks]
            · rw [Nat.add_comm n 1]
              refine hled.append fun c hle hlt => ?_
              obtain rfl : c = next := by omega
              exact hheader
      · exact ⟨0, rfl, hread.led⟩

/-- A search looks at one position after the other, from the one that comes next. -/
theorem searchLooking_led (H : Facing data next s) (budget : Nat) :
    ∃ n, (searchLooking budget s).2 = looksAt data next n ∧
      Led data next n (verdict (search budget s)) := by
  have H₀ : Facing data next { s with held := none } := ⟨H.window, H.source⟩
  rw [← fst_searchLooking, searchLooking]
  by_cases hbudget : budget = 0
  · simp only [if_pos hbudget]
    exact ⟨0, rfl, H₀.led⟩
  · simp only [if_neg hbudget]
    have hprime := prime_facing (3 - s.window.length) { s with held := none } rfl H₀
    rcases hp : prime (3 - s.window.length) { s with held := none } with ⟨_ | _, s'⟩ | ⟨fault, s'⟩
      <;> rw [hp] at hprime
    · exact ⟨0, rfl, hprime.led⟩
    · exact slideLooking_led budget 0 next s' hprime.1 hprime.2
    · exact ⟨0, rfl, hprime.led⟩

/-! ## Searches one after the other -/

/-- A search that is asked for: over how many positions, and whether it is an error to find
nothing. -/
structure Call where
  budget : Nat
  required : Bool
  deriving DecidableEq, Repr

/-- Carries out the call, and says whether a header was found. -/
def Call.run (call : Call) : EStateM Error Synchronizer Bool := fun s =>
  if call.required then
    match require call.budget s with
    | .ok () s => .ok true s
    | .error error s => .error error s
  else
    match search call.budget s with
    | .ok outcome s => .ok (outcome = .found) s
    | .error fault s => .error (.source fault) s

/-- Carries out the calls in order up to the first that finds a header, however the calls before it
end. -/
def findFirst : List Call → Synchronizer → Bool × Synchronizer
  | [], s => (false, s)
  | call :: calls, s =>
    match call.run s with
    | .ok true s => (true, s)
    | .ok false s => findFirst calls s
    | .error _ s => findFirst calls s

/-- What these calls look at, in order. -/
def looks : List Call → Synchronizer → List Look
  | [], _ => []
  | call :: calls, s =>
    (searchLooking call.budget s).2 ++
      match call.run s with
      | .ok true _ => []
      | .ok false s => looks calls s
      | .error _ s => looks calls s

/-- Whether a header has to be there makes a difference to what is reported and to nothing else. -/
theorem findFirst_cons (call : Call) (calls : List Call) (s : Synchronizer) :
    findFirst (call :: calls) s =
      match verdict (search call.budget s) with
      | (true, s') => (true, s')
      | (false, s') => findFirst calls s' := by
  rw [findFirst, Call.run]
  cases call.required with
  | false =>
      rcases search call.budget s with ⟨_ | _, s'⟩ | ⟨fault, s'⟩ <;> simp [verdict]
  | true =>
      rw [require]
      rcases search call.budget s with ⟨_ | _, s'⟩ | ⟨fault, s'⟩ <;> simp [verdict]

theorem looks_cons (call : Call) (calls : List Call) (s : Synchronizer) :
    looks (call :: calls) s = (searchLooking call.budget s).2 ++
      match verdict (search call.budget s) with
      | (true, _) => []
      | (false, s') => looks calls s' := by
  rw [looks, Call.run]
  cases call.required with
  | false =>
      rcases search call.budget s with ⟨_ | _, s'⟩ | ⟨fault, s'⟩ <;> simp [verdict]
  | true =>
      rw [require]
      rcases search call.budget s with ⟨_ | _, s'⟩ | ⟨fault, s'⟩ <;> simp [verdict]

/-- **Searches in a row look at one position after the other**, whatever the medium does. -/
theorem looks_led (calls : List Call) :
    ∀ (next : Nat) (s : Synchronizer), Facing data next s →
      ∃ n, looks calls s = looksAt data next n ∧ Led data next n (findFirst calls s) := by
  induction calls with
  | nil =>
      intro next s H
      exact ⟨0, rfl, H.led⟩
  | cons call calls ih =>
      intro next s H
      obtain ⟨m, hlooks, hled⟩ := searchLooking_led H call.budget
      rw [findFirst_cons, looks_cons, hlooks]
      rcases hv : verdict (search call.budget s) with ⟨_ | _, s'⟩ <;> rw [hv] at hled
      · obtain ⟨hnone, hfacing⟩ := hled
        obtain ⟨n, hlater, hled'⟩ := ih (next + m) s' hfacing
        refine ⟨m + n, ?_, hled'.append hnone⟩
        simp only [hlater, looksAt_append]
      · exact ⟨m, List.append_nil _, hled⟩

/-! ## One search with all the budgets -/

/-- Where the source stands after `n` positions were allowed for and nothing was found, if it refuses
nothing and no byte was waiting at first. -/
def reach (data : List UInt8) (start n : Nat) : Nat :=
  if n = 0 then start else max start (min data.length (start + n + 3))

/-- What one more search adds, from the position where the ones before it left off. -/
theorem reach_add (data : List UInt8) (start spent budget : Nat) :
    reach data start (spent + budget) =
      if budget = 0 then reach data start spent
      else max (reach data start spent)
        (min data.length (start + min spent (data.length - start - 3) + budget + 3)) := by
  simp only [reach]
  split_ifs <;> omega

/-- Over a source that refuses nothing, what searches in a row find and where they end depends on
the sum of their budgets alone. By induction on the calls, `spent` being the budgets of those
before. -/
theorem findFirst_exact {length : Option Nat} (calls : List Call) :
    ∀ (start spent : Nat) (s : Synchronizer),
      Standing data length (.searching (start + min spent (data.length - start - 3))) s →
      s.source.position = reach data start spent →
      (∀ c, start ≤ c → c < start + spent → at? data c = none) →
      match leftmost? data (spent + (calls.map (·.budget)).sum) start with
      | some (p, h) => ∃ s', findFirst calls s = (true, s') ∧
          s'.held = some ⟨h, slice data p size⟩ ∧ s'.frameStart = p ∧ s'.source.position = p + size
      | none => ∃ s', findFirst calls s = (false, s') ∧ s'.held = none ∧
          s'.frameStart = s.frameStart ∧
          s'.source.position = reach data start (spent + (calls.map (·.budget)).sum) := by
  induction calls with
  | nil =>
      intro start spent s H hpos hnone
      have hl : leftmost? data spent start = none := leftmost?_eq_none_iff.mpr hnone
      simp only [List.map_nil, List.sum_nil, Nat.add_zero, hl]
      obtain ⟨hheld, -, -⟩ := H
      exact ⟨s, rfl, hheld, rfl, hpos⟩
  | cons call calls ih =>
      intro start spent s H hpos hnone
      have key := search_exact H call.budget
      have hbehind : start + min spent (data.length - start - 3) + s.tail.length =
          reach data start spent := by
        obtain ⟨-, -, hat⟩ := H
        rw [← hat.position_eq, hpos]
      rw [findFirst_cons, List.map_cons, List.sum_cons, ← Nat.add_assoc]
      rcases hl : leftmost? data call.budget (start + min spent (data.length - start - 3)) with
        _ | ⟨p, h⟩ <;> rw [hl] at key
      · obtain ⟨s', hsearch, hstanding, hstart, hat⟩ := key
        rw [leftmost?_eq_none_iff] at hl
        have hplace : start + min spent (data.length - start - 3) +
            min call.budget (data.length - (start + min spent (data.length - start - 3)) - 3) =
            start + min (spent + call.budget) (data.length - start - 3) := by omega
        rw [hplace] at hstanding
        have hpos' : s'.source.position = reach data start (spent + call.budget) := by
          rw [hat.position_eq, hbehind, reach_add]
        have hnone' : ∀ c, start ≤ c → c < start + (spent + call.budget) → at? data c = none := by
          intro c hle hlt
          by_cases hspent : c < start + spent
          · exact hnone c hle hspent
          by_cases hinside : c + size ≤ data.length
          · exact hl c (by rw [size] at hinside; omega) (by rw [size] at hinside; omega)
          · exact at?_eq_none (by omega)
        have key := ih start (spent + call.budget) s' hstanding hpos' hnone'
        rw [hsearch]
        rw [hstart] at key
        exact key
      · obtain ⟨s', hsearch, hheld, hstanding, hat⟩ := key
        obtain ⟨hle, hlt, hhead, hbefore⟩ := leftmost?_eq_some_iff.mp hl
        have hsum : leftmost? data (spent + call.budget + (calls.map (·.budget)).sum) start =
            some (p, h) := by
          rw [leftmost?_eq_some_iff]
          refine ⟨by omega, by omega, hhead, fun c hc hcp => ?_⟩
          by_cases hspent : c < start + spent
          · exact hnone c hc hspent
          · exact hbefore c (by omega) hcp
        rw [hsum, hsearch]
        exact ⟨s', rfl, hheld, hstanding.frameStart_eq, hat.position_eq⟩

/-- Searches do not depend on what is held when they begin. -/
theorem findFirst_forget {calls : List Call} (hcalls : calls ≠ []) (s : Synchronizer) :
    findFirst calls s = findFirst calls { s with held := none } := by
  cases calls with
  | nil => exact absurd rfl hcalls
  | cons call calls =>
      rw [findFirst_cons, findFirst_cons]
      rfl

/-- **Searches in a row leave no gap and repeat nothing.** Let a reader with an empty window stand at
`start`, over any medium, and search with any budgets up to the first search that succeeds. However
each search before it ends, the positions examined by all of them are `start`, `start + 1` and so
on, each once and in order, and the four bytes looked at are those of the data there. So what is
found is the first header from `start` on.

Over a source that refuses nothing it makes no difference that there were several searches: a single
one with the sum of the budgets finds the same and ends at the same position. -/
theorem search_resumes {start : Nat} (hwindow : s.window = []) (H : s.source.On data start)
    (calls : List Call) :
    ∃ found s' n, findFirst calls s = (found, s') ∧
      looks calls s = (List.range' start n).map (fun c => ⟨c, slice data c size⟩) ∧
      (found = true → start + n = s'.frameStart + 1 ∧
        IsLeast {c | start ≤ c ∧ (at? data c).isSome} s'.frameStart ∧
        s'.header? = at? data s'.frameStart ∧ s'.frame = slice data s'.frameStart size) ∧
      (found = false → ∀ look ∈ looks calls s, ofBytes? look.window = none) ∧
      ∀ length, s.source.At data length start → calls ≠ [] →
        ∃ o t, search (calls.map (·.budget)).sum s = .ok o t ∧ (o = .found ↔ found = true) ∧
          t.source.position = s'.source.position ∧ t.held = s'.held ∧
          t.frameStart = s'.frameStart := by
  have htail : s.tail = [] := by rw [tail, hwindow, List.drop_nil]
  have hfacing : Facing data start s := by
    refine ⟨?_, ?_⟩
    · rw [htail, List.length_nil, slice_zero]
    · rw [htail]
      exact H
  obtain ⟨n, hlooks, hled⟩ := looks_led calls start s hfacing
  rcases hfind : findFirst calls s with ⟨found, s'⟩
  rw [hfind] at hled
  refine ⟨found, s', n, rfl, hlooks, ?_, ?_, ?_⟩
  · rintro rfl
    obtain ⟨p, h, hn, hle, hat, hbefore, hheld, rfl⟩ := hled
    refine ⟨hn, ⟨⟨hle, by rw [hat]; rfl⟩, ?_⟩, ?_, ?_⟩
    · rintro c ⟨hc, hsome⟩
      by_contra hlt
      rw [hbefore c hc (by omega)] at hsome
      cases hsome
    · rw [header?, hheld, hat]
      rfl
    · rw [frame, hheld]
      rfl
  · rintro rfl look hlook
    rw [hlooks, looksAt, List.mem_map] at hlook
    obtain ⟨c, hc, rfl⟩ := hlook
    rw [List.mem_range'_1] at hc
    exact hled.1 c hc.1 hc.2
  · intro length hat hcalls
    have hstanding := standing_of_window_eq_nil hwindow hat
    have hsingle := search_exact hstanding (calls.map (·.budget)).sum
    have hseries := findFirst_exact calls start 0 { s with held := none }
      (by rw [Nat.zero_min]; exact hstanding) hat.position_eq (fun c hle hlt => by omega)
    rw [← findFirst_forget hcalls, hfind, Nat.zero_add] at hseries
    rcases hl : leftmost? data (calls.map (·.budget)).sum start with _ | ⟨p, h⟩ <;>
      rw [hl] at hsingle hseries
    · obtain ⟨t, hsearch, ⟨hheld, -, -⟩, hstart, hat'⟩ := hsingle
      obtain ⟨_, heq, hheld', hstart', hpos⟩ := hseries
      obtain ⟨rfl, rfl⟩ := Prod.mk.inj heq
      refine ⟨_, t, hsearch, by simp, ?_, hheld.trans hheld'.symm, hstart.trans hstart'.symm⟩
      have hnothing : tail { s with held := none } = [] := htail
      rw [hat'.position_eq, hpos, hnothing, List.length_nil, Nat.add_zero, reach]
    · obtain ⟨t, hsearch, hheld, hholding, hat'⟩ := hsingle
      obtain ⟨_, heq, hheld', hstart', hpos⟩ := hseries
      obtain ⟨rfl, rfl⟩ := Prod.mk.inj heq
      exact ⟨_, t, hsearch, by simp, hat'.position_eq.trans hpos.symm, hheld.trans hheld'.symm,
        hholding.frameStart_eq.trans hstart'.symm⟩

/-- Five bytes, and a medium that twice pretends that they end after three. -/
def pretending : Medium where
  data := #[0x00, 0xFF, 0xFB, 0x94, 0x00]
  cursor := 0
  conduct := Schedule.conduct { failAt := some 3, failTimes := some 2, failKind := .endOfData }

/-- Of five searches the first has no budget and the next two are told that the data has ended. The
last two look at the positions 0 and 1. One search that is not told so finds the same. -/
theorem search_resumes_pretending :
    let calls : List Call := [⟨0, true⟩, ⟨5, false⟩, ⟨1, true⟩, ⟨1, false⟩, ⟨3, true⟩]
    (∃ s', findFirst calls { source := .ofMedium pretending none } = (true, s') ∧
      s'.frameStart = 1 ∧
      (looks calls { source := .ofMedium pretending none }).map (·.position) = [0, 1]) ∧
      ∃ t, search 10 { source := .ofMedium { pretending with conduct := .plain } none } =
        .ok .found t ∧ t.frameStart = 1 := by
  intro calls
  have hleast : IsLeast {c | 0 ≤ c ∧ (at? pretending.data.toList c).isSome} 1 := by
    refine ⟨⟨by decide, by decide⟩, ?_⟩
    rintro c ⟨-, hsome⟩
    by_contra hlt
    obtain rfl : c = 0 := by omega
    exact absurd hsome (by decide)
  constructor
  · obtain ⟨found, s', n, hfind, hlooks, hfound, -⟩ :=
      search_resumes (s := { source := .ofMedium pretending none }) rfl
        (Source.on_ofMedium pretending none) calls
    have hseen : (findFirst calls { source := .ofMedium pretending none }).1 = true := by
      decide +kernel
    obtain rfl : found = true := by rw [hfind] at hseen; exact hseen
    obtain ⟨hn, hleast', -⟩ := hfound rfl
    have hstart : s'.frameStart = 1 := hleast'.unique hleast
    obtain rfl : n = 2 := by
      have hcursor : pretending.cursor = 0 := rfl
      omega
    refine ⟨s', hfind, hstart, ?_⟩
    rw [hlooks, List.map_map]
    rfl
  · obtain ⟨found, s', n, hfind, -, hfound, -, hsum⟩ :=
      search_resumes (s := { source := .ofMedium { pretending with conduct := .plain } none }) rfl
        (Source.on_ofMedium { pretending with conduct := .plain } none) calls
    have hseen : (findFirst calls
        { source := .ofMedium { pretending with conduct := .plain } none }).1 = true := by
      decide +kernel
    obtain rfl : found = true := by rw [hfind] at hseen; exact hseen
    obtain ⟨o, t, hsearch, ho, -, -, hstart⟩ :=
      hsum none (Source.at_ofMedium Conduct.faultless_plain none) (by decide)
    refine ⟨t, ?_, ?_⟩
    · rw [← ho.mpr rfl]
      exact hsearch
    · rw [hstart]
      exact (hfound rfl).2.1.unique hleast

end MpegAudio.Synchronizer
