import MpegAudio.Proofs.Synchronizer.Place
import Mathlib.Data.List.DropRight

/-!
# Bytes given back

Bytes that were read for another purpose go back to the window, which keeps the last three of them.
As long as they are the bytes in front of the source, giving them back takes the reading back: the
search goes on as if the reader stood before the first byte that waits.

A search from there has one right answer, which the data alone settles. The boundaries are exact: a
budget of `m` reaches the `m` positions from there on and no further, a header has to lie inside the
data, and the source is left three bytes behind the last position examined or where the data ends.
-/

namespace MpegAudio.Synchronizer

open Bytes Header

variable {data : List UInt8} {length : Option Nat} {pos b budget : Nat} {s : Synchronizer}

/-! ## Giving back -/

/-- Bytes that wait are those of the window and those given back, of which the last three count. -/
theorem window_giveBack (bs : List UInt8) :
    ∀ s : Synchronizer, s.window.length ≤ 3 →
      (s.giveBack bs).window = (s.window ++ bs).drop ((s.window ++ bs).length - 3) := by
  induction bs with
  | nil =>
      intro s hlen
      rw [List.append_nil, Nat.sub_eq_zero_of_le hlen]
      rfl
  | cons b bs ih =>
      intro s hlen
      have hone : (s.giveBackByte b).window =
          (s.window ++ [b]).drop ((s.window ++ [b]).length - 3) := by
        rw [List.length_append, List.length_singleton,
          List.drop_append_of_le_length (by omega)]
        rfl
      have hlen' : (s.giveBackByte b).window.length ≤ 3 := by
        rw [hone, List.length_drop]
        omega
      have hstep : (s.giveBack (b :: bs)).window = ((s.giveBackByte b).giveBack bs).window := rfl
      have hjoin : (s.window ++ [b]).drop ((s.window ++ [b]).length - 3) ++ bs =
          (s.window ++ b :: bs).drop ((s.window ++ [b]).length - 3) := by
        rw [← List.drop_append_of_le_length (Nat.sub_le _ _), List.append_assoc,
          List.singleton_append]
      rw [hstep, ih _ hlen', hone, hjoin, List.drop_drop]
      congr 1
      simp only [List.length_drop, List.length_append, List.length_cons, List.length_nil]
      omega

@[simp] theorem source_giveBack (bs : List UInt8) (s : Synchronizer) :
    (s.giveBack bs).source = s.source := by
  induction bs generalizing s with
  | nil => rfl
  | cons b bs ih => exact ih _

@[simp] theorem held_giveBack (bs : List UInt8) (s : Synchronizer) :
    (s.giveBack bs).held = s.held := by
  induction bs generalizing s with
  | nil => rfl
  | cons b bs ih => exact ih _

theorem giveBack_flatten (given : List (List UInt8)) (s : Synchronizer) :
    s.giveBack given.flatten = given.foldl giveBack s := by
  induction given generalizing s with
  | nil => rfl
  | cons bs given ih =>
      rw [List.flatten_cons, giveBack, List.foldl_append, ← giveBack, ← giveBack, ih]
      rfl

/-! ## Standing behind what waits -/

/-- The reader stands at a position inside the data, over a source that refuses nothing, and the
bytes that wait in its window, three at most, are those right in front of that position. -/
structure Unread (data : List UInt8) (length : Option Nat) (pos : Nat) (s : Synchronizer) :
    Prop where
  source : s.source.At data length pos
  inside : pos ≤ data.length
  room : s.window.length ≤ 3
  window : s.window <:+ data.take pos

theorem Unread.length_le (H : Unread data length pos s) : s.window.length ≤ pos := by
  have hle := H.window.length_le
  rw [List.length_take] at hle
  omega

/-- Next to be examined is the position of the first byte that waits. A frame that is still held
makes no difference to a search. -/
theorem Unread.standing (H : Unread data length pos s) :
    Standing data length (.searching (pos - s.window.length)) { s with held := none } := by
  have hle := H.length_le
  have hend : pos - s.window.length + s.window.length = pos := by omega
  have hwindow := List.suffix_iff_eq_drop.mp H.window
  rw [List.length_take_of_le H.inside, List.drop_take, Nat.sub_sub_self hle] at hwindow
  have htail : tail { s with held := none } = s.window := tail_of_length_le H.room
  refine .searching rfl ?_ ?_
  · rw [htail]
    exact hwindow
  · rw [htail, hend]
    exact H.source

/-- Bytes that are read and given back wait in front of the position that reading them led to. -/
theorem Unread.giveBack {n : Nat} {bs : List UInt8} {source : Source}
    (H : Unread data length pos s) (hread : s.source.readExact n = .ok bs source) :
    Unread data length (pos + n) ({ s with source := source }.giveBack bs) := by
  have hon := Source.readExact_on H.source.on n
  rw [hread] at hon
  obtain ⟨hbs, hlen, -⟩ := hon
  have hinside := H.inside
  have hfits : pos + n ≤ data.length := by
    rw [hbs, length_slice] at hlen
    omega
  obtain ⟨source', hread', hat⟩ := Source.readExact_spec H.source hfits
  obtain rfl : source = source' := by
    rw [hread] at hread'
    exact (EStateM.Result.ok.inj hread').2
  have hwindow := window_giveBack bs { s with source := source } H.room
  have htake : data.take pos ++ bs = data.take (pos + n) := by
    rw [hbs, slice, ← List.take_add]
  obtain ⟨front, hfront⟩ := H.window
  have hsuffix : s.window ++ bs <:+ data.take pos ++ bs :=
    ⟨front, by rw [← List.append_assoc, hfront]⟩
  refine ⟨by rw [source_giveBack]; exact hat, hfits, ?_, ?_⟩
  · rw [hwindow, List.length_drop]
    omega
  · rw [hwindow, ← htake]
    exact (List.drop_suffix _ _).trans hsuffix

/-! ## Searching from there -/

/-- The positions where a search from `b` on can find a header. -/
def heads (data : List UInt8) (budget b : Nat) : Set Nat :=
  {c | b ≤ c ∧ c < b + budget ∧ c + size ≤ data.length ∧ (at? data c).isSome}

theorem isLeast_heads {p : Nat} {h : Header} (H : leftmost? data budget b = some (p, h)) :
    IsLeast (heads data budget b) p := by
  obtain ⟨⟨hle, hlt, hsome⟩, hleast⟩ := isLeast_of_leftmost? H
  have hat := (leftmost?_eq_some_iff.mp H).2.2.1
  exact ⟨⟨hle, hlt, le_length_of_at? hat, hsome⟩,
    fun c ⟨hc, hcb, _, hcsome⟩ => hleast ⟨hc, hcb, hcsome⟩⟩

theorem heads_eq_empty (H : leftmost? data budget b = none) : heads data budget b = ∅ := by
  ext c
  refine iff_of_false ?_ (Set.notMem_empty c)
  rintro ⟨hle, hlt, -, hsome⟩
  rw [leftmost?_eq_none_iff.mp H c hle hlt] at hsome
  cases hsome

/-- A search with a budget, from a position inside the data: what it finds and where it ends are
matters of the data alone. -/
theorem search_inside (H : Standing data length (.searching b) { s with held := none })
    (hb : b ≤ data.length) (hbudget : 0 < budget) :
    match leftmost? data budget b with
    | some (p, h) => ∃ s', search budget s = .ok .found s' ∧
        s'.held = some ⟨h, slice data p size⟩ ∧ s'.window = [] ∧ s'.frameStart = p ∧
        s'.source.At data length (p + size)
    | none => ∃ s', search budget s = .ok (.missed (min budget (data.length - b - 3))) s' ∧
        s'.held = none ∧ s'.tail = slice data (b + min budget (data.length - b - 3)) 3 ∧
        s'.source.At data length (min data.length (b + budget + 3)) := by
  have key := search_exact H budget
  have hinside : b + s.tail.length ≤ data.length := by
    obtain ⟨-, hwindow, -⟩ := H
    have hlen := congrArg List.length hwindow
    rw [length_slice] at hlen
    change s.tail.length = min s.tail.length _ at hlen
    omega
  have hthree : s.tail.length ≤ 3 := by
    rw [tail, List.length_drop]
    omega
  rcases hl : leftmost? data budget b with _ | ⟨p, h⟩ <;> rw [hl] at key
  · obtain ⟨s', hsearch, hstanding, -, hat⟩ := key
    rw [if_neg (by omega)] at hat
    change s'.source.At data length (max (b + s.tail.length) _) at hat
    rw [Nat.max_eq_right (by omega)] at hat
    obtain ⟨hheld, hwindow, hat'⟩ := hstanding
    refine ⟨s', hsearch, hheld, ?_, hat⟩
    have hpos := hat'.position_eq.symm.trans hat.position_eq
    rw [hwindow, slice, slice, List.take_eq_take_iff, List.length_drop]
    omega
  · obtain ⟨s', hsearch, hheld, hstanding, hat⟩ := key
    refine ⟨s', hsearch, hheld, ?_, hstanding.frameStart_eq, hat⟩
    cases hstanding with
    | holding _ _ _ window _ _ _ _ _ => exact window

/-- **Bytes given back are unread, and a search finds the leftmost header within its budget.** The
window keeps the last three of all the bytes it was given. Where these are the bytes in front of the
source, let `b` be the position of the first of them. A header is found just when one starts at the
`budget` positions from `b` on and lies inside the data; it is the first such, nothing waits any
more, and the source stands behind it. Otherwise nothing is held, the source stands behind the bytes
that were looked at, and the number of positions examined is exact, also in the error where a header
has to be there.

All this is the outcome of any reader that searches from `b` with nothing waiting. -/
theorem search_unread {given : List (List UInt8)} (hroom : s.window.length ≤ 3)
    (H : Unread data length pos (given.foldl giveBack s)) (hbudget : 0 < budget) :
    let r := given.foldl giveBack s
    let b := pos - r.window.length
    let n := min budget (data.length - b - 3)
    r.window = (s.window ++ given.flatten).rtake 3 ∧
      ∃ o r', search budget r = .ok o r' ∧
        (o = .found ↔ (heads data budget b).Nonempty) ∧
        (o = .found → IsLeast (heads data budget b) r'.frameStart ∧
          r'.frame = slice data r'.frameStart size ∧ r'.header? = at? data r'.frameStart ∧
          r'.window = [] ∧ r'.source.At data length (r'.frameStart + size) ∧
          require budget r = .ok () r') ∧
        (o ≠ .found → o = .missed n ∧ r'.header? = none ∧ r'.frame = [] ∧
          r'.source.At data length (min data.length (b + budget + 3)) ∧
          require budget r = .error (.noFrame n) r') ∧
        ∀ (x : Synchronizer) (length' : Option Nat),
          x.window = [] → x.source.At data length' b → ∃ x',
            search budget x = .ok o x' ∧ x'.held = r'.held ∧ x'.tail = r'.tail ∧
              x'.source.position = r'.source.position ∧
              (o = .found → x'.frameStart = r'.frameStart) := by
  intro r b n
  refine ⟨?_, ?_⟩
  · rw [List.rtake, ← window_giveBack _ _ hroom, giveBack_flatten]
  have hb : b ≤ data.length := le_trans (Nat.sub_le _ _) H.inside
  have key := search_inside H.standing hb hbudget
  rcases hl : leftmost? data budget b with _ | ⟨p, h⟩ <;> rw [hl] at key
  · obtain ⟨r', hsearch, hheld, htail, hat⟩ := key
    refine ⟨_, r', hsearch, ?_, by simp, fun _ => ⟨rfl, ?_, ?_, hat, ?_⟩, ?_⟩
    · rw [heads_eq_empty hl]
      simp
    · rw [header?, hheld]
      rfl
    · rw [frame, hheld]
      rfl
    · rw [require, hsearch]
    · intro x length' hwindow hx
      have key' := search_inside (standing_of_window_eq_nil hwindow hx) hb hbudget
      rw [hl] at key'
      obtain ⟨x', hsearch', hheld', htail', hat'⟩ := key'
      exact ⟨x', hsearch', hheld'.trans hheld.symm, htail'.trans htail.symm,
        hat'.position_eq.trans hat.position_eq.symm, by simp⟩
  · obtain ⟨r', hsearch, hheld, hwindow, hstart, hat⟩ := key
    have hleast := isLeast_heads hl
    have hhead := (leftmost?_eq_some_iff.mp hl).2.2.1
    subst hstart
    refine ⟨_, r', hsearch, iff_of_true rfl ⟨_, hleast.1⟩, fun _ =>
      ⟨hleast, ?_, ?_, hwindow, hat, ?_⟩, by simp, ?_⟩
    · rw [frame, hheld]
      rfl
    · rw [header?, hheld, hhead]
      rfl
    · rw [require, hsearch]
    · intro x length' hnil hx
      have key' := search_inside (standing_of_window_eq_nil hnil hx) hb hbudget
      rw [hl] at key'
      obtain ⟨x', hsearch', hheld', hwindow', hstart', hat'⟩ := key'
      have htail : x'.tail = r'.tail := by rw [tail, tail, hwindow', hwindow]
      exact ⟨x', hsearch', hheld'.trans hheld.symm, htail,
        hat'.position_eq.trans hat.position_eq.symm, fun _ => hstart'⟩

/-- Five bytes were read before the search begins, and the last three of them are the start of a
header: one more byte completes it, and its position is the only one within the budget. -/
theorem search_unread_straddling :
    let s : Synchronizer :=
      ⟨.ofMedium ⟨#[0x49, 0x44, 0xFF, 0xFB, 0x94, 0x00, 0x00], 5, .plain, {}, 0⟩ none, [], none, 0⟩
    let r := [[0x49, 0x44, 0xFF], [0xFB], [0x94]].foldl giveBack s
    r.window = [0xFF, 0xFB, 0x94] ∧
      ∃ r', search 1 r = .ok .found r' ∧ r'.frameStart = 2 ∧ r'.source.position = 6 := by
  intro s r
  have hwindow : r.window = [0xFF, 0xFB, 0x94] := by decide
  have hunread : Unread [0x49, 0x44, 0xFF, 0xFB, 0x94, 0x00, 0x00] none 5 r :=
    ⟨Source.at_ofMedium Conduct.faultless_plain none, by decide, by decide, by decide⟩
  have hhead : 2 ∈ heads [0x49, 0x44, 0xFF, 0xFB, 0x94, 0x00, 0x00] 1 2 :=
    ⟨by decide, by decide, by decide, by decide⟩
  have hr : [[0x49, 0x44, 0xFF], [0xFB], [0x94]].foldl giveBack s = r := rfl
  have key := search_unread (s := s) (by decide) hunread Nat.one_pos
  rw [hr] at key
  simp only [hwindow] at key
  obtain ⟨-, o, r', hsearch, hiff, hfound, -⟩ := key
  have ho : o = .found := hiff.mpr ⟨2, hhead⟩
  obtain ⟨hleast, -, -, -, hat, -⟩ := hfound ho
  have hstart : r'.frameStart = 2 := by
    have hle := hleast.2 hhead
    have hge : 2 ≤ r'.frameStart := hleast.1.1
    omega
  refine ⟨hwindow, r', ?_, hstart, ?_⟩
  · rw [hsearch, ho]
  · rw [hat.position_eq, hstart, size]

end MpegAudio.Synchronizer
