import MpegAudio.Proofs.Bytes.Slice
import MpegAudio.Proofs.Header.Grammar
import Mathlib.Order.Bounds.Basic

/-!
# Where headers start in a byte string

The places at which a header starts are fixed by the data alone, whatever a reader does. A search
with a budget has one right answer: the first such place among as many positions as it may examine.

## Main definitions

* `Header.at? data p` — the header in the four bytes at offset `p`.
* `Header.leftmost? data budget start` — the first header at `budget` positions from `start` on,
  with its place.
* `Header.leftmost?_eq_some_iff`, `Header.leftmost?_eq_none_iff` — it is the least one, if any.
-/

namespace MpegAudio.Header

open Bytes

/-- The header in the four bytes at offset `p`. -/
def at? (data : List UInt8) (p : Nat) : Option Header := ofBytes? (slice data p 4)

/-- The first header at `budget` positions from `start` on, with its place. -/
def leftmost? (data : List UInt8) : (budget start : Nat) → Option (Nat × Header)
  | 0, _ => none
  | budget + 1, start =>
    match at? data start with
    | some h => some (start, h)
    | none => leftmost? data budget (start + 1)

variable {data : List UInt8} {p : Nat} {h : Header}

theorem le_length_of_at? (H : at? data p = some h) : p + size ≤ data.length := by
  have hlen := size_le_of_ofBytes? H
  rw [length_slice] at hlen
  simp only [size] at hlen ⊢
  omega

theorem at?_eq_none (H : data.length < p + size) : at? data p = none := by
  by_contra hsome
  obtain ⟨h, hh⟩ := Option.ne_none_iff_exists'.mp hsome
  have := le_length_of_at? hh
  omega

theorem at?_eq_none_of_ne (H : data[p]? ≠ some 0xFF) : at? data p = none := by
  by_contra hsome
  obtain ⟨h, hh⟩ := Option.ne_none_iff_exists'.mp hsome
  have hle := le_length_of_at? hh
  rw [size] at hle
  rw [at?, slice_cons (by omega)] at hh
  apply H
  rw [List.getElem?_eq_getElem (by omega), head_of_ofBytes? hh]

/-- The header with which a piece of the data begins. -/
theorem at?_length_append {f : List UInt8} (H : size ≤ f.length) (pre rest : List UInt8) :
    at? (pre ++ (f ++ rest)) pre.length = ofBytes? f := by
  have hslice : slice (pre ++ (f ++ rest)) pre.length 4 = f.take size := by
    rw [size] at H
    rw [← Nat.add_zero pre.length, slice_length_add, slice_append_of_le (by omega)]
    rfl
  have hlen : size ≤ (f.take size).length := by
    rw [List.length_take]
    omega
  rw [at?, hslice, ← ofBytes?_append hlen (f.drop size), List.take_append_drop]

theorem leftmost?_succ_of_some {budget start : Nat} (H : at? data start = some h) :
    leftmost? data (budget + 1) start = some (start, h) := by
  rw [leftmost?, H]

theorem leftmost?_succ_of_none {budget start : Nat} (H : at? data start = none) :
    leftmost? data (budget + 1) start = leftmost? data budget (start + 1) := by
  rw [leftmost?, H]

theorem leftmost?_eq_none_iff {budget start : Nat} :
    leftmost? data budget start = none ↔
      ∀ c, start ≤ c → c < start + budget → at? data c = none := by
  induction budget generalizing start with
  | zero =>
      rw [leftmost?]
      exact iff_of_true rfl fun c hle hlt => absurd hlt (by omega)
  | succ budget ih =>
      rcases hat : at? data start with _ | h
      · rw [leftmost?_succ_of_none hat, ih]
        constructor
        · intro H c hle hlt
          by_cases heq : c = start
          · rw [heq, hat]
          · exact H c (by omega) (by omega)
        · intro H c hle hlt
          exact H c (by omega) (by omega)
      · rw [leftmost?_succ_of_some hat]
        refine iff_of_false (by simp) fun H => ?_
        have := H start le_rfl (by omega)
        simp [hat] at this

/-- What is found is the header at the first position that has one. -/
theorem leftmost?_eq_some_iff {budget start : Nat} :
    leftmost? data budget start = some (p, h) ↔
      start ≤ p ∧ p < start + budget ∧ at? data p = some h ∧
        ∀ c, start ≤ c → c < p → at? data c = none := by
  induction budget generalizing start with
  | zero =>
      rw [leftmost?]
      refine iff_of_false (by simp) ?_
      rintro ⟨hle, hlt, -⟩
      omega
  | succ budget ih =>
      rcases hat : at? data start with _ | h'
      · rw [leftmost?_succ_of_none hat, ih]
        constructor
        · rintro ⟨hle, hlt, hp, hnone⟩
          refine ⟨by omega, by omega, hp, fun c hc hcp => ?_⟩
          by_cases heq : c = start
          · rw [heq, hat]
          · exact hnone c (by omega) hcp
        · rintro ⟨hle, hlt, hp, hnone⟩
          have hne : p ≠ start := by
            rintro rfl
            simp [hat] at hp
          exact ⟨by omega, by omega, hp, fun c hc hcp => hnone c (by omega) hcp⟩
      · rw [leftmost?_succ_of_some hat]
        constructor
        · intro H
          simp only [Option.some.injEq, Prod.mk.injEq] at H
          obtain ⟨rfl, rfl⟩ := H
          exact ⟨le_rfl, by omega, hat, fun c hc hcp => absurd hcp (by omega)⟩
        · rintro ⟨hle, hlt, hp, hnone⟩
          have heq : p = start := by
            by_contra hne
            have := hnone start le_rfl (by omega)
            simp [hat] at this
          rw [heq, hat] at hp
          rw [heq, Option.some.inj hp]

/-- The positions at which a search may succeed have their least element where it does. -/
theorem isLeast_of_leftmost? {budget start : Nat}
    (H : leftmost? data budget start = some (p, h)) :
    IsLeast {c | start ≤ c ∧ c < start + budget ∧ (at? data c).isSome} p := by
  obtain ⟨hle, hlt, hp, hnone⟩ := leftmost?_eq_some_iff.mp H
  refine ⟨⟨hle, hlt, by rw [hp]; rfl⟩, ?_⟩
  rintro c ⟨hc, -, hsome⟩
  by_contra hcp
  rw [hnone c hc (by omega)] at hsome
  simp at hsome

theorem isSome_leftmost?_iff {budget start : Nat} :
    (leftmost? data budget start).isSome ↔
      ∃ c, start ≤ c ∧ c < start + budget ∧ (at? data c).isSome := by
  rw [← Option.ne_none_iff_isSome, ne_eq, leftmost?_eq_none_iff]
  simp only [not_forall, ← Option.ne_none_iff_isSome, exists_prop, ne_eq]

end MpegAudio.Header
