/-!
# Reading UTF-8

A character takes one byte below `80`, or a lead byte and one to three continuation bytes. The
lead byte bounds the first continuation byte so that no character has two spellings and no
surrogate or number beyond the last code point can be spelled. A reader takes one byte at a time
and knows only what the character begun last still needs.

Bytes that spell no character are replaced: each longest run that could still have become a
character gives one replacement character, and so does each byte that starts nothing.
-/

namespace MpegAudio.Text

/-- Stands for bytes that spell no character. -/
def replacement : Char := Char.ofNat 0xFFFD

namespace Utf8

/-- A character begun but not finished: how many continuation bytes it needs after the next one,
the range in which the next one must lie, and the bits collected so far. -/
structure Pending where
  owed : Nat
  low : Nat
  high : Nat
  bits : Nat
  deriving DecidableEq, Repr

/-- A byte between characters: the characters it completes and what it leaves pending. -/
def first (b : Nat) : List Char × Option Pending :=
  if b < 0x80 then ([Char.ofNat b], none)
  else if b < 0xC2 then ([replacement], none)
  else if b < 0xE0 then ([], some ⟨0, 0x80, 0xBF, b % 0x20⟩)
  else if b < 0xF0 then
    ([], some ⟨1, if b = 0xE0 then 0xA0 else 0x80, if b = 0xED then 0x9F else 0xBF, b % 0x10⟩)
  else if b < 0xF5 then
    ([], some ⟨2, if b = 0xF0 then 0x90 else 0x80, if b = 0xF4 then 0x8F else 0xBF, b % 0x08⟩)
  else ([replacement], none)

/-- One byte. A byte that cannot continue the pending character ends it as malformed and is then
read as the start of the next one. -/
def step (pending : Option Pending) (b : Nat) : List Char × Option Pending :=
  match pending with
  | none => first b
  | some p =>
    if p.low ≤ b ∧ b ≤ p.high then
      let bits := p.bits * 0x40 + b % 0x40
      match p.owed with
      | 0 => ([Char.ofNat bits], none)
      | owed + 1 => ([], some ⟨owed, 0x80, 0xBF, bits⟩)
    else
      let (cs, next) := first b
      (replacement :: cs, next)

/-- The characters of a byte string that continues what is pending. A character that the string
leaves unfinished is malformed. -/
def decodeFrom (pending : Option Pending) : List UInt8 → List Char
  | [] => if pending.isSome then [replacement] else []
  | b :: bs =>
    let (cs, next) := step pending b.toNat
    cs ++ decodeFrom next bs

def decode (bs : List UInt8) : List Char := decodeFrom none bs

@[simp] theorem decode_nil : decode [] = [] := rfl

theorem decode_cons_of_lt {b : UInt8} (h : b.toNat < 0x80) (bs : List UInt8) :
    decode (b :: bs) = Char.ofNat b.toNat :: decode bs := by
  simp [decode, decodeFrom, step, first, h]

end Utf8

end MpegAudio.Text
