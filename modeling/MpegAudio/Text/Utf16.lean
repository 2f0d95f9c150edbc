import MpegAudio.Text.Utf8

/-!
# Reading UTF-16

A code unit is a pair of bytes in a fixed order. A unit outside the surrogate range is a character;
a leading surrogate and a trailing one after it make one character together. An unpaired surrogate
is replaced, and so is a single byte left at the end; when both happen at the very end, one
replacement stands for them together.
-/

namespace MpegAudio.Text.Utf16

/-- Which byte of a pair comes first. -/
inductive ByteOrder where
  /-- The high byte first. -/
  | big
  /-- The low byte first. -/
  | little
  deriving DecidableEq, Repr

/-- The code unit made of two bytes in the order in which they stand. -/
def ByteOrder.unit (order : ByteOrder) (a b : UInt8) : Nat :=
  match order with
  | .big => a.toNat * 256 + b.toNat
  | .little => b.toNat * 256 + a.toNat

/-- The units that start a pair. -/
def IsLead (u : Nat) : Prop := u / 0x400 = 0x36

/-- The units that end a pair. -/
def IsTrail (u : Nat) : Prop := u / 0x400 = 0x37

instance : DecidablePred IsLead := fun u => inferInstanceAs (Decidable (u / 0x400 = 0x36))

instance : DecidablePred IsTrail := fun u => inferInstanceAs (Decidable (u / 0x400 = 0x37))

/-- The character of a pair: each surrogate carries ten bits. -/
def paired (lead trail : Nat) : Char :=
  Char.ofNat (0x10000 + lead % 0x400 * 0x400 + trail % 0x400)

/-- The characters of a byte string. -/
def decode (order : ByteOrder) : List UInt8 → List Char
  | [] => []
  | [_] => [replacement]
  | [a, b] =>
    let u := order.unit a b
    if IsLead u ∨ IsTrail u then [replacement] else [Char.ofNat u]
  | [a, b, _] =>
    let u := order.unit a b
    if IsLead u then [replacement]
    else if IsTrail u then [replacement, replacement]
    else [Char.ofNat u, replacement]
  | a :: b :: c :: d :: rest =>
    let u := order.unit a b
    let v := order.unit c d
    if IsLead u then
      if IsTrail v then paired u v :: decode order rest
      else replacement :: decode order (c :: d :: rest)
    else if IsTrail u then replacement :: decode order (c :: d :: rest)
    else Char.ofNat u :: decode order (c :: d :: rest)

@[simp] theorem decode_nil (order : ByteOrder) : decode order [] = [] := rfl

theorem decode_cons_cons {order : ByteOrder} {a b : UInt8} (rest : List UInt8)
    (hl : ¬ IsLead (order.unit a b)) (ht : ¬ IsTrail (order.unit a b)) :
    decode order (a :: b :: rest) = Char.ofNat (order.unit a b) :: decode order rest := by
  match rest with
  | [] => simp [decode, hl, ht]
  | [_] => simp [decode, hl, ht]
  | _ :: _ :: _ => simp [decode, hl, ht]

end MpegAudio.Text.Utf16
