import MpegAudio.Proofs.Text.Utf8
import MpegAudio.Text.Utf16

/-!
# Writing UTF-16 and reading it back

A character below 10000 is one code unit, any other is a pair of surrogates that carry ten bits each
of what its number is above that. Surrogates are no characters, so a reader knows which case it has
before it.
-/

namespace MpegAudio.Text.Utf16

def ByteOrder.bytes (order : ByteOrder) (u : Nat) : List UInt8 :=
  match order with
  | .big => [UInt8.ofNat (u / 256), UInt8.ofNat u]
  | .little => [UInt8.ofNat u, UInt8.ofNat (u / 256)]

/-- The code units of a character. -/
def units (c : Char) : List Nat :=
  if c.toNat < 0x10000 then [c.toNat]
  else [0xD800 + (c.toNat - 0x10000) / 0x400, 0xDC00 + (c.toNat - 0x10000) % 0x400]

def encodeChar (order : ByteOrder) (c : Char) : List UInt8 := (units c).flatMap order.bytes

variable {order : ByteOrder} {u : Nat}

theorem exists_bytes (order : ByteOrder) (h : u < 0x10000) :
    ∃ a b, order.bytes u = [a, b] ∧ order.unit a b = u := by
  cases order with
  | big =>
      refine ⟨_, _, rfl, ?_⟩
      rw [ByteOrder.unit, UInt8.toNat_ofNat', UInt8.toNat_ofNat']
      omega
  | little =>
      refine ⟨_, _, rfl, ?_⟩
      rw [ByteOrder.unit, UInt8.toNat_ofNat', UInt8.toNat_ofNat']
      omega

/-- Both surrogates of a pair together are one character. -/
theorem decode_pair {a b c d : UInt8} (rest : List UInt8) (hl : IsLead (order.unit a b))
    (ht : IsTrail (order.unit c d)) :
    decode order (a :: b :: c :: d :: rest) =
      paired (order.unit a b) (order.unit c d) :: decode order rest := by
  rw [decode, if_pos hl, if_pos ht]

/-- **A character is read back**, whatever follows its bytes. -/
theorem decode_encodeChar_append (order : ByteOrder) (c : Char) (rest : List UInt8) :
    decode order (encodeChar order c ++ rest) = c :: decode order rest := by
  have hscalar := scalar_bounds c
  rw [encodeChar, units]
  by_cases hplane : c.toNat < 0x10000
  · obtain ⟨a, b, hbytes, hunit⟩ := exists_bytes order hplane
    have hl : ¬ IsLead (order.unit a b) := by
      rw [hunit, IsLead]
      omega
    have ht : ¬ IsTrail (order.unit a b) := by
      rw [hunit, IsTrail]
      omega
    rw [if_pos hplane, List.flatMap_singleton, hbytes]
    show decode order (a :: b :: rest) = _
    rw [decode_cons_cons rest hl ht, hunit, Char.ofNat_toNat]
  · obtain ⟨a, b, hlead, hlead'⟩ :=
      exists_bytes (u := 0xD800 + (c.toNat - 0x10000) / 0x400) order (by omega)
    obtain ⟨a', b', htrail, htrail'⟩ :=
      exists_bytes (u := 0xDC00 + (c.toNat - 0x10000) % 0x400) order (by omega)
    have hl : IsLead (order.unit a b) := by
      rw [hlead', IsLead]
      omega
    have ht : IsTrail (order.unit a' b') := by
      rw [htrail', IsTrail]
      omega
    have hnumber : 0x10000 + (0xD800 + (c.toNat - 0x10000) / 0x400) % 0x400 * 0x400 +
        (0xDC00 + (c.toNat - 0x10000) % 0x400) % 0x400 = c.toNat := by omega
    have hchar : paired (order.unit a b) (order.unit a' b') = c := by
      rw [hlead', htrail', paired, hnumber, Char.ofNat_toNat]
    rw [if_neg hplane, List.flatMap_cons, List.flatMap_singleton, hlead, htrail]
    show decode order (a :: b :: a' :: b' :: rest) = _
    rw [decode_pair rest hl ht, hchar]

/-- No character but the zero character ends with two zeros. -/
theorem exists_last (order : ByteOrder) (c : Char) :
    ∃ front a b, encodeChar order c = front ++ [a, b] ∧
      (a = 0 ∧ b = 0 → c = Char.ofNat 0) := by
  have hscalar := scalar_bounds c
  have hzero : order.unit 0 0 = 0 := by cases order <;> rfl
  rw [encodeChar, units]
  by_cases hplane : c.toNat < 0x10000
  · obtain ⟨a, b, hbytes, hunit⟩ := exists_bytes order hplane
    refine ⟨[], a, b, by rw [if_pos hplane, List.flatMap_singleton, hbytes, List.nil_append], ?_⟩
    rintro ⟨rfl, rfl⟩
    rw [← Char.ofNat_toNat c, ← hunit, hzero]
  · obtain ⟨a', b', htrail, htrail'⟩ :=
      exists_bytes (u := 0xDC00 + (c.toNat - 0x10000) % 0x400) order (by omega)
    refine ⟨_, a', b', by
      rw [if_neg hplane, List.flatMap_cons, List.flatMap_singleton, htrail], ?_⟩
    rintro ⟨rfl, rfl⟩
    omega

end MpegAudio.Text.Utf16
