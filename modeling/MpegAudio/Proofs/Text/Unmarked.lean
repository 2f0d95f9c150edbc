import MpegAudio.Proofs.Text.RoundTrip

/-!
# Text that is written without a mark

UTF-16 without a mark is read with the high byte first, but only if no mark is seen, and any of the
three marks is looked for. A text can spell one by itself. Each mark of UTF-16 is a single
character, and the mark of UTF-8 is one and a half: it is there when `EFBB` is followed by a
character of which the high byte is `BF`.

All other texts are read back, and these never are. What is read in their place can be of the same
length, so this is a matter of the bytes: behind the mark of UTF-8 three bytes have to be read where
two have been written, and what is missing at each character is still missing at the end.
-/

namespace MpegAudio.Text

/-- A number that is no character stands for the zero character. -/
theorem toNat_ofNat_eq_or (n : Nat) : (Char.ofNat n).toNat = n ∨ (Char.ofNat n).toNat = 0 := by
  by_cases h : n.isValidChar
  · left
    rw [Char.ofNat, dif_pos h]
    rfl
  · right
    rw [Char.ofNat, dif_neg h]
    rfl

/-! ## The first bytes -/

/-- The bytes of a text, written in UTF-16 with the high byte first, begin with the mark of a
charset, and `rest` is what follows the mark. -/
inductive Spells : List Char → Charset → List UInt8 → Prop where
  | big (cs : List Char) :
      Spells (Char.ofNat 0xFEFF :: cs) (.utf16 .big) ((Charset.utf16 .big).encode cs)
  | little (cs : List Char) :
      Spells (Char.ofNat 0xFFFE :: cs) (.utf16 .little) ((Charset.utf16 .big).encode cs)
  | utf8 {c : Char} (cs : List Char) (high : c.toNat / 256 = 0xBF) :
      Spells (Char.ofNat 0xEFBB :: c :: cs) .utf8
        (UInt8.ofNat c.toNat :: (Charset.utf16 .big).encode cs)

/-- The first two bytes of a text are those of its first character, unless they start a pair. -/
theorem exists_cons_of_encode {order : Utf16.ByteOrder} {cs : List Char} {a b : UInt8}
    {rest : List UInt8} (H : (Charset.utf16 order).encode cs = a :: b :: rest)
    (hlead : ¬ Utf16.IsLead (order.unit a b)) :
    ∃ c cs', cs = c :: cs' ∧ c.toNat = order.unit a b ∧
      (Charset.utf16 order).encode cs' = rest := by
  cases cs with
  | nil => cases H
  | cons c cs =>
      rw [Charset.encode_cons, Charset.encodeChar, Utf16.encodeChar, Utf16.units] at H
      by_cases hplane : c.toNat < 0x10000
      · obtain ⟨x, y, hbytes, hunit⟩ := Utf16.exists_bytes order hplane
        rw [if_pos hplane, List.flatMap_singleton, hbytes] at H
        cases H
        exact ⟨c, cs, rfl, hunit.symm, rfl⟩
      · obtain ⟨x, y, hbytes, hunit⟩ := Utf16.exists_bytes
          (u := 0xD800 + (c.toNat - 0x10000) / 0x400) order (by have := scalar_bounds c; omega)
        rw [if_neg hplane, List.flatMap_cons, hbytes] at H
        cases H
        have := scalar_bounds c
        rw [hunit, Utf16.IsLead] at hlead
        omega

/-- No text ends in the middle of a unit. -/
theorem exists_second_of_encode {order : Utf16.ByteOrder} {cs : List Char} {a : UInt8}
    {rest : List UInt8} (H : (Charset.utf16 order).encode cs = a :: rest) :
    ∃ b rest', rest = b :: rest' := by
  cases cs with
  | nil => cases H
  | cons c cs =>
      obtain ⟨front, x, y, hbytes, -⟩ := Utf16.exists_last order c
      rw [Charset.encode_cons, Charset.encodeChar, hbytes] at H
      rcases front with _ | ⟨_, _ | ⟨z, _⟩⟩
      · exact ⟨y, _, (List.tail_eq_of_cons_eq H).symm⟩
      · exact ⟨x, _, (List.tail_eq_of_cons_eq H).symm⟩
      · exact ⟨z, _, (List.tail_eq_of_cons_eq H).symm⟩

/-- A character below 10000 is written as its two bytes. -/
theorem encode_big_cons {c : Char} (hplane : c.toNat < 0x10000) (cs : List Char) :
    (Charset.utf16 .big).encode (c :: cs) =
      UInt8.ofNat (c.toNat / 256) :: UInt8.ofNat c.toNat :: (Charset.utf16 .big).encode cs := by
  rw [Charset.encode_cons, Charset.encodeChar, Utf16.encodeChar, Utf16.units, if_pos hplane]
  rfl

/-- **A text is taken for marked when it spells a mark.** -/
theorem mark?_encode_big {cs : List Char} {charset : Charset} {rest : List UInt8} :
    mark? ((Charset.utf16 .big).encode cs) = some (charset, rest) ↔ Spells cs charset rest := by
  have hchar : ∀ {c : Char} {n : Nat}, c.toNat = n → c = Char.ofNat n := by
    rintro c n rfl
    exact (Char.ofNat_toNat c).symm
  constructor
  · intro H
    rw [mark?.eq_def] at H
    split at H
    · rename_i tail heq
      cases H
      obtain ⟨c, cs, rfl, hc, htail⟩ := exists_cons_of_encode heq (by decide)
      obtain ⟨b, tail, rfl⟩ := exists_second_of_encode htail
      have hunit : Utf16.ByteOrder.unit .big 0xBF b = 0xBF00 + b.toNat := rfl
      have hb : b.toNat < 256 := b.toNat_lt
      obtain ⟨d, cs, rfl, hd, htail⟩ := exists_cons_of_encode htail (by
        rw [hunit, Utf16.IsLead]
        omega)
      rw [hunit] at hd
      have hlow : UInt8.ofNat d.toNat = b := by
        apply UInt8.toNat_inj.mp
        rw [UInt8.toNat_ofNat']
        omega
      rw [hchar hc, ← htail, ← hlow]
      exact .utf8 cs (by omega)
    · rename_i tail heq
      cases H
      obtain ⟨c, cs, rfl, hc, htail⟩ := exists_cons_of_encode heq (by decide)
      rw [hchar hc, ← htail]
      exact .big cs
    · rename_i tail heq
      cases H
      obtain ⟨c, cs, rfl, hc, htail⟩ := exists_cons_of_encode heq (by decide)
      rw [hchar hc, ← htail]
      exact .little cs
    · cases H
  · intro H
    cases H with
    | big cs => rw [encode_big_cons (by decide)]; rfl
    | little cs => rw [encode_big_cons (by decide)]; rfl
    | utf8 cs high =>
        rw [encode_big_cons (by decide), encode_big_cons (by omega), high]
        rfl

/-! ## What is read in the place of a text -/

namespace Utf8

variable {bs : List UInt8} {c : Char} {cs : List Char}

/-- A continuation byte. -/
def Tail (b : UInt8) : Prop := 0x80 ≤ b.toNat ∧ b.toNat ≤ 0xBF

/-- Unless it is a replacement, the next character that is read has its next byte in the range that
is left to it, and comes of what this byte leads to. -/
theorem exists_next {p : Pending} (H : decodeFrom (some p) bs = c :: cs) (hc : c ≠ replacement) :
    ∃ b rest, bs = b :: rest ∧ p.low ≤ b.toNat ∧ b.toNat ≤ p.high ∧
      (step (some p) b.toNat).1 ++ decodeFrom (step (some p) b.toNat).2 rest = c :: cs := by
  cases bs with
  | nil => exact absurd (List.head_eq_of_cons_eq H).symm hc
  | cons b rest =>
      rw [decodeFrom_cons] at H
      by_cases hrange : p.low ≤ b.toNat ∧ b.toNat ≤ p.high
      · exact ⟨b, rest, rfl, hrange.1, hrange.2, H⟩
      · rw [step, if_neg hrange] at H
        exact absurd (List.head_eq_of_cons_eq H).symm hc

theorem exists_last_of_pending {low high bits : Nat}
    (H : decodeFrom (some ⟨0, low, high, bits⟩) bs = c :: cs) (hc : c ≠ replacement) :
    ∃ b rest, bs = b :: rest ∧ low ≤ b.toNat ∧ b.toNat ≤ high ∧ decode rest = cs ∧
      c = Char.ofNat (bits * 0x40 + b.toNat % 0x40) := by
  obtain ⟨b, rest, rfl, hlow, hhigh, hrest⟩ := exists_next H hc
  rw [step_last hlow hhigh] at hrest
  exact ⟨b, rest, rfl, hlow, hhigh, List.tail_eq_of_cons_eq hrest,
    (List.head_eq_of_cons_eq hrest).symm⟩

/-- A byte of a character that does not complete it leaves fewer to come. -/
theorem exists_more_of_pending {n low high bits : Nat}
    (H : decodeFrom (some ⟨n + 1, low, high, bits⟩) bs = c :: cs) (hc : c ≠ replacement) :
    ∃ b rest, bs = b :: rest ∧ low ≤ b.toNat ∧ b.toNat ≤ high ∧
      decodeFrom (some ⟨n, 0x80, 0xBF, bits * 0x40 + b.toNat % 0x40⟩) rest = c :: cs := by
  obtain ⟨b, rest, rfl, hlow, hhigh, hrest⟩ := exists_next H hc
  rw [step_more hlow hhigh] at hrest
  exact ⟨b, rest, rfl, hlow, hhigh, hrest⟩

/-- **A character from 800 on, below the replacement, is read from three bytes**, of which the first
says so and the others continue it. -/
theorem exists_three (H : decode bs = c :: cs) (hlow : 0x800 ≤ c.toNat) (hhigh : c.toNat < 0xFFFD) :
    ∃ x y z rest, bs = x :: y :: z :: rest ∧ 0xE0 ≤ x.toNat ∧ x.toNat < 0xF0 ∧ Tail y ∧ Tail z ∧
      decode rest = cs := by
  have hc : c ≠ replacement := by
    rintro rfl
    exact absurd hhigh (by decide)
  cases bs with
  | nil => cases H
  | cons x bs =>
      rw [decode, decodeFrom_cons, step, first] at H
      split at H
      · -- A byte by itself is too small a character.
        have := toNat_ofNat_eq_or x.toNat
        rw [← List.head_eq_of_cons_eq H] at hlow
        omega
      split at H
      · exact absurd (List.head_eq_of_cons_eq H).symm hc
      split at H
      · -- Two bytes have eleven bits.
        obtain ⟨y, rest, rfl, -, -, -, rfl⟩ := exists_last_of_pending H hc
        have := toNat_ofNat_eq_or (x.toNat % 0x20 * 0x40 + y.toNat % 0x40)
        omega
      split at H
      · obtain ⟨y, rest, rfl, hy, hy', hrest⟩ := exists_more_of_pending H hc
        obtain ⟨z, rest, rfl, hz, hz', hdecode, -⟩ := exists_last_of_pending hrest hc
        refine ⟨x, y, z, rest, rfl, by omega, by omega, ⟨?_, ?_⟩, ⟨hz, hz'⟩, hdecode⟩
        · split at hy <;> omega
        · split at hy' <;> omega
      split at H
      · -- Four bytes spell what is beyond the replacement, or no character.
        obtain ⟨y, rest, rfl, hy, hy', hrest⟩ := exists_more_of_pending H hc
        obtain ⟨z, rest, rfl, hz, hz', hrest⟩ := exists_more_of_pending hrest hc
        obtain ⟨w, rest, rfl, hw, hw', -, rfl⟩ := exists_last_of_pending hrest hc
        have := toNat_ofNat_eq_or
          (((x.toNat % 0x08 * 0x40 + y.toNat % 0x40) * 0x40 + z.toNat % 0x40) * 0x40 +
            w.toNat % 0x40)
        split at hy <;> split at hy' <;> omega
      · exact absurd (List.head_eq_of_cons_eq H).symm hc

/-- The bytes that a character of three bytes is made of. -/
def Part (b : UInt8) : Prop := Tail b ∨ 0xE0 ≤ b.toNat ∧ b.toNat < 0xF0

/-- **Three bytes for two are never made up for.** Here `queue` is what has been written, but would
have been read before the text: characters that are written as these bytes are read from three bytes
of the same kind, so that the queue grows by one with each of them. -/
theorem decode_ne_of_queue {queue bs : List UInt8}
    (H : (Charset.utf16 .big).encode cs = queue ++ bs) (hqueue : ∀ b ∈ queue, Part b)
    (hlen : 2 ≤ queue.length) : decode bs ≠ cs := by
  induction cs generalizing queue bs with
  | nil =>
      rw [Charset.encode_nil, List.nil_eq, List.append_eq_nil_iff] at H
      rw [H.1] at hlen
      exact absurd hlen (by decide)
  | cons c cs ih =>
      intro hread
      match queue, hlen with
      | a :: b :: queue, _ =>
          have ha := hqueue a List.mem_cons_self
          have hb := hqueue b (List.mem_cons_of_mem a List.mem_cons_self)
          have hunit : Utf16.ByteOrder.unit .big a b = a.toNat * 256 + b.toNat := rfl
          have hb' : b.toNat < 256 := b.toNat_lt
          rw [Part, Tail] at ha hb
          obtain ⟨c', cs', hcs, hc, hrest⟩ := exists_cons_of_encode H (by
            rw [hunit, Utf16.IsLead]
            omega)
          cases hcs
          rw [hunit] at hc
          obtain ⟨x, y, z, bs, rfl, hx, hx', hy, hz, hread⟩ :=
            exists_three hread (by omega) (by omega)
          have hbytes : (Charset.utf16 .big).encode cs = (queue ++ [x, y, z]) ++ bs := by
            rw [hrest, List.append_assoc]
            rfl
          refine ih hbytes ?_ ?_ hread
          · intro w hw
            rcases List.mem_append.mp hw with hw | hw
            · exact hqueue w (List.mem_cons_of_mem a (List.mem_cons_of_mem b hw))
            · simp only [List.mem_cons, List.not_mem_nil, or_false] at hw
              rcases hw with rfl | rfl | rfl
              · exact .inr ⟨hx, hx'⟩
              · exact .inl hy
              · exact .inl hz
          · rw [List.length_append, List.length_cons, List.length_cons]
            omega

end Utf8

namespace Utf16

theorem length_encodeChar_ofNat {order : ByteOrder} {u : Nat} (h : u < 0x10000) :
    (encodeChar order (Char.ofNat u)).length = 2 := by
  have := toNat_ofNat_eq_or u
  rw [encodeChar, units, if_pos (by omega), List.flatMap_singleton]
  cases order <;> rfl

theorem length_encodeChar_le (order : ByteOrder) (c : Char) : (encodeChar order c).length ≤ 4 := by
  have hunit : ∀ u, (order.bytes u).length = 2 := by
    intro u
    cases order <;> rfl
  rw [encodeChar, units, List.length_flatMap]
  split <;> simp [hunit]

/-- **What has been read takes no more bytes than it was read from**, in either order, but for one
where a single byte was replaced. -/
theorem length_encode_decode_le (order order' : ByteOrder) (bs : List UInt8) :
    ((Charset.utf16 order).encode (decode order' bs)).length ≤ bs.length + 1 := by
  have hreplace : (encodeChar order replacement).length = 2 := length_encodeChar_ofNat (by decide)
  have hchar : ∀ a b, (encodeChar order (Char.ofNat (order'.unit a b))).length = 2 := by
    intro a b
    have ha := a.toNat_lt
    have hb := b.toNat_lt
    exact length_encodeChar_ofNat (by cases order' <;> rw [ByteOrder.unit] <;> omega)
  have hcons : ∀ c cs, ((Charset.utf16 order).encode (c :: cs)).length =
      (encodeChar order c).length + ((Charset.utf16 order).encode cs).length := by
    intro c cs
    rw [Charset.encode_cons, List.length_append, Charset.encodeChar]
  -- Only a pair takes two units, and it was read from two.
  fun_induction decode order' bs with
  | case4 a b u hu =>
      simp [hcons, u, hchar, Charset.encode_nil]
  | case7 a b _ u hl ht =>
      simp [hcons, hreplace, u, hchar, Charset.encode_nil]
  | case8 a b c d rest u v hl ht ih =>
      have := length_encodeChar_le order (paired u v)
      simp only [hcons, List.length_cons] at ih ⊢
      omega
  | case9 a b c d rest u v hl ht ih =>
      simp only [hcons, hreplace, List.length_cons] at ih ⊢
      omega
  | case10 a b c d rest u hl ht ih =>
      simp only [hcons, hreplace, List.length_cons] at ih ⊢
      omega
  | case11 a b c d rest u hl ht ih =>
      simp only [hcons, u, hchar, List.length_cons] at ih ⊢
      omega
  | _ => simp [hcons, hreplace, Charset.encode_nil]

end Utf16

/-- **A text that spells a mark is not read back.** -/
theorem Spells.decode_ne {cs : List Char} {charset : Charset} {rest : List UInt8}
    (H : Spells cs charset rest) : charset.decode rest ≠ cs := by
  intro hread
  cases H with
  | big cs =>
      have hcovers : ∀ c ∈ cs, (Charset.utf16 .big).Covers c := fun c _ => trivial
      rw [Charset.decode_encode hcovers] at hread
      have := congrArg List.length hread
      rw [List.length_cons] at this
      omega
  | little cs =>
      have hle := Utf16.length_encode_decode_le .big .little ((Charset.utf16 .big).encode cs)
      rw [Charset.decode] at hread
      rw [hread, encode_big_cons (by decide), List.length_cons, List.length_cons] at hle
      omega
  | @utf8 c cs high =>
      obtain ⟨x, y, z, bs, hbs, hx, hx', hy, hz, hread⟩ :=
        Utf8.exists_three hread (by decide) (by decide)
      obtain ⟨rfl, hrest⟩ := List.cons_eq_cons.mp hbs
      have hbytes : (Charset.utf16 .big).encode (c :: cs) =
          [0xBF, UInt8.ofNat c.toNat, y, z] ++ bs := by
        rw [encode_big_cons (by omega), high, hrest]
        rfl
      refine Utf8.decode_ne_of_queue hbytes ?_ (by simp only [List.length_cons]; omega) hread
      · intro b hb
        simp only [List.mem_cons, List.not_mem_nil, or_false] at hb
        rcases hb with rfl | rfl | rfl | rfl
        · exact .inl ⟨by decide, by decide⟩
        · exact .inr ⟨hx, hx'⟩
        · exact .inl hy
        · exact .inl hz

/-! ## Fields -/

section

variable {s : String} {bs : List UInt8}

theorem decode?_of_orMarked {charset : Charset} {rest : List UInt8}
    (H : (Charset.utf16 .big).orMarked (withoutTerminator 2 bs) = (charset, rest)) :
    decode? 1 bs = some (String.ofList (charset.decode rest)) := by
  have hcharset : Encoding.utf16.charset (withoutTerminator Encoding.utf16.width bs) =
      (charset, rest) := H
  have hencoding : Encoding.ofByte? 1 = some .utf16 := rfl
  rw [decode?, hencoding, Option.map_some, Encoding.decode, hcharset]

theorem decode?_of_spells {charset : Charset} {rest : List UInt8}
    (H : withoutTerminator 2 bs = (Charset.utf16 .big).encode s.toList)
    (hspells : Spells s.toList charset rest) :
    decode? 1 bs = some (String.ofList (charset.decode rest)) := by
  apply decode?_of_orMarked
  rw [H, Charset.orMarked, mark?_encode_big.mpr hspells, Option.getD_some]

/-- A text is read back unless it spells a mark, and is not if it does. -/
theorem decode?_eq_some_iff (H : withoutTerminator 2 bs = (Charset.utf16 .big).encode s.toList) :
    decode? 1 bs = some s ↔ ∀ charset rest, ¬ Spells s.toList charset rest := by
  constructor
  · intro hread charset rest hspells
    rw [decode?_of_spells H hspells] at hread
    refine hspells.decode_ne ?_
    rw [← Option.some.inj hread, String.toList_ofList]
  · intro hnone
    have hcovers : ∀ c ∈ s.toList, (Charset.utf16 .big).Covers c := fun c _ => trivial
    have hmark : (Charset.utf16 .big).orMarked (withoutTerminator 2 bs) =
        (.utf16 .big, (Charset.utf16 .big).encode s.toList) := by
      cases hm : mark? ((Charset.utf16 .big).encode s.toList) with
      | none => rw [H, Charset.orMarked, hm, Option.getD_none]
      | some found => exact absurd (mark?_encode_big.mp hm) (hnone found.1 found.2)
    rw [decode?_of_orMarked hmark, Charset.decode_encode hcovers, String.ofList_toList]

end

/-- **A text that is written without a mark is read back if and only if it spells none.** This is so
with a terminator behind it, and without one for every text that does not end in a zero character.
Where it does spell a mark it is read as that mark says, from what comes after it. -/
theorem readBack_unmarked (s : String) :
    (ReadBack 1 2 ((Charset.utf16 .big).encode s.toList) s ↔
        ∀ charset rest, ¬ Spells s.toList charset rest) ∧
      (s.toList.getLast? ≠ some (Char.ofNat 0) →
        (decode? 1 ((Charset.utf16 .big).encode s.toList) = some s ↔
          ∀ charset rest, ¬ Spells s.toList charset rest)) ∧
      ∀ charset rest, Spells s.toList charset rest →
        decode? 1 ((Charset.utf16 .big).encode s.toList ++ [0, 0]) =
            some (String.ofList (charset.decode rest)) ∧
          (s.toList.getLast? ≠ some (Char.ofNat 0) →
            decode? 1 ((Charset.utf16 .big).encode s.toList) =
              some (String.ofList (charset.decode rest))) := by
  have hlong := withoutTerminator_append_replicate 2 ((Charset.utf16 .big).encode s.toList)
  have hcovers : ∀ c ∈ s.toList, (Charset.utf16 .big).Covers c := fun c _ => trivial
  have hempty : withoutTerminator (Charset.utf16 .big).width [] = [] := rfl
  have hshort : s.toList.getLast? ≠ some (Char.ofNat 0) →
      withoutTerminator 2 ((Charset.utf16 .big).encode s.toList) =
        (Charset.utf16 .big).encode s.toList :=
    fun hlast => withoutTerminator_encode hcovers hempty hlast
  refine ⟨⟨fun H => (decode?_eq_some_iff hlong).mp H.1, fun H => ⟨?_, ?_⟩⟩, ?_, ?_⟩
  · exact (decode?_eq_some_iff hlong).mpr H
  · exact fun hlast => (decode?_eq_some_iff (hshort hlast)).mpr H
  · exact fun hlast => decode?_eq_some_iff (hshort hlast)
  · intro charset rest hspells
    exact ⟨decode?_of_spells hlong hspells, fun hlast => decode?_of_spells (hshort hlast) hspells⟩

/-- The two characters of which the bytes are the mark of UTF-8 and one byte more are read as the
character of that byte; with a smaller one before them they are read back. -/
theorem readBack_unmarked_latin :
    decode? 1 [0xEF, 0xBB, 0xBF, 0x41] = some "A" ∧
      decode? 1 [0, 0x41, 0xEF, 0xBB, 0xBF, 0x41] =
        some (String.ofList ['A', Char.ofNat 0xEFBB, Char.ofNat 0xBF41]) := by
  constructor
  · obtain ⟨-, -, hread⟩ :=
      readBack_unmarked (String.ofList [Char.ofNat 0xEFBB, Char.ofNat 0xBF41])
    rw [String.toList_ofList] at hread
    exact (hread _ _ (.utf8 [] (by decide))).2 (by decide)
  · obtain ⟨-, hread, -⟩ :=
      readBack_unmarked (String.ofList ['A', Char.ofNat 0xEFBB, Char.ofNat 0xBF41])
    rw [String.toList_ofList] at hread
    exact (hread (by decide)).mpr fun charset rest hspells => nomatch hspells

/-- A text that begins with the character of neither mark of UTF-16 and is not read back. -/
theorem readBack_unmarked_foreign :
    ∃ s : String, s.toList.head? ≠ some (Char.ofNat 0xFEFF) ∧
      s.toList.head? ≠ some (Char.ofNat 0xFFFE) ∧ s.toList.getLast? ≠ some (Char.ofNat 0) ∧
      decode? 1 ((Charset.utf16 .big).encode s.toList) ≠ some s := by
  refine ⟨String.ofList [Char.ofNat 0xEFBB, Char.ofNat 0xBF41], ?_⟩
  rw [String.toList_ofList]
  decide

end MpegAudio.Text
