import MpegAudio.Proofs.Text.Utf16
import MpegAudio.Text

/-!
# Writing a text field and reading it back

A text is written character by character, in one of the charsets, behind a byte order mark where the
encoding has one. It may end in a terminator, a zero of the encoding's unit width. The terminator is
looked for in the bytes, before they are read as characters. That takes nothing from the text: the
last unit of a character is zero only if the character is, and so the text has to end in a zero
character to be cut short. Behind such a text a terminator is needed, and it alone is dropped.

A mark is looked for next. In UTF-8 the mark is spelled like a character, and a text that begins
with this character loses it. In UTF-16 one mark is dropped, and what follows it is text.
-/

namespace MpegAudio.Text

/-! ## The bytes of a text -/

namespace Charset

def encodeChar : Charset → Char → List UInt8
  | latin1, c => [UInt8.ofNat c.toNat]
  | utf8, c => String.utf8EncodeChar c
  | utf16 order, c => Utf16.encodeChar order c

def encode (charset : Charset) (cs : List Char) : List UInt8 := cs.flatMap charset.encodeChar

/-- The characters of a charset. Where a character is one byte there are few of them. -/
def Covers : Charset → Char → Prop
  | latin1, c => c.toNat ≤ 0xFF
  | utf8, _ => True
  | utf16 _, _ => True

def width : Charset → Nat
  | latin1 => 1
  | utf8 => 1
  | utf16 _ => 2

variable {charset : Charset} {c : Char} {cs : List Char}

theorem encode_nil (charset : Charset) : charset.encode [] = [] := rfl

theorem encode_cons (charset : Charset) (c : Char) (cs : List Char) :
    charset.encode (c :: cs) = charset.encodeChar c ++ charset.encode cs := List.flatMap_cons

theorem encode_concat (charset : Charset) (cs : List Char) (c : Char) :
    charset.encode (cs ++ [c]) = charset.encode cs ++ charset.encodeChar c := by
  rw [encode, encode, List.flatMap_append, List.flatMap_singleton]

theorem decode_encodeChar_append (H : charset.Covers c) (rest : List UInt8) :
    charset.decode (charset.encodeChar c ++ rest) = c :: charset.decode rest := by
  cases charset with
  | latin1 =>
      have hbyte : (UInt8.ofNat c.toNat).toNat = c.toNat := by
        rw [UInt8.toNat_ofNat']
        exact Nat.mod_eq_of_lt (Nat.lt_succ_of_le H)
      rw [encodeChar, List.singleton_append, decode, List.map_cons, hbyte, Char.ofNat_toNat]
      rfl
  | utf8 => exact Utf8.decode_encodeChar_append c rest
  | utf16 order => exact Utf16.decode_encodeChar_append order c rest

/-- **Reading undoes writing**, in every charset that has the characters. -/
theorem decode_encode (H : ∀ c ∈ cs, charset.Covers c) :
    charset.decode (charset.encode cs) = cs := by
  induction cs with
  | nil => cases charset <;> rfl
  | cons c cs ih =>
      rw [encode_cons, decode_encodeChar_append (H c List.mem_cons_self),
        ih fun c' hc' => H c' (List.mem_cons_of_mem c hc')]

/-- The last unit of a character is zero only if the character is. -/
theorem exists_last (H : charset.Covers c) :
    ∃ front unit, charset.encodeChar c = front ++ unit ∧ unit.length = charset.width ∧
      (unit = List.replicate charset.width 0 → c = Char.ofNat 0) := by
  cases charset with
  | latin1 =>
      refine ⟨[], _, rfl, rfl, fun hzero => ?_⟩
      have hbyte : (UInt8.ofNat c.toNat).toNat = 0 := by rw [List.head_eq_of_cons_eq hzero]; rfl
      rw [UInt8.toNat_ofNat', Nat.mod_eq_of_lt (Nat.lt_succ_of_le H)] at hbyte
      rw [← hbyte, Char.ofNat_toNat]
  | utf8 =>
      obtain ⟨front, b, heq, hlast⟩ := Utf8.exists_last c
      refine ⟨front, [b], heq, rfl, fun hzero => hlast ?_⟩
      exact List.head_eq_of_cons_eq hzero
  | utf16 order =>
      obtain ⟨front, a, b, heq, hlast⟩ := Utf16.exists_last order c
      refine ⟨front, [a, b], heq, rfl, fun hzero => hlast ?_⟩
      have htail := List.tail_eq_of_cons_eq hzero
      exact ⟨List.head_eq_of_cons_eq hzero, List.head_eq_of_cons_eq htail⟩

/-- The standard library has the same bytes for UTF-8. -/
theorem toList_toUTF8 (s : String) : s.toUTF8.data.toList = utf8.encode s.toList := by
  rw [String.toUTF8]
  conv => lhs; rw [← String.ofList_toList (s := s)]
  rw [String.toByteArray_ofList, List.utf8Encode, List.toList_data_toByteArray]
  rfl

end Charset

/-! ## The terminator and the mark -/

theorem withoutTerminator_of_ne {width : Nat} {unit : List UInt8} (hwidth : unit.length = width)
    (hne : unit ≠ List.replicate width 0) (front : List UInt8) :
    withoutTerminator width (front ++ unit) = front ++ unit := by
  have hkeep : (front ++ unit).length - width = front.length := by
    rw [List.length_append]
    omega
  rw [withoutTerminator, hkeep, List.drop_left, if_neg]
  rintro ⟨-, hzeros⟩
  rw [List.all_eq_true] at hzeros
  exact hne (List.eq_replicate_iff.mpr ⟨hwidth, fun b hb => of_decide_eq_true (hzeros b hb)⟩)

/-- A text that does not end in a zero character is not cut short, nor is the mark before it. -/
theorem withoutTerminator_encode {charset : Charset} {cs : List Char} {mark : List UInt8}
    (H : ∀ c ∈ cs, charset.Covers c) (hmark : withoutTerminator charset.width mark = mark)
    (hlast : cs.getLast? ≠ some (Char.ofNat 0)) :
    withoutTerminator charset.width (mark ++ charset.encode cs) = mark ++ charset.encode cs := by
  rcases List.eq_nil_or_concat cs with rfl | ⟨init, c, rfl⟩
  · rw [Charset.encode_nil, List.append_nil, hmark]
  · rw [List.concat_eq_append] at H hlast ⊢
    have hc : c ≠ Char.ofNat 0 := fun hzero => hlast (by rw [List.getLast?_concat, hzero])
    obtain ⟨front, unit, heq, hwidth, hzero⟩ :=
      Charset.exists_last (H c (List.mem_append_right _ List.mem_cons_self))
    rw [Charset.encode_concat, heq, ← List.append_assoc, ← List.append_assoc]
    exact withoutTerminator_of_ne hwidth (fun hunit => hc (hzero hunit)) _

/-- A text in UTF-8 is taken for marked only if it begins with the character of the mark. -/
theorem mark?_encode_utf8 {cs : List Char} (H : cs.head? ≠ some (Char.ofNat 0xFEFF)) :
    mark? (Charset.utf8.encode cs) = none := by
  cases cs with
  | nil => rfl
  | cons c cs =>
      have hread := Utf8.decode_encodeChar_append c (Charset.utf8.encode cs)
      obtain ⟨b, rest, hlead, hsmall⟩ := Utf8.exists_lead c
      rw [Charset.encode_cons, Charset.encodeChar, mark?.eq_def]
      split
      · -- The mark would be read as the character it spells.
        rename_i rest' heq
        have hmark : Utf8.decode (0xEF :: 0xBB :: 0xBF :: rest') =
            Char.ofNat 0xFEFF :: Utf8.decode rest' := rfl
        rw [heq, hmark] at hread
        exact absurd (congrArg some (List.head_eq_of_cons_eq hread).symm) H
      · rename_i heq
        rw [hlead] at heq
        rw [List.head_eq_of_cons_eq heq] at hsmall
        exact absurd hsmall (by decide)
      · rename_i heq
        rw [hlead] at heq
        rw [List.head_eq_of_cons_eq heq] at hsmall
        exact absurd hsmall (by decide)
      · rfl

/-! ## Fields -/

/-- A field with these bytes is read as `s`: with a terminator of so many zeros behind them always,
and without one as long as `s` does not end in a zero character. -/
def ReadBack (encoding : UInt8) (width : Nat) (bs : List UInt8) (s : String) : Prop :=
  decode? encoding (bs ++ List.replicate width 0) = some s ∧
    (s.toList.getLast? ≠ some (Char.ofNat 0) → decode? encoding bs = some s)

/-- A text that an encoding reads with a charset, behind a mark or without one, is read back. -/
theorem readBack_of_charset {b : UInt8} {e : Encoding} {charset : Charset} {s : String}
    (mark : List UInt8) (hb : Encoding.ofByte? b = some e) (hwidth : e.width = charset.width)
    (H : ∀ c ∈ s.toList, charset.Covers c) (hmark : withoutTerminator charset.width mark = mark)
    (hcharset : e.charset (mark ++ charset.encode s.toList) =
      (charset, charset.encode s.toList)) :
    ReadBack b charset.width (mark ++ charset.encode s.toList) s := by
  have hread : ∀ bs, withoutTerminator charset.width bs = mark ++ charset.encode s.toList →
      decode? b bs = some s := by
    intro bs hbs
    rw [decode?, hb, Option.map_some, Encoding.decode, hwidth, hbs, hcharset]
    show some (String.ofList (charset.decode (charset.encode s.toList))) = some s
    rw [Charset.decode_encode H, String.ofList_toList]
  constructor
  · exact hread _ (withoutTerminator_append_replicate _ _)
  · intro hlast
    exact hread _ (withoutTerminator_encode H hmark hlast)

/-- **Reading a field undoes writing it**, for every text and in each encoding that can spell it:
in the first, where all its characters are one byte; in UTF-16 behind a mark for either order, also
where the text begins with the character of the mark itself; in UTF-16 without a mark, where that
character is kept; and in UTF-8, where the text must not begin with it. One terminator is dropped,
and a text that ends in a zero character needs one. -/
theorem readBack_encode (s : String) :
    ((∀ c ∈ s.toList, c.toNat ≤ 0xFF) → ReadBack 0 1 (Charset.latin1.encode s.toList) s) ∧
      ReadBack 1 2 ([0xFE, 0xFF] ++ (Charset.utf16 .big).encode s.toList) s ∧
      ReadBack 1 2 ([0xFF, 0xFE] ++ (Charset.utf16 .little).encode s.toList) s ∧
      ReadBack 2 2 ((Charset.utf16 .big).encode s.toList) s ∧
      (s.toList.head? ≠ some (Char.ofNat 0xFEFF) → ReadBack 3 1 s.toUTF8.data.toList s) := by
  have hall : ∀ order, ∀ c ∈ s.toList, (Charset.utf16 order).Covers c :=
    fun order c hc => trivial
  refine ⟨?_, ?_, ?_, ?_, ?_⟩
  · intro H
    exact readBack_of_charset (e := .latin1) [] rfl rfl H rfl rfl
  · exact readBack_of_charset (e := .utf16) [0xFE, 0xFF] rfl rfl (hall .big) (by decide) rfl
  · exact readBack_of_charset (e := .utf16) [0xFF, 0xFE] rfl rfl (hall .little) (by decide) rfl
  · exact readBack_of_charset (e := .utf16Big) [] rfl rfl (hall .big) rfl rfl
  · intro H
    have hcharset : Encoding.utf8.charset (Charset.utf8.encode s.toList) =
        (.utf8, Charset.utf8.encode s.toList) := by
      rw [Encoding.charset, Charset.orMarked, mark?_encode_utf8 H]
      rfl
    rw [Charset.toList_toUTF8]
    exact readBack_of_charset [] rfl rfl (fun c hc => trivial) rfl hcharset

/-- A mark, a character that needs a pair of surrogates and a zero character: in UTF-16 they are
read back behind a mark of their own and before a terminator, and so is in UTF-8 what comes after
the first. A character of one byte is read back without a terminator too. -/
theorem readBack_encode_mark :
    decode? 1 [0xFF, 0xFE, 0xFF, 0xFE, 0x3D, 0xD8, 0x00, 0xDE, 0, 0, 0, 0] =
        some (String.ofList [Char.ofNat 0xFEFF, Char.ofNat 0x1F600, Char.ofNat 0]) ∧
      decode? 3 [0xF0, 0x9F, 0x98, 0x80, 0, 0] =
        some (String.ofList [Char.ofNat 0x1F600, Char.ofNat 0]) ∧
      decode? 0 [0xE9] = some (String.ofList [Char.ofNat 0xE9]) := by
  refine ⟨?_, ?_, ?_⟩
  · obtain ⟨-, -, ⟨hread, -⟩, -⟩ :=
      readBack_encode (String.ofList [Char.ofNat 0xFEFF, Char.ofNat 0x1F600, Char.ofNat 0])
    rw [String.toList_ofList] at hread
    exact hread
  · obtain ⟨-, -, -, -, hread⟩ :=
      readBack_encode (String.ofList [Char.ofNat 0x1F600, Char.ofNat 0])
    rw [Charset.toList_toUTF8, String.toList_ofList] at hread
    exact (hread (by decide)).1
  · obtain ⟨hread, -⟩ := readBack_encode (String.ofList [Char.ofNat 0xE9])
    rw [String.toList_ofList] at hread
    have hbyte : ∀ c ∈ [Char.ofNat 0xE9], c.toNat ≤ 0xFF := by
      intro c hc
      rw [List.mem_singleton.mp hc]
      decide
    obtain ⟨-, hshort⟩ := hread hbyte
    rw [String.toList_ofList] at hshort
    exact hshort (by decide)

end MpegAudio.Text
