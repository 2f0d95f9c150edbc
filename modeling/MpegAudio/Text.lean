import MpegAudio.Text.Utf16

/-!
# Text fields

The text in a tag follows a byte that names its encoding. It may end in a terminator, a zero of
the encoding's unit width, which is dropped. Two of the encodings let a byte order mark at the
start of the text decide what the text really is; any of the three marks does so.
-/

namespace MpegAudio.Text

/-- A way to read bytes as characters. -/
inductive Charset where
  /-- Each byte is the code point of the same number. -/
  | latin1
  | utf8
  | utf16 (order : Utf16.ByteOrder)
  deriving DecidableEq, Repr

def Charset.decode : Charset → List UInt8 → List Char
  | latin1, bs => bs.map fun b => Char.ofNat b.toNat
  | utf8, bs => Utf8.decode bs
  | utf16 order, bs => Utf16.decode order bs

/-- The charset announced by a mark at the start of the bytes, and the bytes after the mark. -/
def mark? : List UInt8 → Option (Charset × List UInt8)
  | 0xEF :: 0xBB :: 0xBF :: rest => some (.utf8, rest)
  | 0xFE :: 0xFF :: rest => some (.utf16 .big, rest)
  | 0xFF :: 0xFE :: rest => some (.utf16 .little, rest)
  | _ => none

/-- The charset that a mark announces, or else the given one, and the bytes to read with it. -/
def Charset.orMarked (c : Charset) (bs : List UInt8) : Charset × List UInt8 :=
  (mark? bs).getD (c, bs)

/-- The bytes without a terminator of `width` zero bytes at their end. -/
def withoutTerminator (width : Nat) (bs : List UInt8) : List UInt8 :=
  let keep := bs.length - width
  if width ≤ bs.length ∧ (bs.drop keep).all (· = 0) then bs.take keep else bs

/-- The encodings that a text field can name. -/
inductive Encoding where
  | latin1
  /-- UTF-16 with a mark, and with the high byte first when there is none. -/
  | utf16
  /-- UTF-16 with the high byte first, in which a mark is an ordinary character. -/
  | utf16Big
  | utf8
  deriving DecidableEq, Repr

namespace Encoding

/-- The encoding behind its byte. -/
def ofByte? (b : UInt8) : Option Encoding :=
  [latin1, utf16, utf16Big, utf8][b.toNat]?

/-- The bytes in one unit, which is also the length of a terminator. -/
def width : Encoding → Nat
  | latin1 | utf8 => 1
  | utf16 | utf16Big => 2

/-- The charset of some bytes, and the bytes to read with it. -/
def charset (e : Encoding) (bs : List UInt8) : Charset × List UInt8 :=
  match e with
  | latin1 => (.latin1, bs)
  | utf16 => Charset.orMarked (.utf16 .big) bs
  | utf16Big => (.utf16 .big, bs)
  | utf8 => Charset.orMarked .utf8 bs

/-- The text in the bytes after the encoding byte. -/
def decode (e : Encoding) (bs : List UInt8) : String :=
  let (charset, text) := e.charset (withoutTerminator e.width bs)
  String.ofList (charset.decode text)

end Encoding

/-- The text in the bytes after an encoding byte, if that byte names an encoding. -/
def decode? (encoding : UInt8) (bs : List UInt8) : Option String :=
  (Encoding.ofByte? encoding).map (·.decode bs)

theorem withoutTerminator_append_replicate (width : Nat) (bs : List UInt8) :
    withoutTerminator width (bs ++ List.replicate width 0) = bs := by
  simp [withoutTerminator]

end MpegAudio.Text
