import MpegAudio.Proofs.Bytes.Digits
import MpegAudio.Proofs.Tag.Body

/-!
# Written tags

What a writer of tags is given, and the bytes that it makes of it. A writer has a list of frames,
and the revision settles how their sizes and flags are laid out. Before the frames it may put an
extension, behind them any number of zeros, and behind the declared size a footer.

Each text that a written tag gives is a matter of its frames alone: under a key stands the text of
the last frame that has a readable one for it. The table in the bytes of the tag is exactly that.

## Main definitions

* `WrittenFrame r`, `WrittenTag r` — a frame and a tag of revision `r`, fit to be written.
* `WrittenFrame.bytes`, `WrittenTag.bytes` — the bytes that are written.
* `WrittenTag.text? tag key` — the text that the frames of a tag give under a key.
* `WrittenTag.get?_table` — the table in the bytes of the body has those texts.
-/

namespace MpegAudio.Tag

open Bytes

/-! ## How the revisions write -/

namespace Revision

def major : Revision → UInt8
  | two => 2
  | three => 3
  | four => 4

def idLength : Revision → Nat
  | two => 3
  | three | four => 4

/-- Bodies shorter than this have a size that can be written. -/
def sizeBound : Revision → Nat
  | two => 256 ^ 3
  | three => 256 ^ 4
  | four => 128 ^ 4

/-- The size of a body, as it stands in a frame header. -/
def sizeField : Revision → Nat → List UInt8
  | two, n => digits 256 3 n
  | three, n => digits 256 4 n
  | four, n => digits 128 4 n

/-- The flag bits of a frame, as they stand in its header. The oldest revision has none. -/
def flagField : Revision → UInt16 → List UInt8
  | two, _ => []
  | three, bits | four, bits => digits 256 2 bits.toNat

/-- The size field of an extension with so many bytes behind that field. It counts itself in
revision 4, and does not in revision 3. -/
def extensionField : Revision → Nat → List UInt8
  | two, _ => []
  | three, n => digits 256 4 n
  | four, n => digits 128 4 (n + 4)

/-- An extension with its size field, or nothing. -/
def extensionBytes (r : Revision) : Option (List UInt8) → List UInt8
  | none => []
  | some payload => r.extensionField payload.length ++ payload

/-- The body of a frame with these flag bits is stored as it is. In revision 3 the bits `0080` and
`0040` stand for compression and encryption; in revision 4 the low four bits stand for compression,
encryption, unsynchronisation and a data length. Before revision 4 unsynchronisation concerns the
whole tag. -/
def StoresRaw : Revision → (tagUnsynchronised : Bool) → UInt16 → Prop
  | two, tagUnsynchronised, _ => tagUnsynchronised = false
  | three, tagUnsynchronised, bits => tagUnsynchronised = false ∧ bits.toNat / 64 % 4 = 0
  | four, _, bits => bits.toNat % 16 = 0

instance (r : Revision) (tagUnsynchronised : Bool) (bits : UInt16) :
    Decidable (r.StoresRaw tagUnsynchronised bits) := by
  cases r <;> unfold StoresRaw <;> infer_instance

end Revision

/-- The identifiers that stand for a key, of four bytes each. -/
def Key.spellings : Key → List (List UInt8)
  | .title => [[0x54, 0x49, 0x54, 0x32], [0x54, 0x54, 0x32, 0x00]]
  | .artist => [[0x54, 0x50, 0x45, 0x31], [0x54, 0x50, 0x31, 0x00]]

/-- A frame fit to be written in a revision. -/
structure WrittenFrame (r : Revision) where
  id : List UInt8
  flags : UInt16
  body : List UInt8
  length_id : id.length = r.idLength
  head_id : id.head? ≠ some 0
  length_body : body.length < r.sizeBound

namespace WrittenFrame

variable {r : Revision}

def head (f : WrittenFrame r) : List UInt8 :=
  f.id ++ r.sizeField f.body.length ++ r.flagField f.flags

/-- The frame as it is written. -/
def bytes (f : WrittenFrame r) : List UInt8 := f.head ++ f.body

/-- The identifier in four bytes, a missing one being zero. -/
def fullId (f : WrittenFrame r) : List UInt8 :=
  match r with
  | .two => f.id ++ [0]
  | .three | .four => f.id

/-- The frame has a text for the key: it is named for it, stored as it is, and its body begins with
one of the four bytes that name an encoding. -/
def Tells (tagUnsynchronised : Bool) (key : Key) (f : WrittenFrame r) : Prop :=
  f.fullId ∈ key.spellings ∧ r.StoresRaw tagUnsynchronised f.flags ∧
    f.body.head?.any (·.toNat ≤ 3)

instance (tagUnsynchronised : Bool) (key : Key) (f : WrittenFrame r) :
    Decidable (f.Tells tagUnsynchronised key) :=
  inferInstanceAs (Decidable (_ ∧ _ ∧ _))

/-- The text in the body, after the byte that names its encoding. -/
def text? (f : WrittenFrame r) : Option String :=
  match f.body with
  | [] => none
  | encoding :: text => Text.decode? encoding text

end WrittenFrame

/-- A tag fit to be written in a revision. -/
structure WrittenTag (r : Revision) where
  minor : UInt8
  flags : UInt8
  /-- The bytes of an extension behind its size field, if there is one. -/
  extension : Option (List UInt8)
  frames : List (WrittenFrame r)
  /-- The zeros behind the frames. -/
  padding : Nat
  footer : List UInt8
  extended : flags.toNat.testBit 6 = extension.isSome
  extension_two : r = .two → extension = none
  length_footer : footer.length = if r = .four ∧ flags.toNat.testBit 4 then 10 else 0
  length_body : (r.extensionBytes extension ++
    (frames.flatMap WrittenFrame.bytes ++ List.replicate padding 0)).length < 2 ^ 28

namespace WrittenTag

variable {r : Revision}

/-- The frames and the padding. -/
def frameBytes (tag : WrittenTag r) : List UInt8 :=
  tag.frames.flatMap WrittenFrame.bytes ++ List.replicate tag.padding 0

/-- The bytes that the declared size counts. -/
def body (tag : WrittenTag r) : List UInt8 := r.extensionBytes tag.extension ++ tag.frameBytes

/-- The seven bytes that declare version, flags and size. -/
def preambleBytes (tag : WrittenTag r) : List UInt8 :=
  r.major :: tag.minor :: tag.flags :: digits 128 4 tag.body.length

def bytes (tag : WrittenTag r) : List UInt8 :=
  marker ++ (tag.preambleBytes ++ (tag.body ++ tag.footer))

/-- The whole tag is unsynchronised. -/
def unsynchronised (tag : WrittenTag r) : Bool := tag.flags.toNat.testBit 7

/-- The text under a key: that of the last frame that has one for it. -/
def text? (tag : WrittenTag r) (key : Key) : Option String :=
  (tag.frames.filter (·.Tells tag.unsynchronised key)).getLast?.bind (·.text?)

end WrittenTag

/-! ## Reading one frame -/

variable {r : Revision} {tagUnsynchronised : Bool} {key : Key}

namespace Revision

/-- What the flag bits of a frame mean in a tag. -/
def flagsOf (r : Revision) (tagUnsynchronised : Bool) (bits : UInt16) : Flags :=
  match r with
  | two => { unsynchronised := tagUnsynchronised }
  | three => .ofRevision3 bits.toNat tagUnsynchronised
  | four => .ofRevision4 bits.toNat

theorem isRaw_flagsOf {bits : UInt16} :
    (r.flagsOf tagUnsynchronised bits).isRaw ↔ r.StoresRaw tagUnsynchronised bits := by
  cases r with
  | two => simp [flagsOf, StoresRaw, Flags.isRaw]
  | three =>
      simp only [flagsOf, StoresRaw, Flags.isRaw, Flags.ofRevision3, Nat.testBit_eq_decide_div_mod_eq]
      cases tagUnsynchronised
      · simp
        omega
      · simp
  | four =>
      simp only [flagsOf, StoresRaw, Flags.isRaw, Flags.ofRevision4, Nat.testBit_eq_decide_div_mod_eq]
      simp
      omega

end Revision

theorem Key.ofBytes?_eq_some_iff {id : List UInt8} :
    ofBytes? id = some key ↔ id ∈ key.spellings := by
  constructor
  · intro H
    unfold ofBytes? at H
    split at H <;> cases H
    all_goals decide
  · intro H
    cases key <;> simp only [spellings, List.mem_cons, List.not_mem_nil, or_false] at H <;>
      rcases H with rfl | rfl <;> rfl

theorem isSome_decode?_iff {encoding : UInt8} {text : List UInt8} :
    (Text.decode? encoding text).isSome ↔ encoding.toNat ≤ 3 := by
  have hlt : encoding.toNat ≤ 3 ↔ encoding.toNat < 4 := by omega
  rw [Text.decode?, Text.Encoding.ofByte?, Option.isSome_map, hlt]
  simp

namespace WrittenFrame

def header (tagUnsynchronised : Bool) (f : WrittenFrame r) : FrameHeader :=
  ⟨f.fullId, f.body.length, r.flagsOf tagUnsynchronised f.flags⟩

@[simp] theorem length_head (f : WrittenFrame r) : f.head.length = r.headerLength := by
  have := f.length_id
  cases r <;> simp_all [head, Revision.sizeField, Revision.flagField, Revision.headerLength,
    Revision.idLength]

theorem ofBytes?_head (f : WrittenFrame r) :
    FrameHeader.ofBytes? r tagUnsynchronised f.head = some (f.header tagUnsynchronised) := by
  have hzero : f.head.head? ≠ some 0 := by
    have hlen := f.length_id
    have hletter := f.head_id
    rw [head]
    rcases hid : f.id with _ | ⟨letter, rest⟩
    · rw [hid] at hlen
      cases r <;> cases hlen
    · rw [hid] at hletter
      exact hletter
  have hid : f.head.take r.idLength = f.id := by
    rw [head, List.append_assoc, List.take_left' f.length_id]
  have hsize : f.head.drop r.idLength = r.sizeField f.body.length ++ r.flagField f.flags := by
    rw [head, List.append_assoc, List.drop_left' f.length_id]
  have hflags : f.head.drop (r.idLength + (r.sizeField f.body.length).length) =
      r.flagField f.flags := by
    rw [← List.drop_drop, hsize, List.drop_left' rfl]
  have hbits : bigEndian (digits 256 2 f.flags.toNat) = f.flags.toNat :=
    bigEndian_digits f.flags.toNat_lt
  have hbody := f.length_body
  rw [FrameHeader.ofBytes?, if_neg hzero, header]
  cases r with
  | two =>
      simp only [Revision.idLength, Revision.sizeField, Revision.flagField, List.append_nil]
        at hid hsize
      simp only [hid, hsize, fullId, Revision.flagsOf]
      rw [List.take_of_length_le (by simp), bigEndian_digits hbody]
  | three =>
      simp only [Revision.idLength, Revision.sizeField, Revision.flagField, length_digits,
        Nat.reduceAdd] at hid hsize hflags
      simp only [hid, hsize, hflags, fullId, Revision.flagsOf]
      rw [List.take_left' (by simp), List.take_of_length_le (by simp), bigEndian_digits hbody,
        hbits]
  | four =>
      simp only [Revision.idLength, Revision.sizeField, Revision.flagField, length_digits,
        Nat.reduceAdd] at hid hsize hflags
      simp only [hid, hsize, hflags, fullId, Revision.flagsOf]
      rw [List.take_left' (by simp), List.take_of_length_le (by simp), syncsafe_digits hbody,
        hbits]

/-- The text of a frame goes under a key if the frame is named for it, is stored as it is and is not
empty. -/
theorem key?_header {f : WrittenFrame r} :
    (f.header tagUnsynchronised).key? = some key ↔
      f.fullId ∈ key.spellings ∧ r.StoresRaw tagUnsynchronised f.flags ∧ f.body ≠ [] := by
  simp only [FrameHeader.key?, header, Revision.isRaw_flagsOf, List.length_pos_iff]
  constructor
  · intro H
    split at H
    case isTrue hraw => exact ⟨Key.ofBytes?_eq_some_iff.mp H, hraw⟩
    case isFalse => cases H
  · rintro ⟨hid, hraw⟩
    rw [if_pos hraw]
    exact Key.ofBytes?_eq_some_iff.mpr hid

/-- A frame that tells a text has one, and the text goes under the key. -/
theorem tells_iff {f : WrittenFrame r} :
    f.Tells tagUnsynchronised key ↔
      (f.header tagUnsynchronised).key? = some key ∧ f.text?.isSome := by
  rw [key?_header, Tells, text?]
  rcases f.body with _ | ⟨encoding, text⟩
  · simp
  · simp [isSome_decode?_iff, and_assoc]

/-- The table after a frame, by its key and its text. -/
theorem store_header (f : WrittenFrame r) (table : Table) :
    (f.header tagUnsynchronised).store f.body table =
      match (f.header tagUnsynchronised).key?, f.text? with
      | some key, some text => table.insert key text
      | _, _ => table := by
  rw [FrameHeader.store, text?]
  rcases (f.header tagUnsynchronised).key? with _ | key
  · rfl
  · rcases f.body with _ | ⟨encoding, text⟩
    · rfl
    · cases hdecode : Text.decode? encoding text <;> simp only [hdecode]

/-- A frame puts its text into the table if it tells one, and leaves all else as it was. -/
theorem get?_store (f : WrittenFrame r) (table : Table) :
    ((f.header tagUnsynchronised).store f.body table).get? key =
      if f.Tells tagUnsynchronised key then f.text? else table.get? key := by
  rw [store_header]
  rcases hkey : (f.header tagUnsynchronised).key? with _ | other
  · rw [if_neg (by simp [tells_iff, hkey])]
  · rcases htext : f.text? with _ | text
    · rw [if_neg (by simp [tells_iff, htext])]
    · simp [tells_iff, hkey, htext, eq_comm]

end WrittenFrame

/-! ## Reading all frames -/

theorem framesIn_bytes_append (f : WrittenFrame r) (rest : List UInt8) (table : Table) :
    framesIn r tagUnsynchronised (f.bytes ++ rest) table =
      framesIn r tagUnsynchronised rest ((f.header tagUnsynchronised).store f.body table) := by
  have hlen := f.length_head
  have hhead : (f.bytes ++ rest).take r.headerLength = f.head := by
    rw [WrittenFrame.bytes, List.append_assoc, List.take_left' hlen]
  have hbehind : (f.bytes ++ rest).drop r.headerLength = f.body ++ rest := by
    rw [WrittenFrame.bytes, List.append_assoc, List.drop_left' hlen]
  have hfits : r.headerLength + (f.header tagUnsynchronised).size ≤ (f.bytes ++ rest).length := by
    simp only [WrittenFrame.bytes, WrittenFrame.header, List.length_append, hlen]
    omega
  rw [framesIn_of_frame hfits (by rw [hhead, f.ofBytes?_head]), ← List.drop_drop, hbehind,
    WrittenFrame.header, List.drop_left' rfl, List.take_left' rfl]

theorem framesIn_replicate (n : Nat) (table : Table) :
    framesIn r tagUnsynchronised (List.replicate n 0) table = table := by
  by_cases hroom : r.headerLength ≤ n
  · apply framesIn_of_padding (by simpa using hroom)
    rw [List.take_replicate, Nat.min_eq_left hroom, FrameHeader.ofBytes?, if_pos]
    cases r <;> rfl
  · exact framesIn_of_short (by simpa using hroom)

/-- The frames are read one after the other, and the padding ends them. -/
theorem framesIn_flatMap_append (frames : List (WrittenFrame r)) (padding : Nat) (table : Table) :
    framesIn r tagUnsynchronised
        (frames.flatMap WrittenFrame.bytes ++ List.replicate padding 0) table =
      frames.foldl (fun table f => (f.header tagUnsynchronised).store f.body table) table := by
  induction frames generalizing table with
  | nil => exact framesIn_replicate padding table
  | cons f frames ih =>
      rw [List.flatMap_cons, List.append_assoc, framesIn_bytes_append, ih, List.foldl_cons]

/-- Of the texts for a key the last one stays. A frame behind it that tells none leaves it there. -/
theorem get?_foldl_store (frames : List (WrittenFrame r)) :
    (frames.foldl (fun table f => (f.header tagUnsynchronised).store f.body table)
        Table.empty).get? key =
      (frames.filter (·.Tells tagUnsynchronised key)).getLast?.bind (·.text?) := by
  induction frames using List.reverseRecOn with
  | nil => exact Table.get?_empty key
  | append_singleton frames f ih =>
      rw [List.foldl_append, List.foldl_cons, List.foldl_nil, f.get?_store, List.filter_append]
      by_cases htells : f.Tells tagUnsynchronised key
      · have hlast : [f].filter (·.Tells tagUnsynchronised key) = [f] := by simp [htells]
        rw [if_pos htells, hlast, List.getLast?_concat, Option.bind_some]
      · have hnone : [f].filter (·.Tells tagUnsynchronised key) = [] := by simp [htells]
        rw [if_neg htells, hnone, List.append_nil, ih]

theorem WrittenTag.isSome_text?_iff {tag : WrittenTag r} :
    (tag.text? key).isSome ↔ ∃ f ∈ tag.frames, f.Tells tag.unsynchronised key := by
  rw [text?]
  rcases hlast : (tag.frames.filter (·.Tells tag.unsynchronised key)).getLast? with _ | f
  · have hnone := List.filter_eq_nil_iff.mp (List.getLast?_eq_none_iff.mp hlast)
    rw [hlast, Option.bind_none]
    refine iff_of_false (by simp) ?_
    rintro ⟨f, hf, htells⟩
    exact hnone f hf (decide_eq_true htells)
  · obtain ⟨hf, htells⟩ := List.mem_filter.mp (List.mem_of_getLast? hlast)
    have htells := of_decide_eq_true htells
    rw [hlast, Option.bind_some]
    exact iff_of_true (WrittenFrame.tells_iff.mp htells).2 ⟨f, hf, htells⟩

/-! ## Reading the tag -/

namespace Revision

theorem length_extensionField (H : r ≠ .two) (n : Nat) : (r.extensionField n).length = 4 := by
  cases r with
  | two => exact absurd rfl H
  | three => exact length_digits 256 4 n
  | four => exact length_digits 128 4 (n + 4)

theorem extensionLength_extensionField (H : r ≠ .two) {n : Nat} (hn : 4 + n < 2 ^ 28) :
    extensionLength r.major.toNat (r.extensionField n) = 4 + n := by
  cases r with
  | two => exact absurd rfl H
  | three =>
      have hmajor : ¬ 4 ≤ three.major.toNat := by decide
      rw [extensionLength, if_neg hmajor, extensionField, bigEndian_digits (by omega)]
  | four =>
      have hmajor : 4 ≤ four.major.toNat := by decide
      rw [extensionLength, if_pos hmajor, extensionField, syncsafe_digits (by omega),
        Nat.add_sub_cancel]

end Revision

namespace WrittenTag

variable (tag : WrittenTag r)

def preamble : Preamble where
  major := r.major.toNat
  unsynchronised := tag.unsynchronised
  extended := tag.extension.isSome
  hasFooter := tag.flags.toNat.testBit 4
  size := tag.body.length

@[simp] theorem length_preambleBytes : tag.preambleBytes.length = Preamble.length := by
  simp [preambleBytes, Preamble.length]

theorem ofBytes_preambleBytes : Preamble.ofBytes tag.preambleBytes = tag.preamble := by
  have hsize : syncsafe (digits 128 4 tag.body.length) = tag.body.length :=
    syncsafe_digits tag.length_body
  have hone : ∀ b : UInt8, bigEndian [b] = b.toNat := fun b => by simp [bigEndian]
  simp only [Preamble.ofBytes, preambleBytes, List.take_succ_cons, List.take_zero,
    List.drop_succ_cons, List.drop_zero, hone, hsize, preamble, unsynchronised, ← tag.extended]

theorem isCompressed_preamble : tag.preamble.isCompressed = false := by
  have htwo := tag.extension_two
  cases r with
  | two => simp [Preamble.isCompressed, preamble, htwo rfl]
  | three => rfl
  | four => rfl

theorem isKnown_preamble : tag.preamble.isKnown := by
  cases r <;> rfl

theorem frames?_preamble : tag.preamble.frames? = some r := by
  rw [Preamble.frames?, tag.isCompressed_preamble]
  cases r <;> rfl

theorem hasExtension_preamble : tag.preamble.hasExtension = tag.extension.isSome := by
  rw [Preamble.hasExtension, tag.isCompressed_preamble]
  exact Bool.and_true _

/-- An extension begins with a size field of four bytes, which tells its length. -/
theorem body_of_extension {payload : List UInt8} (H : tag.extension = some payload) :
    tag.body = r.extensionField payload.length ++ (payload ++ tag.frameBytes) ∧
      (r.extensionField payload.length).length = 4 ∧
      extensionLength r.major.toNat (r.extensionField payload.length) = 4 + payload.length := by
  have htwo : r ≠ .two := by
    intro htwo
    have := tag.extension_two htwo
    simp [H] at this
  have hfield := Revision.length_extensionField htwo payload.length
  have hbody : tag.body = r.extensionField payload.length ++ (payload ++ tag.frameBytes) := by
    rw [body, H, Revision.extensionBytes, List.append_assoc]
  have hlength : tag.body.length < 2 ^ 28 := tag.length_body
  rw [hbody, List.length_append, List.length_append, hfield] at hlength
  exact ⟨hbody, hfield, Revision.extensionLength_extensionField htwo (by omega)⟩

theorem frameBytes_preamble : tag.preamble.frameBytes tag.body = tag.frameBytes := by
  have hmajor : tag.preamble.major = r.major.toNat := rfl
  rw [Preamble.frameBytes, tag.hasExtension_preamble, hmajor]
  rcases hpayload : tag.extension with _ | payload
  · rw [body, hpayload]
    rfl
  · obtain ⟨hbody, hfield, hskip⟩ := tag.body_of_extension hpayload
    rw [Option.isSome_some, if_pos rfl, hbody, List.take_left' hfield, hskip, ← List.drop_drop,
      List.drop_left' hfield, List.drop_left' rfl]

/-- **The table in the body of a written tag has the texts of its frames.** -/
theorem get?_table : (tag.preamble.table tag.body).get? key = tag.text? key := by
  rw [Preamble.table, if_pos tag.isKnown_preamble, tag.frames?_preamble, text?]
  simp only [tag.frameBytes_preamble, frameBytes, framesIn_flatMap_append, get?_foldl_store]
  rfl

end WrittenTag

end MpegAudio.Tag
