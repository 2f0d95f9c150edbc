/-!
# The values of a tag

A tag can hold many kinds of frame, of which a player needs two: the title and the artist. Each has
a four letter identifier; in the oldest revision identifiers have three letters, and a zero byte
stands for the missing one.
-/

namespace MpegAudio.Tag

/-- The kinds of text frame that are kept. -/
inductive Key where
  | title
  | artist
  deriving DecidableEq, Repr

namespace Key

/-- The identifier under which a text is reported, whatever the revision of its tag. -/
def id : Key → String
  | title => "TIT2"
  | artist => "TPE1"

/-- The key behind the four bytes of a frame identifier: `TIT2` or `TT2`, `TPE1` or `TP1`. -/
def ofBytes? : List UInt8 → Option Key
  | [0x54, 0x49, 0x54, 0x32] | [0x54, 0x54, 0x32, 0x00] => some title
  | [0x54, 0x50, 0x45, 0x31] | [0x54, 0x50, 0x31, 0x00] => some artist
  | _ => none

/-- All keys, in the order of their identifiers. -/
def all : List Key := [title, artist]

end Key

/-- The texts of a tag. -/
structure Table where
  title : Option String := none
  artist : Option String := none
  deriving DecidableEq, Repr, Inhabited

namespace Table

def empty : Table := {}

def get? (t : Table) : Key → Option String
  | .title => t.title
  | .artist => t.artist

/-- The table with a text put under a key, in the place of the one that was there. -/
def insert (t : Table) (key : Key) (text : String) : Table :=
  match key with
  | .title => { t with title := some text }
  | .artist => { t with artist := some text }

/-- The text under an identifier. -/
def find? (t : Table) (id : String) : Option String :=
  (Key.all.find? (·.id = id)).bind t.get?

/-- Identifiers and texts, in the order of the identifiers. -/
def entries (t : Table) : List (String × String) :=
  Key.all.filterMap fun key => (t.get? key).map (key.id, ·)

@[simp] theorem get?_empty (key : Key) : empty.get? key = none := by
  cases key <;> rfl

@[simp] theorem get?_insert (t : Table) (key other : Key) (text : String) :
    (t.insert key text).get? other = if other = key then some text else t.get? other := by
  cases key <;> cases other <;> rfl

@[ext] theorem ext {s t : Table} (h : ∀ key, s.get? key = t.get? key) : s = t := by
  have title := h .title
  have artist := h .artist
  cases s
  cases t
  simp_all [get?]

end Table

end MpegAudio.Tag
