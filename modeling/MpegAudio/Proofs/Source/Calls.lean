import MpegAudio.Proofs.Source.Coupled

/-!
# Any series of calls

Whatever is built on a source calls it again and again, and some of the calls fail. None of them
makes the source lose its data or its place. So what can become of a call is the same after any
others, and sources that are kept alike answer all of them alike.
-/

namespace MpegAudio

namespace Source

variable {s s' t t' : Source}

/-! ## The place -/

/-- A source that has lost neither its data nor its place since it was `s`. -/
structure Kept (s s' : Source) : Prop where
  cursor_eq : s'.medium.cursor = s'.position
  data_eq : s'.medium.data = s.medium.data
  conduct_eq : s'.medium.conduct = s.medium.conduct
  length_eq : s'.length = s.length

theorem Kept.moved (H : s.Kept t) {refusals seeks pos : Nat} (ht : t.Moved t' refusals seeks pos) :
    s.Kept t' where
  cursor_eq := ht.cursor_eq.trans ht.position_eq.symm
  data_eq := ht.data_eq.trans H.data_eq
  conduct_eq := ht.conduct_eq.trans H.conduct_eq
  length_eq := ht.length_eq.trans H.length_eq

/-- **Nothing that is built on sources makes a source lose its place**, whether calls fail or
not. -/
theorem coupling_kept (s : Source) : Coupling fun t t' => t = t' ∧ s.Kept t where
  readExact := by
    rintro t _ ⟨rfl, H⟩ n
    have hread := reads_readExact H.cursor_eq n
    generalize readExact n t = x at hread ⊢
    cases hread with
    | nothing hn moved => exact .ok _ ⟨rfl, H.moved moved⟩
    | whole hn fits passes moved => exact .ok _ ⟨rfl, H.moved moved⟩
    | ends hn beyond passes moved => exact .error _ ⟨rfl, H.moved moved⟩
    | refused f behind inside reached passes refuses moved => exact .error _ ⟨rfl, H.moved moved⟩
  seek := by
    rintro t _ ⟨rfl, H⟩ target
    have hseek := seeks_seek H.cursor_eq target
    generalize seek target t = x at hseek ⊢
    cases hseek with
    | granted h moved => exact .ok () ⟨rfl, H.moved moved⟩
    | refused h moved => exact .error _ ⟨rfl, H.moved moved⟩
  position_eq := by
    rintro t _ ⟨rfl, -⟩
    rfl
  length_eq := by
    rintro t _ ⟨rfl, -⟩
    rfl

/-! ## Any series of calls -/

/-- The calls on a source. -/
inductive Call where
  | readExact (n : Nat)
  | readByte
  | seek (target : Nat)
  | skip (count : Nat)
  deriving DecidableEq, Repr

/-- What a call answers, be it a fault. -/
inductive Reply where
  | bytes (bs : List UInt8)
  | byte (b : Option UInt8)
  | moved
  | failed (fault : Fault)
  deriving DecidableEq, Repr

def reply : Call → Action Reply
  | .readExact n => Reply.bytes <$> readExact n
  | .readByte => Reply.byte <$> readByte?
  | .seek target => (fun _ => Reply.moved) <$> seek target
  | .skip count => (fun _ => Reply.moved) <$> skip count

/-- The answers to a series of calls, each with the position after it, and the source that is
left. -/
def calls : List Call → Source → List (Reply × Nat) × Source
  | [], s => ([], s)
  | c :: cs, s =>
    match reply c s with
    | .ok r s' => ((r, s'.position) :: (calls cs s').1, (calls cs s').2)
    | .error fault s' => ((.failed fault, s'.position) :: (calls cs s').1, (calls cs s').2)

/-- Sources that are kept alike give the same answers, and stand at the same positions. -/
theorem Coupling.reply {R : Source → Source → Prop} (H : Coupling R) (h : R s t) (c : Call) :
    Matched R (reply c s) (reply c t) := by
  cases c with
  | readExact n => exact (H.readExact h n).map _
  | readByte => exact (H.readByte? h).map _
  | seek target => exact (H.seek h target).map _
  | skip count => exact (H.skip h count).map _

theorem Coupling.calls {R : Source → Source → Prop} (H : Coupling R) (h : R s t) (cs : List Call) :
    (calls cs t).1 = (calls cs s).1 ∧ R (calls cs s).2 (calls cs t).2 := by
  induction cs generalizing s t with
  | nil => exact ⟨rfl, h⟩
  | cons c cs ih =>
      obtain ⟨r, s', t', hs, ht, h'⟩ | ⟨fault, s', t', hs, ht, h'⟩ := H.reply h c
      · obtain ⟨hrest, hleft⟩ := ih h'
        simp only [Source.calls, hs, ht, H.position_eq h', hrest]
        exact ⟨trivial, hleft⟩
      · obtain ⟨hrest, hleft⟩ := ih h'
        simp only [Source.calls, hs, ht, H.position_eq h', hrest]
        exact ⟨trivial, hleft⟩

end Source

end MpegAudio
