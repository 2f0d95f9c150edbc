/-!
# Counts that stop at a ceiling

Positions, frame numbers and milliseconds are natural numbers that a player keeps in one 64 bit
word. Where an operation could leave that range its result stays at the largest word instead.
-/

namespace MpegAudio

/-- The largest value of a 64 bit word. -/
def ceiling : Nat := 0xFFFFFFFFFFFFFFFF

/-- The value itself up to the ceiling, and the ceiling above it. -/
def saturate (n : Nat) : Nat := min n ceiling

theorem saturate_le_ceiling (n : Nat) : saturate n ≤ ceiling := Nat.min_le_right n ceiling

theorem saturate_le (n : Nat) : saturate n ≤ n := Nat.min_le_left n ceiling

theorem saturate_of_le {n : Nat} (h : n ≤ ceiling) : saturate n = n := Nat.min_eq_left h

theorem saturate_mono {m n : Nat} (h : m ≤ n) : saturate m ≤ saturate n := by
  unfold saturate
  omega

end MpegAudio
