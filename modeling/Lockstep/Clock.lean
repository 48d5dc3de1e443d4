import Lockstep.Duration

/-!
# Pauses

The clock of a run shows whole milliseconds: a pause ends at the first millisecond that is not
earlier than it should be.

* `wakeTime` is when a pause ends.
-/

namespace Lockstep

/-- No pause takes longer than thirty years of 365 days. -/
def longestPause : Nat := 30 * 365 * 86400 * 1000000000

/-- The first whole millisecond that is not before `t`. -/
def roundUp (t : Nat) : Nat := (t + 999999) / 1000000 * 1000000

/-- When a pause ends that begins at `now`.

A timer falls back on `longestPause` where it cannot keep the end of a pause, which depends on the
machine that it runs on.  This is simplified: here the fallback takes the place of every longer pause,
as on a machine that keeps no such end. -/
def wakeTime (now : Nat) (d : Duration) : Nat := roundUp (now + min d.nanos longestPause)

theorem le_roundUp (t : Nat) : t ≤ roundUp t := by
  unfold roundUp
  omega

/-- A pause does not end before it began. -/
theorem le_wakeTime (now : Nat) (d : Duration) : now ≤ wakeTime now d :=
  Nat.le_trans (Nat.le_add_right _ _) (le_roundUp _)

/-- A pause that takes some time ends later than it began. -/
theorem lt_wakeTime (now : Nat) {d : Duration} (hd : 0 < d.nanos) : now < wakeTime now d := by
  have hpause : 0 < min d.nanos longestPause := Nat.lt_min.2 ⟨hd, by decide⟩
  exact Nat.lt_of_lt_of_le (Nat.lt_add_of_pos_right hpause) (le_roundUp _)

end Lockstep
