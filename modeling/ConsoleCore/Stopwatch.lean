/-!
# Stopwatch

Adds up the time over any number of runs. Clock readings are in nanoseconds and are handed in by
the caller.
-/

namespace ConsoleCore

structure Stopwatch where
  /-- Time of the runs that have ended. -/
  banked : Nat := 0
  startedAt : Option Nat := none
  deriving DecidableEq, Repr

namespace Stopwatch

/-- Begins a run. Nothing happens during one. -/
def start (w : Stopwatch) (now : Nat) : Stopwatch :=
  { w with startedAt := some (w.startedAt.getD now) }

/-- Ends the run in progress, if there is one, and keeps its time. -/
def stop (w : Stopwatch) (now : Nat) : Stopwatch :=
  match w.startedAt with
  | none => w
  | some t => { banked := w.banked + (now - t) }

/-- The time of all runs, the one in progress included. -/
def elapsed (w : Stopwatch) (now : Nat) : Nat :=
  match w.startedAt with
  | none => w.banked
  | some t => w.banked + (now - t)

@[simp] theorem elapsed_stop (w : Stopwatch) (now later : Nat) :
    (w.stop now).elapsed later = w.elapsed now := by
  cases h : w.startedAt <;> simp [stop, elapsed, h]

@[simp] theorem startedAt_stop (w : Stopwatch) (now : Nat) : (w.stop now).startedAt = none := by
  cases h : w.startedAt <;> simp [stop, h]

@[simp] theorem elapsed_start (w : Stopwatch) (now : Nat) :
    (w.start now).elapsed now = w.elapsed now := by
  cases h : w.startedAt <;> simp [start, elapsed, h]

/-- Time counts if a run is in progress that has begun before. -/
theorem elapsed_add {w : Stopwatch} {now : Nat} (h : ∀ t, w.startedAt = some t → t ≤ now)
    (n : Nat) : w.elapsed (now + n) = w.elapsed now + if w.startedAt.isSome then n else 0 := by
  unfold elapsed
  cases hstarted : w.startedAt with
  | none => simp
  | some t =>
    have hpast := h t hstarted
    simp
    omega

end Stopwatch

end ConsoleCore
