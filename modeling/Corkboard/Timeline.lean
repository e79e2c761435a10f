/-
Processes on one virtual clock.

Each process sleeps until its next turn, for no longer than thirty years. The process that wakes first takes the next
turn, of several at one time the one that was listed first; a turn ends the process with a result or sends it to sleep
again. No time passes during a turn, so a process that does not sleep goes on until it does.
-/
namespace Corkboard.Timeline

/-- what a turn leads to -/
inductive Turn (π ρ : Type) where
  | done (result : ρ)
  | again (pause : Nat) (process : π)

/-- a process: asleep until a time, or ended at a time with a result -/
inductive Entry (π ρ : Type) where
  | asleep (wake : Nat) (process : π)
  | ended (time : Nat) (result : ρ)

variable {σ π ρ : Type}

/-- the longest sleep in milliseconds: thirty years of 365 days -/
def longestSleep : Nat := 30 * 365 * 24 * 60 * 60 * 1000

/-- asleep from a time on for a pause, or for the longest sleep when the pause is longer -/
def Entry.sleeping (now pause : Nat) (p : π) : Entry π ρ := .asleep (now + min pause longestSleep) p

/-- the first of the earliest times, with its place; `i` is the place of the head -/
def earliest (i : Nat) : List (Entry π ρ) → Option (Nat × Nat × π)
  | [] => none
  | .ended _ _ :: es => earliest (i + 1) es
  | .asleep t p :: es =>
    match earliest (i + 1) es with
    | some (t', j, p') => if t' < t then some (t', j, p') else some (t, i, p)
    | none => some (t, i, p)

def Entry.ofTurn (now : Nat) : Turn π ρ → Entry π ρ
  | .done r => .ended now r
  | .again pause p => .sleeping now pause p

/-- at most `fuel` turns, each given the time and the place of its process -/
def run (turn : Nat → Nat → σ → π → σ × Turn π ρ) : Nat → σ → List (Entry π ρ) → σ × List (Entry π ρ)
  | 0, s, es => (s, es)
  | fuel + 1, s, es =>
    match earliest 0 es with
    | none => (s, es)
    | some (now, i, p) =>
      let (s', r) := turn now i s p
      run turn fuel s' (es.set i (.ofTurn now r))

end Corkboard.Timeline
