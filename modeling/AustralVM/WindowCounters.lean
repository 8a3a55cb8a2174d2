import Mathlib.Logic.Function.Basic

/-!
# Counters of a window

A limiter that counts, for each key, what it has allowed in the current window, and
refuses when a key has reached its limit.  A window is known by its number; a
counter of another window than the current one counts as nothing.
-/

/-- The window in which each key was counted last, and how often. -/
abbrev WindowCounters (κ : Type) := κ → Option (Nat × Nat)

namespace WindowCounters

variable {κ : Type} {counters : WindowCounters κ} {key other : κ} {most window : Nat}

/-- How often a key has been counted in a window. -/
def used (counters : WindowCounters κ) (key : κ) (window : Nat) : Nat :=
  match counters key with
  | some (last, count) => if last = window then count else 0
  | none => 0

variable [DecidableEq κ]

/-- Ask for one more, of at most so many in a window. -/
def allow (counters : WindowCounters κ) (key : κ) (most window : Nat) :
    Bool × WindowCounters κ :=
  let count := counters.used key window
  if most ≤ count then (false, Function.update counters key (some (window, count)))
  else (true, Function.update counters key (some (window, count + 1)))

theorem allow_fst :
    (counters.allow key most window).1 = decide (counters.used key window < most) := by
  by_cases full : most ≤ counters.used key window
  · simp [allow, full]
  · simp [allow, full, Nat.lt_of_not_le full]

theorem used_allow : (counters.allow key most window).2.used key window =
      counters.used key window + (counters.allow key most window).1.toNat := by
  by_cases full : most ≤ counters.used key window
  · have after : (counters.allow key most window).2 key =
        some (window, counters.used key window) := by
      simp [allow, full]
    have refused : (counters.allow key most window).1 = false := by simp [allow, full]
    rw [used, after, refused]
    simp
  · have after : (counters.allow key most window).2 key =
        some (window, counters.used key window + 1) := by
      simp [allow, full]
    have allowed : (counters.allow key most window).1 = true := by simp [allow, full]
    rw [used, after, allowed]
    simp

theorem used_allow_of_ne (differs : other ≠ key) (window' : Nat) :
    (counters.allow key most window).2.used other window' = counters.used other window' := by
  have after : (counters.allow key most window).2 other = counters other := by
    rw [allow]
    split
    · exact Function.update_of_ne differs ..
    · exact Function.update_of_ne differs ..
  rw [used, used, after]

end WindowCounters
