import Mathlib.Logic.Function.Basic
import Mathlib.Data.Option.Defs
import Mathlib.Tactic.Common

/-!
# Runs of structured programs

A statement of a structured language goes on to the next one or stops with a
result.  Loops repeat a body as long as a test says so.  A loop is iterated with
a limit on the number of rounds, and the states in which its rounds begin form a
list that grows with the limit.
-/

/-- How a statement ends: it goes on in a state, or it stops. -/
inductive Ending (σ ρ : Type)
  | next (state : σ)
  | stop (result : ρ)
  deriving DecidableEq, Repr

namespace Ending

variable {σ ρ : Type}

def andThen (ending : Ending σ ρ) (second : σ → Option (Ending σ ρ)) : Option (Ending σ ρ) :=
  match ending with
  | .next state => second state
  | .stop result => some (.stop result)

@[simp]
theorem bind_andThen_next (run : Option (Ending σ ρ)) :
    (run.bind fun ending => ending.andThen fun state => some (.next state)) = run := by
  cases run with
  | none => rfl
  | some ending => cases ending <;> rfl

def GoesOn (ending : Option (Ending σ ρ)) : Prop := ∃ state, ending = some (.next state)

/-- Two statements end alike: both go on in related states, or both stop with
related results. -/
inductive Rel {τ π : Type} (states : σ → τ → Prop) (results : ρ → π → Prop) :
    Ending σ ρ → Ending τ π → Prop
  | next {first : σ} {second : τ} (related : states first second) :
      Rel states results (.next first) (.next second)
  | stop {first : ρ} {second : π} (related : results first second) :
      Rel states results (.stop first) (.stop second)

theorem goesOn_or_leaves (alike : Option.Rel (Rel states results) first second) :
    (∃ state state', first = some (.next state) ∧ second = some (.next state') ∧
      states state state') ∨ ¬ GoesOn first ∧ ¬ GoesOn second := by
  cases alike with
  | none => exact .inr ⟨by simp [GoesOn], by simp [GoesOn]⟩
  | some endings =>
    cases endings with
    | next related => exact .inl ⟨_, _, rfl, rfl, related⟩
    | stop => exact .inr ⟨by simp [GoesOn], by simp [GoesOn]⟩

theorem andThen_rel (alike : Option.Rel (Rel before results) first second)
    (restsAlike : ∀ state state', before state state' →
      Option.Rel (Rel after results) (firstRest state) (secondRest state')) :
    Option.Rel (Rel after results) (first >>= fun ending => ending.andThen firstRest)
      (second >>= fun ending => ending.andThen secondRest) := by
  cases alike with
  | none => exact .none
  | some endings =>
    cases endings with
    | next related => exact restsAlike _ _ related
    | stop related => exact .some (.stop related)

end Ending

section Loops

variable {σ ρ : Type} (test : σ → Option (Bool × σ)) (body : σ → Option (Ending σ ρ))

/-- Repeat the body while the test holds, at most a number of rounds. -/
def iterate : Nat → σ → Option (Ending σ ρ)
  | 0, _ => none
  | limit + 1, state => do
    let (holds, state) ← test state
    if holds then
      let ending ← body state
      ending.andThen (iterate limit)
    else some (.next state)

def rounds : Nat → σ → List σ
  | 0, _ => []
  | limit + 1, state =>
    match test state with
    | some (true, state) =>
      state :: match body state with
        | some (.next state) => rounds limit state
        | _ => []
    | _ => []

variable {test body}

theorem rounds_of_test (holds : test state = some (true, after)) (limit : Nat) :
    rounds test body (limit + 1) state = after :: match body after with
      | some (.next state) => rounds test body limit state
      | _ => [] := by
  rw [rounds, holds]

theorem rounds_of_not_test (fails : ∀ after, test state ≠ some (true, after)) (limit : Nat) :
    rounds test body limit state = [] := by
  cases limit with
  | zero => rfl
  | succ =>
    rw [rounds]
    split
    · rename_i after holds
      exact absurd holds (fails after)
    · rfl

theorem rounds_of_next (holds : test state = some (true, after))
    (goesOn : body after = some (.next following)) (limit : Nat) :
    rounds test body (limit + 1) state = after :: rounds test body limit following := by
  rw [rounds_of_test holds, goesOn]

theorem rounds_of_not_goesOn (holds : test state = some (true, after))
    (last : ¬ Ending.GoesOn (body after)) (limit : Nat) :
    rounds test body (limit + 1) state = [after] := by
  rw [rounds_of_test holds]
  split
  · rename_i following goesOn
    exact absurd ⟨following, goesOn⟩ last
  · rfl

end Loops
